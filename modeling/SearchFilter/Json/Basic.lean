import SearchFilter.Number.Shortest

/-!
# JSON values and their text

A JSON value with the fields of an object in order, written compactly or indented by two blanks.
-/

namespace SearchFilter

/-- A JSON value. -/
inductive Json where
  /-- The value `null`. -/
  | null
  /-- A truth value. -/
  | bool (b : Bool)
  /-- A whole number, written without a point. -/
  | int (n : Int)
  /-- A double, written with a point or a power of ten, or as `null` if it is not finite. -/
  | float (x : Binary64)
  /-- A text. -/
  | string (s : String)
  /-- A list of values. -/
  | array (items : List Json)
  /-- Named values in order. -/
  | object (fields : List (String × Json))

namespace Json

/-! ### Strings -/

/-- The lower-case hexadecimal digit of a number below sixteen. -/
def hexDigit (n : Nat) : Char := if n < 10 then Char.ofNat (48 + n) else Char.ofNat (87 + n)

/-- How a character stands in a string. -/
def escape (c : Char) : List Char :=
  if c = '"' then ['\\', '"']
  else if c = '\\' then ['\\', '\\']
  else if c = '\x08' then ['\\', 'b']
  else if c = '\x0c' then ['\\', 'f']
  else if c = '\n' then ['\\', 'n']
  else if c = '\r' then ['\\', 'r']
  else if c = '\t' then ['\\', 't']
  else if c.toNat < 32 then
    ['\\', 'u', '0', '0', hexDigit (c.toNat / 16), hexDigit (c.toNat % 16)]
  else [c]

/-- A text in quotes. -/
def quote (s : String) : List Char := '"' :: s.toList.flatMap escape ++ ['"']

/-! ### Compact text -/

/-- The characters of a double. -/
def floatChars (x : Binary64) : List Char := if x.isFinite then x.toJsonText else "null".toList

/-- The characters of a truth value. -/
def boolChars (b : Bool) : List Char := if b then "true".toList else "false".toList

mutual

/-- The characters of a value, without blanks. -/
def chars : Json → List Char
  | null => "null".toList
  | bool b => boolChars b
  | int n => Digits.ofInt n
  | float x => floatChars x
  | string s => quote s
  | array [] => ['[', ']']
  | array (item :: items) => '[' :: item.chars ++ itemChars items
  | object [] => ['\x7b', '\x7d']
  | object ((name, value) :: fields) =>
    '\x7b' :: quote name ++ ':' :: value.chars ++ fieldChars fields

/-- The items after the first one, and the closing bracket. -/
def itemChars : List Json → List Char
  | [] => [']']
  | item :: items => ',' :: item.chars ++ itemChars items

/-- The fields after the first one, and the closing brace. -/
def fieldChars : List (String × Json) → List Char
  | [] => ['\x7d']
  | (name, value) :: fields => ',' :: quote name ++ ':' :: value.chars ++ fieldChars fields

end

/-- The text of a value, without blanks. -/
def compact (j : Json) : String := String.ofList j.chars

/-! ### Indented text -/

/-- A new line with two blanks for each level. -/
def newline (level : Nat) : List Char := '\n' :: List.replicate (2 * level) ' '

mutual

/-- The characters of a value that stands at a level, one item or field a line. -/
def indented (level : Nat) : Json → List Char
  | null => "null".toList
  | bool b => boolChars b
  | int n => Digits.ofInt n
  | float x => floatChars x
  | string s => quote s
  | array [] => ['[', ']']
  | array (item :: items) =>
    '[' :: newline (level + 1) ++ item.indented (level + 1) ++ indentedItems level items
  | object [] => ['\x7b', '\x7d']
  | object ((name, value) :: fields) =>
    '\x7b' :: newline (level + 1) ++ quote name ++ ':' :: ' ' :: value.indented (level + 1) ++
      indentedFields level fields

/-- The items after the first one, and the closing bracket. -/
def indentedItems (level : Nat) : List Json → List Char
  | [] => newline level ++ [']']
  | item :: items =>
    ',' :: newline (level + 1) ++ item.indented (level + 1) ++ indentedItems level items

/-- The fields after the first one, and the closing brace. -/
def indentedFields (level : Nat) : List (String × Json) → List Char
  | [] => newline level ++ ['\x7d']
  | (name, value) :: fields =>
    ',' :: newline (level + 1) ++ quote name ++ ':' :: ' ' :: value.indented (level + 1) ++
      indentedFields level fields

end

/-- The text of a value, indented. -/
def pretty (j : Json) : String := String.ofList (j.indented 0)

/-! ### Shapes -/

/-- A text, or `null`. -/
def ofString? : Option String → Json
  | none => null
  | some s => string s

end Json

end SearchFilter
