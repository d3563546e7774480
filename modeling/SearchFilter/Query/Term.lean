import SearchFilter.Query.Literal

/-!
# Terms

A term compares one field with one value: `age:>=18`, `NOT status:active`.
-/

namespace SearchFilter

/-! ### Field paths -/

/-- A field, possibly of a related entity: `name`, `address.city`. -/
structure FieldPath where
  /-- The names between the dots. -/
  segments : List String
  deriving DecidableEq

namespace FieldPath

/-- The parts of a text between its dots; an empty text has one empty part. -/
def splitDots : List Char → List (List Char)
  | [] => [[]]
  | c :: cs =>
    if c = '.' then [] :: splitDots cs
    else
      match splitDots cs with
      | [] => [[c]]
      | part :: parts => (c :: part) :: parts

/-- The path a dotted text spells. -/
def ofChars (cs : List Char) : FieldPath := ⟨(splitDots cs).map String.ofList⟩

/-- The path a dotted text spells. -/
def ofText (s : String) : FieldPath := ofChars s.toList

/-- The first name. -/
def head? (p : FieldPath) : Option String := p.segments.head?

/-- The names after the first. -/
def rest (p : FieldPath) : List String := p.segments.drop 1

/-- The path with its dots. -/
def text (p : FieldPath) : String := String.intercalate "." p.segments

end FieldPath

/-! ### Comparators -/

/-- How a field is compared with a value. -/
inductive Comparator where
  /-- Equal to it, or matched by it. -/
  | eq
  /-- Less than it. -/
  | lt
  /-- Greater than it. -/
  | gt
  /-- At most it. -/
  | le
  /-- At least it. -/
  | ge
  deriving DecidableEq

namespace Comparator

/-- The comparator a symbol stands for; no symbol stands for equality. -/
def ofSymbol? (s : String) : Option Comparator :=
  if s = "" ∨ s = "=" then some .eq
  else if s = "<" then some .lt
  else if s = ">" then some .gt
  else if s = "<=" then some .le
  else if s = ">=" then some .ge
  else none

/-- The symbol of a comparator. -/
def symbol : Comparator → String
  | .eq => "="
  | .lt => "<"
  | .gt => ">"
  | .le => "<="
  | .ge => ">="

end Comparator

/-! ### Places in a text -/

/-- Where a term stands in the text it was read from. -/
structure Span where
  /-- Bytes before its first character. -/
  start : Nat
  /-- Bytes before the character after it. -/
  stop : Nat
  /-- The line it starts on, from one. -/
  line : Nat
  /-- The character of the line it starts at, from one. -/
  column : Nat
  deriving DecidableEq

/-- The place of a term that was not read from a text. -/
def Span.nowhere : Span := ⟨0, 0, 0, 0⟩

/-- A place in a text, by the bytes before it and by line and character. -/
structure Position where
  /-- Bytes before it. -/
  offset : Nat
  /-- The line, from one. -/
  line : Nat
  /-- The character of the line, from one. -/
  column : Nat
  deriving DecidableEq

namespace Position

/-- The beginning of a text. -/
def start : Position := ⟨0, 1, 1⟩

/-- The place after one more character. -/
def next (p : Position) (c : Char) : Position :=
  if c = '\n' then ⟨p.offset + c.utf8Size, p.line + 1, 1⟩
  else ⟨p.offset + c.utf8Size, p.line, p.column + 1⟩

/-- The place after more text. -/
def after (p : Position) (cs : List Char) : Position := cs.foldl next p

end Position

/-! ### Terms -/

/-- One comparison of a field with a value. -/
structure Term where
  /-- What is compared. -/
  field : FieldPath
  /-- How it is compared. -/
  comparator : Comparator
  /-- What it is compared with. -/
  value : Literal
  /-- The comparison must fail. -/
  negated : Bool
  /-- Where it was read. -/
  span : Span
  deriving DecidableEq

namespace Term

/-- A term that was not read from a text. -/
def make (field : FieldPath) (comparator : Comparator) (value : Literal) : Term :=
  ⟨field, comparator, value, false, .nowhere⟩

/-- The opposite term. -/
def negate (t : Term) : Term := { t with negated := !t.negated }

/-- A term as it is shown; equality has no symbol. -/
def chars (t : Term) : List Char :=
  (if t.negated then "NOT ".toList else []) ++ t.field.text.toList ++ ':' ::
    (if t.comparator = .eq then [] else t.comparator.symbol.toList) ++ t.value.chars

/-- A term as it is shown. -/
def text (t : Term) : String := String.ofList t.chars

end Term

end SearchFilter
