import SearchFilter.Number.Shortest
import SearchFilter.Text.Casing

/-!
# Literals

The value of a term. A quoted value is a text; an unquoted word is `null`, a truth value, a number
if it is spelt like one, and a text otherwise.
-/

namespace SearchFilter

/-- The value a field is compared with. -/
inductive Literal where
  /-- A text. -/
  | string (s : String)
  /-- A whole number of 64 bits. -/
  | integer (n : Int64)
  /-- A double. -/
  | float (x : Binary64)
  /-- A truth value. -/
  | boolean (b : Bool)
  /-- No value. -/
  | null
  deriving DecidableEq

/-- The 64-bit integer equal to an integer, if there is one. -/
def int64? (n : Int) : Option Int64 :=
  if Int64.minValue.toInt ≤ n ∧ n ≤ Int64.maxValue.toInt then some (Int64.ofInt n) else none

namespace Literal

/-- A character of a decimal number. -/
def isDecimalChar (c : Char) : Bool :=
  c.isDigit || c = '.' || c = '-' || c = '+' || c = 'e' || c = 'E'

/-- A word that may be read as a decimal number; it keeps words such as `inf` texts. -/
def looksDecimal (word : List Char) : Bool := word.any Char.isDigit && word.all isDecimalChar

/-- What an unquoted word stands for. -/
def ofBare (word : List Char) : Literal :=
  if Text.equalsIgnoringCase word "null".toList then null
  else if Text.equalsIgnoringCase word "true".toList then boolean true
  else if Text.equalsIgnoringCase word "false".toList then boolean false
  else
    match (readInteger? word).bind int64? with
    | some n => integer n
    | none =>
      match if looksDecimal word then Decimal.read? word else none with
      | some d => float d.toBinary64
      | none => string (String.ofList word)

/-- The literal is `null`. -/
def isNull : Literal → Bool
  | null => true
  | _ => false

/-- A literal as it is shown: a text between quotes, nothing in it escaped. -/
def chars : Literal → List Char
  | string s => '"' :: s.toList ++ ['"']
  | integer n => Digits.ofInt n.toInt
  | float x => x.toText
  | boolean true => "true".toList
  | boolean false => "false".toList
  | null => "null".toList

end Literal

end SearchFilter
