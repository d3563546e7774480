import SearchFilter.Json.Source
import SearchFilter.Query.Literal

/-!
# Bound values

A value that a statement is run with.
-/

namespace SearchFilter

open Json

/-- A value that a parameter is bound to. -/
inductive Value where
  /-- A whole number of 64 bits. -/
  | int (n : Int64)
  /-- A double. -/
  | float (x : Binary64)
  /-- A text. -/
  | string (s : String)
  /-- A truth value. -/
  | boolean (b : Bool)
  /-- No value. -/
  | null
  deriving DecidableEq

namespace Value

/-- The value of a literal. -/
def ofLiteral : Literal → Value
  | .string s => string s
  | .integer n => int n
  | .float x => float x
  | .boolean b => boolean b
  | .null => null

/-- There is no value. -/
def isNull : Value → Bool
  | null => true
  | _ => false

/-- The characters of a truth value. -/
def boolText (b : Bool) : String := if b then "true" else "false"

/-- The characters of a value, as they are put into a pattern. -/
def text? : Value → Option String
  | int n => some (String.ofList (Digits.ofInt n.toInt))
  | float x => some (String.ofList x.toText)
  | string s => some s
  | boolean b => some (boolText b)
  | null => none

/-- A text as an SQL literal: between single quotes, those inside doubled. -/
def sqlQuote (s : String) : String :=
  String.ofList ('\'' :: s.toList.flatMap (fun c => if c = '\'' then ['\'', '\''] else [c]) ++ ['\''])

/-- A value as it is shown in a report. -/
def shown : Value → String
  | string s => sqlQuote s
  | v => v.text?.getD "NULL"

/-- A value as JSON; a double that is not finite is `null`. -/
def toJson : Value → Json
  | int n => .int n.toInt
  | float x => if x.isFinite then .float x else .null
  | string s => .string s
  | boolean b => .bool b
  | null => .null

/-- A value as JSON together with its kind. -/
def toTaggedJson : Value → Json
  | int n => .object [("Int", .int n.toInt)]
  | float x => .object [("Float", .float x)]
  | string s => .object [("String", .string s)]
  | boolean b => .object [("Boolean", .bool b)]
  | null => .string "Null"

/-- A value given together with its kind. -/
def ofSource? (source : Source) : Option Value := do
  match ← source.variant? with
  | ("Null", none) => pure null
  | ("Null", some .null) => pure null
  | ("Int", some (.number n)) => int <$> n.toInt64?
  | ("Float", some (.number n)) => float <$> n.toBinary64?
  | ("String", some (.string s)) => string <$> s
  | ("Boolean", some (.bool b)) => pure (boolean b)
  | _ => none

/-- The value a JSON text gives together with its kind. -/
def ofJsonText? (text : String) : Option Value := (Source.read? text).bind ofSource?

end Value

end SearchFilter
