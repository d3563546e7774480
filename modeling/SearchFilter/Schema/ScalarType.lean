import SearchFilter.Text.Casing

/-!
# Scalar types

The type of a single column value, found from the name under which a database declares it.
-/

namespace SearchFilter

/-- The type of a single value. -/
inductive ScalarType where
  /-- Text of any length. -/
  | text
  /-- Whole numbers. -/
  | integer
  /-- Binary floating point numbers. -/
  | float
  /-- Decimal numbers. -/
  | decimal
  /-- Truth values. -/
  | boolean
  /-- Days. -/
  | date
  /-- Times of day. -/
  | time
  /-- Points in time. -/
  | timestamp
  /-- Universally unique identifiers. -/
  | uuid
  /-- One of some listed names. -/
  | enum
  /-- JSON documents. -/
  | json
  /-- Bytes. -/
  | binary
  /-- A type this list does not know, by its name. -/
  | custom (name : String)
  deriving DecidableEq

namespace ScalarType

/-- The declared names of each type, in capitals. -/
def names : List (ScalarType × List String) := [
  (text, ["TEXT", "TINYTEXT", "MEDIUMTEXT", "LONGTEXT", "VARCHAR", "CHARACTER VARYING", "CHAR",
    "CHARACTER", "BPCHAR", "NAME", "CITEXT", "STRING"]),
  (integer, ["SMALLINT", "TINYINT", "MEDIUMINT", "INT", "INT2", "INT4", "INT8", "INTEGER", "BIGINT",
    "SERIAL", "BIGSERIAL"]),
  (float, ["REAL", "FLOAT", "FLOAT4", "FLOAT8", "DOUBLE", "DOUBLE PRECISION"]),
  (decimal, ["DECIMAL", "NUMERIC"]),
  (boolean, ["BOOLEAN", "BOOL"]),
  (date, ["DATE"]),
  (time, ["TIME", "TIMETZ", "TIME WITHOUT TIME ZONE", "TIME WITH TIME ZONE"]),
  (timestamp, ["DATETIME", "TIMESTAMP", "TIMESTAMPTZ", "TIMESTAMP WITHOUT TIME ZONE",
    "TIMESTAMP WITH TIME ZONE"]),
  (uuid, ["UUID"]),
  (enum, ["ENUM"]),
  (json, ["JSON", "JSONB", "SIMPLE-JSON"]),
  (binary, ["BYTEA", "BLOB", "BINARY", "VARBINARY"])]

/-- The type that a name in capitals declares. -/
def ofCapitals? (name : String) : Option ScalarType :=
  (names.find? fun (_, declared) => declared.contains name).map (·.1)

/-- A type name in capitals, without blanks around it and without what follows a parenthesis. -/
def normalize (name : String) : String :=
  let capitals := Text.capitals (Text.trim name.toList)
  String.ofList <|
    if capitals.contains '(' then Text.trimEnd (capitals.takeWhile (· ≠ '(')) else capitals

/-- The type that a name declares. Letter case, blanks around the name and a length or precision in
parentheses do not matter. -/
def ofTypeName (name : String) : ScalarType :=
  (ofCapitals? (normalize name)).getD (custom (String.ofList (Text.trim name.toList)))

/-- The name of the element type, if a type name is that of an array: `text[]` or `_text`. -/
def arrayElement? (name : String) : Option String :=
  let trimmed := Text.trim name.toList
  let element? :=
    if ['[', ']'].isSuffixOf trimmed then some (trimmed.take (trimmed.length - 2))
    else
      match trimmed with
      | '_' :: rest => some rest
      | _ => none
  (element?.map Text.trim).bind fun element =>
    if element.isEmpty then none else some (String.ofList element)

/-- Values are texts. -/
def isText (t : ScalarType) : Bool := t = text

/-- Values are JSON documents. -/
def isJson (t : ScalarType) : Bool := t = json

/-- The name a type is shown by. -/
def name : ScalarType → String
  | text => "TEXT"
  | integer => "INTEGER"
  | float => "FLOAT"
  | decimal => "DECIMAL"
  | boolean => "BOOLEAN"
  | date => "DATE"
  | time => "TIME"
  | timestamp => "TIMESTAMP"
  | uuid => "UUID"
  | enum => "ENUM"
  | json => "JSON"
  | binary => "BINARY"
  | custom name => name

end ScalarType

end SearchFilter
