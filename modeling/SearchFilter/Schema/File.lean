import SearchFilter.Schema.Catalog
import SearchFilter.Yaml.Place

/-!
# Schema files

The format of a schema file shows in its name. A file is refused for its name before it is looked
at.
-/

namespace SearchFilter

/-- The format of a schema file. -/
inductive FileFormat where
  /-- JSON. -/
  | json
  /-- YAML. -/
  | yaml
  deriving DecidableEq

/-! ### Names of files -/

/-- A name split at each slash. -/
def pathComponents (path : List Char) : List (List Char) := path.splitOn '/'

/-- The last part of a path; empty parts and single dots count for nothing. -/
def fileName? (path : List Char) : Option (List Char) :=
  ((pathComponents path).filter fun part => part ≠ [] ∧ part ≠ ['.']).getLast?

/-- What follows the last dot of a name, unless nothing stands before that dot. -/
def extension? (name : List Char) : Option (List Char) :=
  let after := (name.reverse.takeWhile (· ≠ '.')).reverse
  if name = ['.', '.'] ∨ name.length ≤ after.length + 1 then none else some after

/-- The format that an extension stands for, in small or capital letters. -/
def FileFormat.ofExtension? (extension : List Char) : Option FileFormat :=
  let lowered := String.ofList (extension.map Char.toLower)
  if lowered = "json" then some .json
  else if lowered = "yaml" ∨ lowered = "yml" then some .yaml
  else none

/-- The format of the file at a path. -/
def FileFormat.ofPath? (path : String) : Option FileFormat := do
  ofExtension? (← extension? (← fileName? path.toList))

/-! ### Reading -/

/-- Why a schema file is refused. -/
inductive FileError where
  /-- The name has no known extension. -/
  | unsupported (path : String)
  /-- The file cannot be read. -/
  | unreadable
  /-- The text is no definition in the file's format. -/
  | malformed (format : FileFormat)
  /-- The definition makes no catalog. -/
  | invalid (error : SchemaError)
  deriving DecidableEq

/-- The wording of a refusal. -/
def FileError.message : FileError → String
  | unsupported path =>
    "Unsupported schema file '" ++ path ++ "': expected .json, .yaml or .yml"
  | unreadable => "Failed to read the schema file"
  | malformed .json => "Failed to parse the schema file as JSON"
  | malformed .yaml => "Failed to parse the schema file as YAML"
  | invalid error => "Invalid schema: " ++ error.message

/-- The definition that a text describes in some format. -/
def Definition.ofText? (format : FileFormat) (text : String) : Option Definition :=
  match format with
  | .json => Definition.ofJsonText? text
  | .yaml => Definition.ofYamlText? text

/-- The definition that a text describes, or the refusal. -/
def Definition.read (format : FileFormat) (text : String) : Except FileError Definition :=
  match Definition.ofText? format text with
  | some d => .ok d
  | none => .error (.malformed format)

/-- The catalog of the file at a path, given its text if it can be read. -/
def Catalog.load (path : String) (text : Option String) : Except FileError Catalog := do
  match FileFormat.ofPath? path, text with
  | none, _ => .error (.unsupported path)
  | some _, none => .error .unreadable
  | some format, some text =>
    let d ← Definition.read format text
    (Catalog.ofDefinition d).mapError .invalid

end SearchFilter
