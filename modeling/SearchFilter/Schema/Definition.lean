import SearchFilter.Json.Source
import SearchFilter.Text.Casing

/-!
# Schema definitions

A schema as it is written in a file, with everything optional that has a default. Reading asks the
same questions of every file format.
-/

namespace SearchFilter

/-- The relation of a column. -/
structure RelationDefinition where
  /-- The related entity. -/
  entity : String
  /-- The column of this table. -/
  localColumn : String
  /-- The column of the related table. -/
  foreignColumn : String
  deriving DecidableEq

/-- A column. -/
structure ColumnDefinition where
  /-- The name queries use. -/
  property : String
  /-- The name the database uses, if it is another. -/
  column : Option String
  /-- The declared type. -/
  typeName : Option String
  /-- It may hold no value. -/
  nullable : Bool
  /-- It holds a list of values of the type. -/
  array : Bool
  /-- The relation it stands for. -/
  relation : Option RelationDefinition
  deriving DecidableEq

/-- An entity. -/
structure EntityDefinition where
  /-- The name queries use. -/
  name : String
  /-- The name of the table, if it is not the entity's name in lower case. -/
  table : Option String
  /-- The columns, in order. -/
  columns : List ColumnDefinition
  deriving DecidableEq

/-- A schema. -/
structure Definition where
  /-- The entities, in order. -/
  entities : List EntityDefinition
  deriving DecidableEq

/-- The table of an entity. -/
def EntityDefinition.tableName (e : EntityDefinition) : String :=
  e.table.getD (Text.lowercase e.name)

/-! ### Reading -/

/-- A value of a file format, as far as a definition is read from it. -/
class Document (α : Type) where
  /-- A text. -/
  text? : α → Option String
  /-- A truth value. -/
  flag? : α → Option Bool
  /-- The items of a list. -/
  items? : α → Option (List α)
  /-- Whether it stands for a value that is left out, if it can stand for one or be one. -/
  isNothing? : α → Option Bool
  /-- The parts of a record with the given names, each if present. -/
  record? : List String → α → Option (List (Option α))

instance : Document Json.Source where
  text? := Json.Source.text?
  flag? := Json.Source.flag?
  items? := Json.Source.items
  isNothing? := fun d => some d.isNull
  record? := Json.Source.record?

namespace Document

variable {α : Type} [Document α]

/-- A part that may be left out. -/
def optional? {β : Type} (read? : α → Option β) : Option α → Option (Option β)
  | none => some none
  | some d => do if ← isNothing? d then some none else (read? d).map some

/-- A part that has a default. -/
def default? {β : Type} (value : β) (read? : α → Option β) : Option α → Option β
  | none => some value
  | some d => read? d

/-- A list of parts. -/
def list? {β : Type} (read? : α → Option β) (d : α) : Option (List β) := do
  (← items? d).mapM read?

end Document

open Document

/-- The shape of what is read from a document. -/
inductive Shape where
  /-- A text or a truth value. -/
  | scalar
  /-- A list of things of one shape. -/
  | list (item : Shape)
  /-- A record, with the name and the shape of each field. -/
  | record (fields : List (String × Shape))

/-- The fields of a relation. -/
def RelationDefinition.fields : List (String × Shape) :=
  [("entity", .scalar), ("local_column", .scalar), ("foreign_column", .scalar)]

/-- The fields of a column. -/
def ColumnDefinition.fields : List (String × Shape) :=
  [("property", .scalar), ("column", .scalar), ("type", .scalar), ("nullable", .scalar),
    ("array", .scalar), ("relation", .record RelationDefinition.fields)]

/-- The fields of an entity. -/
def EntityDefinition.fields : List (String × Shape) :=
  [("name", .scalar), ("table", .scalar), ("columns", .list (.record ColumnDefinition.fields))]

/-- The fields of a schema. -/
def Definition.fields : List (String × Shape) :=
  [("entities", .list (.record EntityDefinition.fields))]

/-- The parts of a record with the given fields, each if present. -/
def fieldsOf? {α : Type} [Document α] (fields : List (String × Shape)) (d : α) :
    Option (List (Option α)) := record? (fields.map (·.1)) d

/-- The column of a related table that is meant if none is given. -/
def RelationDefinition.defaultForeign : String := "id"

/-- The relation that a document describes. -/
def RelationDefinition.ofDocument? {α : Type} [Document α] (d : α) :
    Option RelationDefinition := do
  match ← fieldsOf? fields d with
  | [some entity, some localColumn, foreignColumn] =>
    pure ⟨← text? entity, ← text? localColumn, ← default? defaultForeign text? foreignColumn⟩
  | _ => none

/-- The column that a document describes. -/
def ColumnDefinition.ofDocument? {α : Type} [Document α] (d : α) : Option ColumnDefinition := do
  match ← fieldsOf? fields d with
  | [some property, column, type, nullable, array, relation] =>
    pure ⟨← text? property, ← optional? text? column, ← optional? text? type,
      ← default? false flag? nullable, ← default? false flag? array,
      ← optional? RelationDefinition.ofDocument? relation⟩
  | _ => none

/-- The entity that a document describes. -/
def EntityDefinition.ofDocument? {α : Type} [Document α] (d : α) : Option EntityDefinition := do
  match ← fieldsOf? fields d with
  | [some name, table, columns] =>
    pure ⟨← text? name, ← optional? text? table,
      ← default? [] (list? ColumnDefinition.ofDocument?) columns⟩
  | _ => none

/-- The schema that a document describes. -/
def Definition.ofDocument? {α : Type} [Document α] (d : α) : Option Definition := do
  match ← fieldsOf? fields d with
  | [some entities] => pure ⟨← list? EntityDefinition.ofDocument? entities⟩
  | _ => none

/-- The schema that a JSON text describes. -/
def Definition.ofJsonText? (text : String) : Option Definition :=
  (Json.Source.read? text).bind Definition.ofDocument?

/-! ### Writing -/

/-- A relation as JSON. -/
def RelationDefinition.toJson (r : RelationDefinition) : Json := .object
  [("entity", .string r.entity), ("local_column", .string r.localColumn),
    ("foreign_column", .string r.foreignColumn)]

/-- A column as JSON; what is left out is `null`. -/
def ColumnDefinition.toJson (c : ColumnDefinition) : Json := .object
  [("property", .string c.property), ("column", Json.ofString? c.column),
    ("type", Json.ofString? c.typeName), ("nullable", .bool c.nullable), ("array", .bool c.array),
    ("relation", (c.relation.map RelationDefinition.toJson).getD .null)]

/-- An entity as JSON. -/
def EntityDefinition.toJson (e : EntityDefinition) : Json := .object
  [("name", .string e.name), ("table", Json.ofString? e.table),
    ("columns", .array (e.columns.map ColumnDefinition.toJson))]

/-- A schema as JSON. -/
def Definition.toJson (d : Definition) : Json := .object
  [("entities", .array (d.entities.map EntityDefinition.toJson))]

end SearchFilter
