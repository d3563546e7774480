import SearchFilter.Schema.Definition
import SearchFilter.Schema.Entity

/-!
# Catalogs

All entities that queries may speak of, in ascending order of their names, with every relation
leading to one of them.
-/

namespace SearchFilter

/-- The entities queries may speak of. -/
structure Catalog where
  /-- In ascending order of name. -/
  entities : List Entity
  deriving DecidableEq

namespace Catalog

/-- The entity of a name. -/
def entity? (c : Catalog) (name : String) : Option Entity :=
  c.entities.find? fun e => e.name = name

/-- A fault of a relation column: the entity it leads to is not among some. -/
def danglingColumn? (names : List String) (entity : Entity) (c : Column) : Option SchemaError :=
  c.target?.bind fun target =>
    if target.entity ∈ names then none
    else some (.unknownRelationTarget entity.name c.property target.entity)

/-- The first relation of an entity that leads nowhere. -/
def dangling? (names : List String) (entity : Entity) : Option SchemaError :=
  entity.columns.findSome? (danglingColumn? names entity)

/-- The catalog of some entities. Two of one name are refused, and relations that lead to none of
them, the first in order of entity names. -/
def ofEntities (entities : List Entity) : Except SchemaError Catalog :=
  match firstRepeated? [] (entities.map Entity.name) with
  | some name => .error (.duplicateEntity name)
  | none =>
    let sorted := entities.mergeSort fun a b => a.name ≤ b.name
    match sorted.findSome? (dangling? (sorted.map Entity.name)) with
    | some error => .error error
    | none => .ok ⟨sorted⟩

end Catalog

/-! ### From definitions -/

/-- The column that a definition describes. A relation wins over a type. -/
def ColumnDefinition.resolve (entity : String) (c : ColumnDefinition) : Except SchemaError Column :=
  let make (category : Category) : Column :=
    ⟨c.property, c.column.getD c.property, category, c.nullable⟩
  match c.relation, c.typeName with
  | some r, _ => .ok (make (.relation ⟨r.entity, r.localColumn, r.foreignColumn⟩))
  | none, some name => .ok (make (.ofTypeName name c.array))
  | none, none => .error (.missingType entity c.property)

/-- The entity that a definition describes. -/
def EntityDefinition.resolve (e : EntityDefinition) : Except SchemaError Entity := do
  let columns ← e.columns.mapM (ColumnDefinition.resolve e.name)
  Entity.make e.name e.tableName columns

/-- The entities that definitions describe, in order; a name that was used before is refused. -/
def EntityDefinition.resolveAll (seen : List String) :
    List EntityDefinition → Except SchemaError (List Entity)
  | [] => .ok []
  | e :: es =>
    if e.name ∈ seen then .error (.duplicateEntity e.name)
    else do
      let entity ← e.resolve
      let entities ← resolveAll (e.name :: seen) es
      .ok (entity :: entities)

/-- The catalog that a definition describes. -/
def Catalog.ofDefinition (d : Definition) : Except SchemaError Catalog := do
  Catalog.ofEntities (← EntityDefinition.resolveAll [] d.entities)

/-- The catalog of the schema that a JSON text describes; none if it describes no schema. -/
def Catalog.ofJsonText? (text : String) : Option (Except SchemaError Catalog) :=
  (Definition.ofJsonText? text).map Catalog.ofDefinition

/-! ### Writing -/

/-- The name of a type in JSON. -/
def ScalarType.toJson : ScalarType → Json
  | text => .string "Text"
  | integer => .string "Integer"
  | float => .string "Float"
  | decimal => .string "Decimal"
  | boolean => .string "Boolean"
  | date => .string "Date"
  | time => .string "Time"
  | timestamp => .string "Timestamp"
  | uuid => .string "Uuid"
  | enum => .string "Enum"
  | json => .string "Json"
  | binary => .string "Binary"
  | custom name => .object [("Custom", .string name)]

/-- The far side of a relation as JSON. -/
def RelationTarget.toJson (r : RelationTarget) : Json := .object
  [("entity", .string r.entity), ("local_column", .string r.localColumn),
    ("foreign_column", .string r.foreignColumn)]

/-- What a column holds, as JSON. -/
def Category.toJson : Category → Json
  | scalar type => .object [("Scalar", type.toJson)]
  | array element => .object [("ArrayScalar", element.toJson)]
  | jsonArray => .string "JsonArray"
  | relation target => .object [("Relation", target.toJson)]

/-- A column as JSON. -/
def Column.toJson (c : Column) : Json := .object
  [("property_name", .string c.property), ("physical_name", .string c.physical),
    ("type_category", c.category.toJson), ("nullable", .bool c.nullable)]

/-- An entity as JSON. -/
def Entity.toJson (e : Entity) : Json := .object
  [("name", .string e.name), ("table", .string e.table),
    ("columns", .array (e.columns.map Column.toJson))]

/-- The entities of a catalog as JSON. -/
def Catalog.toJson (c : Catalog) : Json := .array (c.entities.map Entity.toJson)

end SearchFilter
