import SearchFilter.Schema.ScalarType

/-!
# Columns and entities

An entity is a table with named columns; a column holds a single value, a list of values, or leads
to another entity.
-/

namespace SearchFilter

/-! ### Columns -/

/-- The far side of a relation. -/
structure RelationTarget where
  /-- The related entity. -/
  entity : String
  /-- The column of the table the relation starts from. -/
  localColumn : String
  /-- The column of the related table. -/
  foreignColumn : String
  deriving DecidableEq

/-- What a column holds. -/
inductive Category where
  /-- A single value. -/
  | scalar (type : ScalarType)
  /-- An array of values. -/
  | array (element : ScalarType)
  /-- A JSON document that is an array. -/
  | jsonArray
  /-- The key of a related entity. -/
  | relation (target : RelationTarget)
  deriving DecidableEq

/-- What a column of a declared type holds; `listed` marks a list of such values. -/
def Category.ofTypeName (name : String) (listed : Bool) : Category :=
  match ScalarType.arrayElement? name with
  | some element => .array (.ofTypeName element)
  | none =>
    let type := ScalarType.ofTypeName name
    if !listed then .scalar type
    else if type.isJson then .jsonArray
    else .array type

/-- A column of an entity. -/
structure Column where
  /-- The name queries use. -/
  property : String
  /-- The name the database uses. -/
  physical : String
  /-- What it holds. -/
  category : Category
  /-- It may hold no value. -/
  nullable : Bool
  deriving DecidableEq

namespace Column

/-- A column that has the same name for queries and for the database. -/
def make (property : String) (category : Category) : Column := ⟨property, property, category, false⟩

/-- Where a relation column leads. -/
def target? (c : Column) : Option RelationTarget :=
  match c.category with
  | .relation target => some target
  | _ => none

/-- The column leads to another entity. -/
def isRelation (c : Column) : Bool := c.target?.isSome

end Column

/-! ### Errors -/

/-- Why a schema is refused. -/
inductive SchemaError where
  /-- Two entities have one name. -/
  | duplicateEntity (entity : String)
  /-- Two columns of an entity have one name. -/
  | duplicateProperty (entity property : String)
  /-- A column has neither a type nor a relation. -/
  | missingType (entity property : String)
  /-- A relation leads to an entity that is not there. -/
  | unknownRelationTarget (entity property target : String)
  deriving DecidableEq

/-- The wording of a refusal. -/
def SchemaError.message : SchemaError → String
  | duplicateEntity entity => "Duplicate entity '" ++ entity ++ "' in schema"
  | duplicateProperty entity property =>
    "Duplicate property '" ++ property ++ "' on entity '" ++ entity ++ "'"
  | missingType entity property =>
    "Column '" ++ property ++ "' on entity '" ++ entity ++ "' declares neither a type nor a relation"
  | unknownRelationTarget entity property target =>
    "Relation '" ++ property ++ "' on entity '" ++ entity ++ "' targets unknown entity '" ++ target ++
      "'"

/-! ### Entities -/

/-- A table with named columns, no two of one name. -/
structure Entity where
  /-- The name queries use. -/
  name : String
  /-- The name of the table. -/
  table : String
  /-- The columns, in order. -/
  columns : List Column
  /-- No two columns have one name. -/
  distinct : (columns.map Column.property).Nodup
  deriving DecidableEq

/-- The first name of a list that stands in it before. -/
def firstRepeated? : List String → List String → Option String
  | _, [] => none
  | seen, name :: names =>
    if name ∈ seen then some name else firstRepeated? (name :: seen) names

/-- The entity with given columns, unless a name is repeated. -/
def Entity.make (name table : String) (columns : List Column) : Except SchemaError Entity :=
  if h : (columns.map Column.property).Nodup then .ok ⟨name, table, columns, h⟩
  else
    .error (.duplicateProperty name ((firstRepeated? [] (columns.map Column.property)).getD ""))

/-- The column of a name. -/
def Entity.column? (e : Entity) (property : String) : Option Column :=
  e.columns.find? fun c => c.property = property

end SearchFilter
