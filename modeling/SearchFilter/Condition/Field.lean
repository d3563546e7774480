import SearchFilter.Condition.Scope
import SearchFilter.Schema.Catalog

/-!
# Finding the column of a field

A field is a column of the root entity, or a column of an entity that one relation leads to.
Following a relation joins the related table, whether or not the column is then found.
-/

namespace SearchFilter

/-! ### Aliases -/

/-- An alias is that of the root table or of a joined one. -/
def isTaken (rootAlias : String) (joins : List Join) (tableAlias : String) : Bool :=
  tableAlias = rootAlias || joins.any fun j => j.targetAlias = tableAlias

/-- A table name with a number after it. -/
def numberedAlias (table : String) (n : Nat) : String :=
  table ++ "_" ++ String.ofList (Digits.ofNat n)

/-- The least numbered alias that is free, from a number on, trying so many. -/
def freeAliasFrom (rootAlias : String) (joins : List Join) (table : String) : Nat → Nat → String
  | 0, n => numberedAlias table n
  | tries + 1, n =>
    if isTaken rootAlias joins (numberedAlias table n) then
      freeAliasFrom rootAlias joins table tries (n + 1)
    else numberedAlias table n

/-- An alias that is free: the table's name, or the least numbered one. With the name itself taken,
the joins cannot take all of one more numbered aliases than there are joins. -/
def freeAlias (rootAlias : String) (joins : List Join) (table : String) : String :=
  if isTaken rootAlias joins table then freeAliasFrom rootAlias joins table joins.length 1
  else table

/-! ### Following a relation -/

/-- Following a relation of the table known as `source`: the alias of the related table, the scope
with the join in it, and what is to be told. A relation that was followed before keeps its alias. -/
def Scope.follow (s : Scope) (rootAlias source property : String) (relation : RelationTarget)
    (target : Entity) : String × Scope × List Notice :=
  match s.join? source property with
  | some j => (j.targetAlias, s, [.joinReused source property j.targetAlias])
  | none =>
    let tableAlias := freeAlias rootAlias s.joins target.table
    let (s, notices) := s.register
      ⟨source, property, target.table, tableAlias, relation.localColumn, relation.foreignColumn⟩
    (tableAlias, s, .joinPlanned source property target.table tableAlias :: notices)

/-! ### Fields -/

/-- What a field was found to be. -/
inductive Resolution where
  /-- A column of the table known by an alias. -/
  | resolved (tableAlias : String) (column : Column)
  /-- No column, or one that does not go with the rest of the path. -/
  | unknownField
  /-- A relation, but no column of the related entity. -/
  | unknownRelatedField
  deriving DecidableEq

/-- What a field of an entity is, when the entity's table is known by an alias. -/
def Scope.resolve (s : Scope) (catalog : Catalog) (entity : Entity) (tableAlias : String)
    (path : FieldPath) : Resolution × Scope × List Notice :=
  match path.head?.bind entity.column? with
  | none => (.unknownField, s, [])
  | some column =>
    match column.target?, path.rest with
    | none, [] => (.resolved tableAlias column, s, [])
    | none, _ :: _ => (.unknownField, s, [])
    | some _, [] => (.unknownField, s, [])
    | some relation, name :: more =>
      match catalog.entity? relation.entity with
      | none => (.unknownRelatedField, s, [])
      | some target =>
        let (targetAlias, s, notices) :=
          s.follow tableAlias tableAlias column.property relation target
        match more, target.column? name with
        | [], some found =>
          if found.isRelation then (.unknownRelatedField, s, notices)
          else (.resolved targetAlias found, s, notices)
        | _, _ => (.unknownRelatedField, s, notices)

end SearchFilter
