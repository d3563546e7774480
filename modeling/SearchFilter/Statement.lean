import SearchFilter.Condition.Compile
import SearchFilter.Sql.Select

/-!
# Statements

A SELECT over one table that filters are applied to.
-/

namespace SearchFilter

/-- A SELECT over one table, in the making. -/
structure Statement where
  /-- The table rows come from. -/
  table : String
  /-- The conditions on the rows, and the joins they need. -/
  scope : Scope
  /-- The columns of the table that are returned; all if none is named. -/
  columns : List String
  /-- The columns of the table that order the rows. -/
  ordering : List (String × Option Direction)
  /-- How many rows are returned at most. -/
  limit : Option UInt64
  /-- How many rows are passed over. -/
  offset : Option UInt64

namespace Statement

/-- All rows of a table, known by an alias. -/
def aliased (table rootAlias : String) : Statement := ⟨table, .new rootAlias, [], [], none, none⟩

/-- All rows of a table, known by its own name. -/
def new (table : String) : Statement := aliased table table

/-- The alias of the table. -/
def rootAlias (s : Statement) : String := s.scope.rootAlias

/-- The statement that returns just some columns. -/
def returning (s : Statement) (columns : List String) : Statement := { s with columns := columns }

/-- One more column to order by. -/
def orderedBy (s : Statement) (column : String) (direction : Option Direction) : Statement :=
  { s with ordering := s.ordering ++ [(column, direction)] }

/-- The statement with a limit. -/
def limitedTo (s : Statement) (n : UInt64) : Statement := { s with limit := some n }

/-- The statement with an offset. -/
def startingAt (s : Statement) (n : UInt64) : Statement := { s with offset := some n }

/-- A filter applied, and what is to be told. -/
def applyFilter (s : Statement) (catalog : Catalog) (entity text : String) :
    Except FilterError Statement × List Notice :=
  match s.scope.applyFilter catalog entity text with
  | (.ok scope, notices) => (.ok { s with scope := scope }, notices)
  | (.error error, notices) => (.error error, notices)

/-! ### As SQL -/

/-- A paging number as a bound value; the greatest signed number stands for those beyond it. -/
def pagingValue (n : UInt64) : Expr :=
  .value (.int (if n < 0x8000000000000000 then n.toInt64 else .maxValue))

/-- A join as a clause. -/
def joinClause (j : Join) : JoinClause :=
  ⟨⟨⟨none, j.targetTable⟩, some j.targetAlias⟩,
    .compare (.columnOf j.targetAlias j.targetColumn) .eq (.columnOf j.sourceAlias j.sourceColumn)⟩

/-- The statement that was made. -/
def build (s : Statement) : Select where
  columns :=
    if s.columns.isEmpty then [.wildcard (some s.rootAlias)]
    else s.columns.map (.columnOf s.rootAlias)
  source := some ⟨⟨none, s.table⟩, some s.rootAlias⟩
  joins := s.scope.joins.map joinClause
  condition := s.scope.condition?
  order := s.ordering.map fun (column, direction) => ⟨.columnOf s.rootAlias column, direction⟩
  limit := s.limit.map pagingValue
  offset := s.offset.map pagingValue

/-- The SQL text of the statement and its values. -/
def render (s : Statement) (d : Dialect) : Rendered := s.build.render d

end Statement

end SearchFilter
