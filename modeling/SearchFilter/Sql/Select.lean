import SearchFilter.Sql.Dialect

/-!
# SELECT statements
-/

namespace SearchFilter

/-- A table, by its name in a namespace. -/
structure TableRef where
  /-- The namespace, if one is named. -/
  schema : Option String
  /-- The name. -/
  name : String
  deriving DecidableEq

/-- Which way an ordering goes. -/
inductive Direction where
  /-- Smallest first. -/
  | ascending
  /-- Greatest first. -/
  | descending
  deriving DecidableEq

/-- The SQL word of a direction. -/
def Direction.keyword : Direction → String
  | .ascending => "ASC"
  | .descending => "DESC"

/-- A table and the alias it is known by. -/
structure TableSource where
  /-- The table. -/
  table : TableRef
  /-- The alias. -/
  tableAlias : Option String
  deriving DecidableEq

/-- A table that is joined where it has matching rows. -/
structure JoinClause where
  /-- The table. -/
  source : TableSource
  /-- When rows match. -/
  condition : Expr

/-- What rows are ordered by. -/
structure OrderItem where
  /-- The ordering expression. -/
  expr : Expr
  /-- Its direction, if one is named. -/
  direction : Option Direction

/-- A SELECT statement. -/
structure Select where
  /-- What is returned. -/
  columns : List Expr
  /-- The table rows come from. -/
  source : Option TableSource
  /-- The tables joined to it. -/
  joins : List JoinClause
  /-- Which rows are returned. -/
  condition : Option Expr
  /-- In which order. -/
  order : List OrderItem
  /-- How many at most. -/
  limit : Option Expr
  /-- How many are passed over. -/
  offset : Option Expr

/-- The pieces of a table and its alias. -/
def TableSource.pieces (t : TableSource) : List Piece :=
  Piece.qualified t.table.schema (.name t.table.name) ++
    match t.tableAlias with
    | some tableAlias => [.raw " AS ", .name tableAlias]
    | none => []

/-- The pieces of a join. -/
def JoinClause.pieces (d : Dialect) (j : JoinClause) : List Piece :=
  .raw " LEFT JOIN " :: j.source.pieces ++ .raw " ON " :: j.condition.pieces d

/-- The pieces of an ordering. -/
def OrderItem.pieces (d : Dialect) (o : OrderItem) : List Piece :=
  o.expr.pieces d ++
    match o.direction with
    | some direction => [.raw (" " ++ direction.keyword)]
    | none => []

namespace Select

/-- A clause of one expression, if there is one. -/
def clause (d : Dialect) (keyword : String) : Option Expr → List Piece
  | some e => .raw keyword :: e.pieces d
  | none => []

/-- The pieces of a statement, clause by clause. -/
def pieces (d : Dialect) (s : Select) : List Piece :=
  .raw "SELECT " :: Piece.commaSeparated (s.columns.map (Expr.pieces d)) ++
    (match s.source with
      | some source => .raw " FROM " :: source.pieces
      | none => []) ++
    s.joins.flatMap (JoinClause.pieces d) ++
    clause d " WHERE " (s.condition.filter fun e => !e.isVacuous) ++
    (if s.order.isEmpty then []
      else .raw " ORDER BY " :: Piece.commaSeparated (s.order.map (OrderItem.pieces d))) ++
    clause d " LIMIT " s.limit ++
    clause d " OFFSET " s.offset

/-- The text of a statement and its values. -/
def render (d : Dialect) (s : Select) : Rendered := .ofPieces d (s.pieces d)

end Select

end SearchFilter
