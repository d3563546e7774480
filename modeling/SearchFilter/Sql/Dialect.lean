import SearchFilter.Sql.Expr
import SearchFilter.Text.Casing

/-!
# Dialects and pieces of SQL

SQL text is put together from pieces: text that stands as it is, names to be quoted, and values to
be bound. What differs between databases is how names are quoted, how places of values are marked,
and how membership in arrays is written.
-/

namespace SearchFilter

/-- A database whose SQL is written. -/
inductive Dialect where
  /-- PostgreSQL. -/
  | postgres
  /-- MySQL and MariaDB. -/
  | mysql
  /-- SQLite. -/
  | sqlite
  deriving DecidableEq

/-- A piece of SQL text. -/
inductive Piece where
  /-- Text as it stands. -/
  | raw (s : String)
  /-- A name to be quoted. -/
  | name (s : String)
  /-- A value to be bound, marked by a placeholder. -/
  | bound (v : Value)
  deriving DecidableEq

namespace Dialect

/-- The dialects by the names they are asked for. -/
def ofName? (s : String) : Option Dialect :=
  let lowered := String.ofList (s.toList.map Char.toLower)
  if lowered = "postgres" ∨ lowered = "postgresql" ∨ lowered = "pg" then some postgres
  else if lowered = "mysql" ∨ lowered = "mariadb" then some mysql
  else if lowered = "sqlite" ∨ lowered = "sqlite3" then some sqlite
  else none

/-- The name of a dialect. -/
def name : Dialect → String
  | postgres => "PostgreSQL"
  | mysql => "MySQL"
  | sqlite => "SQLite"

/-- The character around names. -/
def quoteMark : Dialect → Char
  | postgres => '"'
  | mysql => '\x60'
  | sqlite => '"'

/-- A name between quotes, those inside doubled. -/
def quote (d : Dialect) (s : String) : String :=
  String.ofList (d.quoteMark ::
    s.toList.flatMap (fun c => if c = d.quoteMark then [c, c] else [c]) ++ [d.quoteMark])

/-- The mark for the value of an index, counted from zero. -/
def placeholder (d : Dialect) (index : Nat) : String :=
  match d with
  | postgres => String.ofList ('$' :: Digits.ofNat (index + 1))
  | mysql => "?"
  | sqlite => "?"

/-- An element is in an array column. -/
def arrayContains (d : Dialect) (array element : List Piece) : List Piece :=
  match d with
  | postgres => element ++ .raw " = ANY(" :: array ++ [.raw ")"]
  | mysql => element ++ .raw " MEMBER OF(" :: array ++ [.raw ")"]
  | sqlite => element ++ .raw " IN (SELECT value FROM json_each(" :: array ++ [.raw "))"]

/-- A JSON value, bound as text, is in a JSON array column. -/
def jsonContains (d : Dialect) (target candidate : List Piece) : List Piece :=
  match d with
  | postgres => target ++ .raw " @> " :: candidate ++ [.raw "::text::jsonb"]
  | mysql => .raw "JSON_CONTAINS(" :: target ++ .raw ", " :: candidate ++ [.raw ")"]
  | sqlite =>
    .raw "EXISTS (SELECT 1 FROM json_each(" :: target ++
      .raw ") WHERE json_each.value = json_extract(" :: candidate ++ [.raw ", '$'))"]

end Dialect

/-! ### From pieces to text -/

namespace Piece

/-- The text of pieces, when so many values come before them. -/
def write (d : Dialect) : Nat → List Piece → String
  | _, [] => ""
  | n, raw s :: pieces => s ++ write d n pieces
  | n, name s :: pieces => d.quote s ++ write d n pieces
  | n, bound _ :: pieces => d.placeholder n ++ write d (n + 1) pieces

/-- The values of pieces, in order. -/
def values : List Piece → List Value
  | [] => []
  | raw _ :: pieces => values pieces
  | name _ :: pieces => values pieces
  | bound v :: pieces => v :: values pieces

/-- Pieces in parentheses. -/
def parenthesized (pieces : List Piece) : List Piece := raw "(" :: pieces ++ [raw ")"]

/-- A name after its qualifier. -/
def qualified (qualifier : Option String) (last : Piece) : List Piece :=
  match qualifier with
  | some q => [name q, raw ".", last]
  | none => [last]

/-- Groups of pieces with a comma between them. -/
def commaSeparated : List (List Piece) → List Piece
  | [] => []
  | [pieces] => pieces
  | pieces :: rest => pieces ++ raw ", " :: commaSeparated rest

/-- What has been written of a chain, and the connective written last. -/
structure Joined where
  /-- The conditions so far. -/
  pieces : List Piece
  /-- The connective between the last two of them. -/
  last : Option Connective

/-- One more condition. What came before is put in parentheses when the connective changes. -/
def Joined.attach (j : Joined) (link : Connective × List Piece) : Joined :=
  let before :=
    match j.last with
    | some c => if c = link.1 then j.pieces else parenthesized j.pieces
    | none => j.pieces
  ⟨before ++ raw (" " ++ link.1.keyword ++ " ") :: link.2, some link.1⟩

/-- Conditions combined from left to right. -/
def joined : List (Connective × List Piece) → List Piece
  | [] => []
  | (_, first) :: rest => (rest.foldl Joined.attach ⟨first, none⟩).pieces

end Piece

/-! ### Expressions as pieces -/

namespace Expr

mutual

/-- The pieces of an expression. In a chain, links without conditions are left out and chains of
more than one condition stand in parentheses. -/
def pieces (d : Dialect) : Expr → List Piece
  | ident qualifier name => Piece.qualified qualifier (.name name)
  | wildcard qualifier => Piece.qualified qualifier (.raw "*")
  | value v => [.bound v]
  | param binding => [.bound binding.value]
  | compare left op right => left.pieces d ++ .raw (" " ++ op.symbol ++ " ") :: right.pieces d
  | call name args => .raw (name ++ "(") :: Piece.commaSeparated (argPieces d args) ++ [.raw ")"]
  | like subject pattern => subject.pieces d ++ .raw " LIKE " :: pattern.pieces d
  | isNull subject negated =>
    subject.pieces d ++ [.raw (if negated then " IS NOT NULL" else " IS NULL")]
  | not e => .raw "NOT (" :: e.pieces d ++ [.raw ")"]
  | arrayContains array element => d.arrayContains (array.pieces d) (element.pieces d)
  | jsonContains target candidate => d.jsonContains (target.pieces d) (candidate.pieces d)
  | chain links => Piece.joined (linkPieces d links)

/-- The pieces of each argument. -/
def argPieces (d : Dialect) : List Expr → List (List Piece)
  | [] => []
  | arg :: args => arg.pieces d :: argPieces d args

/-- The pieces of each link that holds a condition. -/
def linkPieces (d : Dialect) : List Link → List (Connective × List Piece)
  | [] => []
  | ⟨c, e⟩ :: links =>
    if e.isVacuous then linkPieces d links
    else
      (c, if e.isCompound then Piece.parenthesized (e.pieces d) else e.pieces d) ::
        linkPieces d links

end

end Expr

/-- SQL text and the values it is run with. -/
structure Rendered where
  /-- The text. -/
  sql : String
  /-- The values, in the order of their placeholders. -/
  values : List Value

/-- Pieces put together. -/
def Rendered.ofPieces (d : Dialect) (pieces : List Piece) : Rendered :=
  ⟨Piece.write d 0 pieces, Piece.values pieces⟩

end SearchFilter
