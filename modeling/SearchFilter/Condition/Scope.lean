import SearchFilter.Condition.Notice
import SearchFilter.Sql.Expr

/-!
# Scopes

Conditions are added to a scope. A scope may be nested in another: its conditions are kept apart and
become one condition of the outer scope, while joins and the count of bound values are common to
all scopes of a statement.
-/

namespace SearchFilter

/-- A related table that is joined to a statement. -/
structure Join where
  /-- The alias of the table the relation starts from. -/
  sourceAlias : String
  /-- The relation that is followed. -/
  property : String
  /-- The related table. -/
  targetTable : String
  /-- The alias of the related table. -/
  targetAlias : String
  /-- The column of the first table. -/
  sourceColumn : String
  /-- The column of the related table. -/
  targetColumn : String
  deriving DecidableEq

/-- The join follows a given relation from a given alias. -/
def Join.follows (j : Join) (source property : String) : Bool :=
  j.sourceAlias = source && j.property = property

/-- Conditions in the making. -/
structure Scope where
  /-- The alias of the table rows come from. -/
  rootAlias : String
  /-- The conditions of this scope. -/
  conditions : List Link
  /-- The joins of the statement, in the order they were registered. -/
  joins : List Join
  /-- How many values the statement binds under keys. -/
  bound : Nat

namespace Scope

/-- The scope of a new statement. -/
def new (rootAlias : String) : Scope := ⟨rootAlias, [], [], 0⟩

/-- Nothing has been added to this scope. -/
def isEmpty (s : Scope) : Bool := s.conditions.isEmpty

/-- One more condition. -/
def attach (s : Scope) (connective : Connective) (e : Expr) : Scope :=
  { s with conditions := s.conditions ++ [⟨connective, e⟩], bound := s.bound + e.bindings.length }

/-- A new scope inside this one. -/
def enter (s : Scope) : Scope := { s with conditions := [] }

/-- This scope after an inner one is done: its conditions are one more condition. -/
def leave (s : Scope) (connective : Connective) (inner : Scope) : Scope :=
  { inner with
    rootAlias := s.rootAlias
    conditions := s.conditions ++ [⟨connective, .chain inner.conditions⟩] }

/-- The join that follows a given relation, if it is registered. -/
def join? (s : Scope) (source property : String) : Option Join :=
  s.joins.find? fun j => j.follows source property

/-- One more join, unless one follows the same relation from the same alias. -/
def register (s : Scope) (j : Join) : Scope × List Notice :=
  match s.join? j.sourceAlias j.property with
  | some _ => (s, [.joinRepeated j.sourceAlias j.property])
  | none => ({ s with joins := s.joins ++ [j] }, [])

/-- The keyed values of the conditions, in order. -/
def bindings (s : Scope) : List Binding := Expr.linkBindings s.conditions

/-- The conditions as one, if there is any. -/
def condition? (s : Scope) : Option Expr :=
  if Expr.areVacuous s.conditions then none else some (.chain s.conditions)

end Scope

end SearchFilter
