import SearchFilter.Condition.Field
import SearchFilter.Condition.Predicate
import SearchFilter.Query.Reading

/-!
# From queries to conditions

The terms of a query are turned into conditions one by one, in source order. A nested group becomes
a nested scope that is attached by the connective of the group around it. Terms whose field is not
found are left out.
-/

namespace SearchFilter

/-- What the fields of a query are looked up in. -/
structure Setting where
  /-- All entities. -/
  catalog : Catalog
  /-- The entity the query is about. -/
  entity : Entity
  /-- The alias of its table. -/
  tableAlias : String

/-- Conditions in the making, the number of keys given out, and what is to be told. -/
structure Compilation where
  /-- The conditions. -/
  scope : Scope
  /-- How many keys have been given out. -/
  issued : Nat
  /-- What is to be told, in order. -/
  notices : List Notice

namespace Compilation

/-- One more term, attached by a connective. -/
def addTerm (c : Compilation) (setting : Setting) (connective : Connective) (t : Term) :
    Compilation :=
  let (resolution, scope, notices) :=
    c.scope.resolve setting.catalog setting.entity setting.tableAlias t.field
  match resolution with
  | .resolved tableAlias column =>
    ⟨scope.attach connective (t.predicate tableAlias column.physical column.category c.issued),
      c.issued + t.keyCount, c.notices ++ notices⟩
  | .unknownField => ⟨scope, c.issued, c.notices ++ notices ++ [.fieldUnknown t]⟩
  | .unknownRelatedField => ⟨scope, c.issued, c.notices ++ notices ++ [.relatedFieldUnknown t]⟩

/-- A nested scope begun. -/
def enter (c : Compilation) : Compilation := { c with scope := c.scope.enter }

/-- A nested scope done, and attached by a connective. -/
def leave (c : Compilation) (connective : Connective) (inner : Compilation) : Compilation :=
  { inner with scope := c.scope.leave connective inner.scope }

mutual

/-- One more part of a query, attached by a connective. -/
def addNode (setting : Setting) (connective : Connective) : Node → Compilation → Compilation
  | .term t, c => c.addTerm setting connective t
  | .group inner children, c => c.leave connective (addNodes setting inner children c.enter)

/-- Parts of a query, all attached by one connective. -/
def addNodes (setting : Setting) (connective : Connective) :
    List Node → Compilation → Compilation
  | [], c => c
  | node :: nodes, c => addNodes setting connective nodes (addNode setting connective node c)

end

end Compilation

/-- A query added to a scope. If the scope holds conditions already, the query becomes one condition
that must hold as well. -/
def Scope.compile (s : Scope) (catalog : Catalog) (entity : Entity) (g : Group) :
    Scope × List Notice :=
  let setting : Setting := ⟨catalog, entity, s.rootAlias⟩
  let start : Compilation := ⟨s, s.bound, []⟩
  let done :=
    if s.isEmpty then Compilation.addNodes setting g.connective g.children start
    else
      start.leave .and (Compilation.addNodes setting g.connective g.children start.enter)
  (done.scope, done.notices)

/-! ### Applying a text -/

/-- Why a filter cannot be applied. -/
inductive FilterError where
  /-- The text is no query. -/
  | unreadable (error : SyntaxError)
  /-- There is no such entity. -/
  | unknownEntity (name : String)
  deriving DecidableEq

/-- The wording of an error. -/
def FilterError.message : FilterError → String
  | unreadable error => "Invalid filter expression: " ++ error.message
  | unknownEntity name => "Unknown entity '" ++ name ++ "'"

/-- A text added to a scope as a query about an entity, and what is to be told. The text is read
before the entity is looked up. -/
def Scope.applyFilter (s : Scope) (catalog : Catalog) (entity text : String) :
    Except FilterError Scope × List Notice :=
  match Group.read text with
  | .error error => (.error (.unreadable error), [])
  | .ok g =>
    let read := Notice.queryRead text g.termCount
    match catalog.entity? entity with
    | none => (.error (.unknownEntity entity), [read])
    | some found =>
      let (s, notices) := s.compile catalog found g
      (.ok s, read :: .filterApplied text found.name :: notices)

end SearchFilter
