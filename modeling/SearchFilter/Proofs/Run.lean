import SearchFilter.Statement

/-!
# Runs

A statement is made in steps: filters are applied to it, and what it returns and how its rows are
ordered and counted is set. A filter that cannot be applied changes nothing. Only a filter changes
the scope of a statement, and it does so by compiling a query into it; what compiling preserves, a
run preserves.
-/

namespace SearchFilter

/-- One step in the making of a statement. -/
inductive Step where
  /-- A filter is applied. -/
  | filter (catalog : Catalog) (entity text : String)
  /-- The columns are named. -/
  | returning (columns : List String)
  /-- One more column orders the rows. -/
  | orderedBy (column : String) (direction : Option Direction)
  /-- The limit is set. -/
  | limitedTo (n : UInt64)
  /-- The offset is set. -/
  | startingAt (n : UInt64)

namespace Statement

/-- The statement after a step. -/
def after (s : Statement) : Step → Statement
  | .filter catalog entity text =>
    match (s.applyFilter catalog entity text).1 with
    | .ok t => t
    | .error _ => s
  | .returning columns => s.returning columns
  | .orderedBy column direction => s.orderedBy column direction
  | .limitedTo n => s.limitedTo n
  | .startingAt n => s.startingAt n

/-- The statement after some steps. -/
def run (s : Statement) (steps : List Step) : Statement := steps.foldl after s

/-- A filter is applied exactly if its text is a query and its entity is known; the query is then
compiled into the scope, and nothing else changes. -/
theorem applyFilter_eq_ok_iff (s t : Statement) (catalog : Catalog) (entity text : String) :
    (s.applyFilter catalog entity text).1 = .ok t ↔
      ∃ g found, Group.read text = .ok g ∧ catalog.entity? entity = some found ∧
        t = { s with scope := (s.scope.compile catalog found g).1 } := by
  unfold applyFilter Scope.applyFilter
  cases hg : Group.read text with
  | error error => simp
  | ok g =>
    cases he : catalog.entity? entity with
    | none => simp
    | some found => simp [eq_comm]

/-- A step leaves the scope as it is, or compiles a query into it. -/
theorem after_scope (s : Statement) (step : Step) :
    (s.after step).scope = s.scope ∨
      ∃ catalog entity g, (s.after step).scope = (s.scope.compile catalog entity g).1 := by
  cases step with
  | filter catalog entity text =>
    rw [after]
    split
    · next t h =>
      obtain ⟨g, found, -, -, rfl⟩ := (applyFilter_eq_ok_iff ..).mp h
      exact .inr ⟨catalog, found, g, rfl⟩
    · exact .inl rfl
  | _ => exact .inl rfl

/-- What compiling a query preserves, a run preserves. -/
theorem run_scope {P : Scope → Prop}
    (compile : ∀ s catalog entity g, P s → P (s.compile catalog entity g).1) (steps : List Step) :
    ∀ s : Statement, P s.scope → P (s.run steps).scope := by
  induction steps with
  | nil => exact fun s h => h
  | cons step steps ih =>
    intro s h
    refine ih (s.after step) ?_
    rcases s.after_scope step with same | ⟨catalog, entity, g, compiled⟩
    · rw [same]
      exact h
    · rw [compiled]
      exact compile s.scope catalog entity g h

end Statement

end SearchFilter
