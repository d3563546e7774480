import SearchFilter.Condition.Scope

/-!
# The meaning of conditions

A condition has a truth value as soon as its predicates have one. Conditions of a chain are combined
from left to right; a chain that holds no predicate, at any depth, has no value and is passed over.
Nothing here depends on how many truth values there are: with `Bool` the reading is two-valued, with
`Truth` it is the three-valued reading of SQL.
-/

namespace SearchFilter

/-! ### Truth values -/

/-- The operations on truth values. -/
class Logic (τ : Type) where
  /-- Both hold. -/
  and : τ → τ → τ
  /-- One of them holds. -/
  or : τ → τ → τ
  /-- It does not hold. -/
  not : τ → τ

/-- The truth values of SQL. -/
inductive Truth where
  /-- It does not hold. -/
  | no
  /-- It cannot be told, because a value is missing. -/
  | unknown
  /-- It holds. -/
  | yes
  deriving DecidableEq

namespace Truth

/-- Both hold: the lesser of the two. -/
def and : Truth → Truth → Truth
  | no, _ => no
  | _, no => no
  | yes, y => y
  | unknown, _ => unknown

/-- One of them holds: the greater of the two. -/
def or : Truth → Truth → Truth
  | yes, _ => yes
  | _, yes => yes
  | no, y => y
  | unknown, _ => unknown

/-- It does not hold; what cannot be told stays so. -/
def not : Truth → Truth
  | no => yes
  | unknown => unknown
  | yes => no

end Truth

instance : Logic Bool := ⟨Bool.and, Bool.or, Bool.not⟩

instance : Logic Truth := ⟨Truth.and, Truth.or, Truth.not⟩

/-- The operation a connective stands for. -/
def Connective.combine {τ : Type} [Logic τ] : Connective → τ → τ → τ
  | .and => Logic.and
  | .or => Logic.or

/-! ### Values of conditions -/

/-- Links one after another: each holds a predicate, or further links. -/
@[elab_as_elim]
theorem Link.induction {P : List Link → Prop} (nil : P [])
    (leaf : ∀ c e links, (∀ inner, e ≠ .chain inner) → P links → P (⟨c, e⟩ :: links))
    (chain : ∀ c inner links, P inner → P links → P (⟨c, .chain inner⟩ :: links)) :
    ∀ links, P links
  | [] => nil
  | ⟨c, e⟩ :: links => by
    have rest := Link.induction nil leaf chain links
    by_cases h : ∃ inner, e = .chain inner
    · obtain ⟨inner, rfl⟩ := h
      exact chain c inner links (Link.induction nil leaf chain inner) rest
    · exact leaf c e links (fun inner he => h ⟨inner, he⟩) rest

namespace Expr

variable {τ : Type} [Logic τ] (v : Expr → τ)

mutual

/-- The value of a condition, given those of its predicates; a chain without predicates has none. -/
def value? : Expr → Option τ
  | chain links => valueFrom none links
  | e => some (v e)

/-- The value of links after some that have a value already, or none. -/
def valueFrom (before : Option τ) : List Link → Option τ
  | [] => before
  | ⟨c, e⟩ :: links => valueFrom (Option.merge c.combine before e.value?) links

end

theorem valueFrom_append (before : Option τ) (xs ys : List Link) :
    valueFrom v before (xs ++ ys) = valueFrom v (valueFrom v before xs) ys := by
  induction xs generalizing before with
  | nil => simp only [List.nil_append, valueFrom]
  | cons link xs ih =>
    obtain ⟨c, e⟩ := link
    simp only [List.cons_append, valueFrom, ih]

/-- A predicate has the value it is given. -/
theorem value?_of_ne_chain {e : Expr} (h : ∀ links, e ≠ chain links) : value? v e = some (v e) := by
  cases e with
  | chain links => exact absurd rfl (h links)
  | _ => rfl

theorem isVacuous_of_ne_chain {e : Expr} (h : ∀ links, e ≠ chain links) : e.isVacuous = false := by
  cases e with
  | chain links => exact absurd rfl (h links)
  | _ => rfl

/-- Links have no value exactly if none of them holds a predicate and there was none before. -/
theorem valueFrom_eq_none_iff (before : Option τ) (links : List Link) :
    valueFrom v before links = none ↔ before = none ∧ areVacuous links = true := by
  induction links using Link.induction generalizing before with
  | nil => simp only [valueFrom, areVacuous, and_true]
  | leaf c e links he ih =>
    rw [valueFrom, ih, areVacuous, value?_of_ne_chain v he, isVacuous_of_ne_chain he]
    cases before <;> simp
  | chain c inner links ihInner ih =>
    rw [valueFrom, ih, areVacuous, value?, isVacuous, Option.merge_eq_none_iff, ihInner]
    simp only [true_and, Bool.and_eq_true, and_assoc]

/-- An expression has no value exactly if it holds no predicate. -/
theorem value?_eq_none_iff (e : Expr) : value? v e = none ↔ e.isVacuous = true := by
  cases e with
  | chain links =>
    rw [value?, valueFrom_eq_none_iff, isVacuous]
    exact and_iff_right rfl
  | _ => exact ⟨nofun, nofun⟩

/-! ### Predicates of conditions -/

mutual

/-- The predicates of a condition in order, out of the chains that they stand in. -/
def predicates : Expr → List Expr
  | chain links => linkPredicates links
  | e => [e]

/-- The predicates of links. -/
def linkPredicates : List Link → List Expr
  | [] => []
  | ⟨_, e⟩ :: links => e.predicates ++ linkPredicates links

end

theorem predicates_of_ne_chain {e : Expr} (h : ∀ links, e ≠ chain links) : e.predicates = [e] := by
  cases e with
  | chain links => exact absurd rfl (h links)
  | _ => rfl

theorem linkPredicates_append (xs ys : List Link) :
    linkPredicates (xs ++ ys) = linkPredicates xs ++ linkPredicates ys := by
  induction xs with
  | nil => rfl
  | cons link xs ih =>
    obtain ⟨c, e⟩ := link
    rw [List.cons_append, linkPredicates, linkPredicates, ih, List.append_assoc]

end Expr

namespace Scope

variable {τ : Type} [Logic τ] (v : Expr → τ) (s : Scope)

/-- The value of a scope's condition, if it has one. -/
def value? : Option τ := s.condition?.bind (Expr.value? v)

/-- The condition of a scope has the value of its links. -/
theorem value?_eq : s.value? v = Expr.valueFrom v none s.conditions := by
  unfold value? condition?
  split
  · next h => exact ((Expr.valueFrom_eq_none_iff v none s.conditions).mpr ⟨rfl, h⟩).symm
  · rfl

/-- There is no condition exactly if there is no value. -/
theorem condition?_eq_none_iff : s.condition? = none ↔ s.value? v = none := by
  rw [value?_eq, Expr.valueFrom_eq_none_iff, condition?]
  cases Expr.areVacuous s.conditions <;> simp

end Scope

end SearchFilter
