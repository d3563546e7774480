import SearchFilter.Proofs.Emission
import SearchFilter.Proofs.Meaning

/-!
# Compilation keeps the meaning of a query

The value of a tree is defined on the tree itself: the parts of a group are combined in source order
by the group's own connective, a term stands for the predicate of its column, and what holds no such
term has no value. Compiling a query makes the condition of a scope the conjunction of what it was
before and the tree. The reason is that the links of a query are combined as its tree is, and that a
query never ends up on the same level as conditions it did not write.
-/

namespace SearchFilter

namespace Setting

variable {τ : Type} [Logic τ] (setting : Setting) (joins : List Join) (v : Expr → τ)

mutual

/-- The value of a part of a query, when so many keys have been given out. -/
def nodeValue? : Node → Nat → Option τ
  | .term t, n => (setting.predicate? joins t n).map v
  | .group c children, n => groupValue c none children n

/-- The value of parts combined by a connective, after some that have a value already, or none. -/
def groupValue : Connective → Option τ → List Node → Nat → Option τ
  | _, before, [], _ => before
  | c, before, node :: nodes, n =>
    groupValue c (Option.merge c.combine before (nodeValue? node n)) nodes
      (n + setting.keyCount node.terms)

end

/-- The value of a query. -/
def treeValue? (g : Group) (n : Nat) : Option τ :=
  setting.groupValue joins v g.connective none g.children n

/-- The links of a query have the value of its tree. -/
theorem valueFrom_links (nodes : List Node) : ∀ (c : Connective) (before : Option τ) (n : Nat),
    Expr.valueFrom v before (setting.links joins c nodes n) =
      setting.groupValue joins v c before nodes n := by
  induction nodes using Node.induction with
  | nil =>
    intro c before n
    simp only [links, groupValue, Expr.valueFrom]
  | term t nodes ih =>
    intro c before n
    rw [links, Expr.valueFrom_append, ih, groupValue, nodeLinks, nodeValue?]
    congr 1
    cases h : setting.predicate? joins t n with
    | none => simp [Expr.valueFrom]
    | some e =>
      have he := setting.predicate?_ne_chain joins h
      simp only [Option.map_some, Option.toList_some, Expr.valueFrom, Expr.value?_of_ne_chain v he]
  | group inner children nodes ihChildren ih =>
    intro c before n
    rw [links, Expr.valueFrom_append, ih, groupValue, nodeLinks, nodeValue?]
    simp only [Expr.valueFrom, Expr.value?, ihChildren]

end Setting

/-- Compiling a query into a scope makes its condition the conjunction of what it was before and the
tree of the query; a side without a value leaves the other, and there is no condition exactly if
neither side has a value. The aliases in the predicates of the tree are those of the joins that the
scope has afterwards. -/
theorem Scope.compile_conjoins {τ : Type} [Logic τ] (v : Expr → τ) (s : Scope) (catalog : Catalog)
    (entity : Entity) (g : Group) :
    let done := (s.compile catalog entity g).1
    let tree := Setting.treeValue? ⟨catalog, entity, s.rootAlias⟩ done.joins v g s.bound
    done.value? v = Option.merge Logic.and (s.value? v) tree ∧
      (done.condition? = none ↔ s.condition? = none ∧ tree = none) := by
  intro done tree
  let setting : Setting := ⟨catalog, entity, s.rootAlias⟩
  let links := setting.links done.joins g.connective g.children s.bound
  have spec := s.compile_spec catalog entity g
  have joins : done.joins = setting.followAll s.joins g.terms := congrArg Scope.joins spec
  have conditions : done.conditions =
      if s.isEmpty then links else s.conditions ++ [⟨.and, .chain links⟩] := by
    simp only [links, joins]
    exact congrArg Scope.conditions spec
  have value_links : Expr.valueFrom v none links = tree :=
    setting.valueFrom_links done.joins v g.children g.connective none s.bound
  have value : done.value? v = Option.merge Logic.and (s.value? v) tree := by
    rw [value?_eq, value?_eq, conditions]
    cases hs : s.isEmpty with
    | true =>
      have empty : s.conditions = [] := List.isEmpty_iff.mp hs
      rw [if_pos rfl, value_links, empty, Expr.valueFrom, Option.merge_none_left]
    | false =>
      -- the whole query is one link, attached by a conjunction
      rw [if_neg (by decide), Expr.valueFrom_append, Expr.valueFrom, Expr.valueFrom, Expr.value?,
        value_links]
      rfl
  refine ⟨value, ?_⟩
  rw [condition?_eq_none_iff v, condition?_eq_none_iff v, value, Option.merge_eq_none_iff]

end SearchFilter
