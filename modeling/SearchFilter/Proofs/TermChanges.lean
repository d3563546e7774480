import SearchFilter.Proofs.Emission

/-!
# Queries whose terms are changed

What a query adds to a scope depends on the fields of its terms, on which of them have a value, and on
their predicates. A change of the terms that keeps these keeps the joins, the number of keys and the
links; here the predicates need only be kept as far as one looks at them (`links_mapTerms`).
-/

namespace SearchFilter

mutual

/-- A part of a query with each term changed. -/
def Node.mapTerms (f : Term → Term) : Node → Node
  | .term t => .term (f t)
  | .group c children => .group c (Node.mapAllTerms f children)

/-- Parts of a query with each term changed. -/
def Node.mapAllTerms (f : Term → Term) : List Node → List Node
  | [] => []
  | node :: nodes => node.mapTerms f :: Node.mapAllTerms f nodes

end

/-- A query with each term changed. -/
def Group.mapTerms (f : Term → Term) (g : Group) : Group :=
  ⟨g.connective, Node.mapAllTerms f g.children⟩

/-- A link with its condition changed. -/
def Link.mapExpr (h : Expr → Expr) (link : Link) : Link := ⟨link.connective, h link.expr⟩

theorem Node.allTerms_mapAllTerms (f : Term → Term) (nodes : List Node) :
    Node.allTerms (Node.mapAllTerms f nodes) = (Node.allTerms nodes).map f := by
  induction nodes using Node.induction with
  | nil => rfl
  | term t nodes ih =>
    rw [mapAllTerms, mapTerms, allTerms, allTerms, ih, List.map_append]
    rfl
  | group c children nodes ihChildren ih =>
    rw [mapAllTerms, mapTerms, allTerms, allTerms, ih, List.map_append, terms, terms, ihChildren]

/-- A change of terms that keeps their fields and which of them have a value. -/
structure Term.Keeps (f : Term → Term) : Prop where
  /-- Fields are kept. -/
  field : ∀ t, (f t).field = t.field
  /-- What has a value still has one. -/
  isNull : ∀ t, (f t).value.isNull = t.value.isNull

namespace Setting

variable (setting : Setting) {f : Term → Term}

theorem followAll_map (kept : Term.Keeps f) (terms : List Term) (joins : List Join) :
    setting.followAll joins (terms.map f) = setting.followAll joins terms := by
  rw [followAll, List.foldl_map]
  simp only [kept.field]
  rfl

theorem keyed_map (kept : Term.Keeps f) (terms : List Term) :
    setting.keyed (terms.map f) = (setting.keyed terms).map (Prod.map f id) := by
  rw [keyed, keyed, List.filterMap_map, List.map_filterMap]
  congr 1
  funext t
  simp only [Function.comp_apply, kept.field, kept.isNull]
  cases t.value.isNull <;> simp [Option.map_map, Function.comp_def]

theorem keyCount_map (kept : Term.Keeps f) (terms : List Term) :
    setting.keyCount (terms.map f) = setting.keyCount terms := by
  rw [keyCount, keyed_map setting kept, List.length_map, keyCount]

/-- The links of a changed query look like those of the query, if its predicates do. -/
theorem links_mapTerms (kept : Term.Keeps f) {look : Expr → Expr}
    (chain : ∀ links, look (.chain links) = .chain (links.map (Link.mapExpr look)))
    (predicate : ∀ t tableAlias column category n, look ((f t).predicate tableAlias column category n) =
      look (t.predicate tableAlias column category n))
    (joins : List Join) (nodes : List Node) : ∀ c n,
      (setting.links joins c (Node.mapAllTerms f nodes) n).map (Link.mapExpr look) =
        (setting.links joins c nodes n).map (Link.mapExpr look) := by
  induction nodes using Node.induction with
  | nil =>
    intro c n
    rw [Node.mapAllTerms]
  | term t nodes ih =>
    intro c n
    have count := setting.keyCount_map kept [t]
    rw [Node.mapAllTerms, Node.mapTerms, links, links, List.map_append, List.map_append, Node.terms,
      Node.terms, ← List.map_singleton, count, ih]
    congr 1
    rw [nodeLinks, nodeLinks, predicate?, predicate?, kept.field]
    cases setting.column? t.field with
    | none => rfl
    | some column => simp [Link.mapExpr, predicate]
  | group inner children nodes ihChildren ih =>
    intro c n
    have count := setting.keyCount_map kept (Node.allTerms children)
    rw [Node.mapAllTerms, Node.mapTerms, links, links, List.map_append, List.map_append, Node.terms,
      Node.terms, Node.allTerms_mapAllTerms, count, ih]
    congr 1
    rw [nodeLinks, nodeLinks]
    simp only [List.map_cons, List.map_nil, Link.mapExpr, chain, ihChildren]

end Setting

end SearchFilter
