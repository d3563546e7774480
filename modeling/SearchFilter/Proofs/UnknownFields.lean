import SearchFilter.Proofs.Fields
import SearchFilter.Proofs.Literals

/-!
# Unknown fields leave no trace

A term whose field is not known adds nothing to a statement, wherever it stands: without such terms, and
without the groups that hold no others, a query gives the same joins, the same values and the same text.
What is left of an unknown term in the conditions are at most chains that hold nothing. The text of a
chain depends on its links only through their own texts, those without any left out
(`linkPieces_chain`), so dropping such chains at all depths changes no text.
-/

namespace SearchFilter

/-! ### Queries without some terms -/

mutual

/-- A part of a query without some terms; a group that no term is left of is dropped as well. -/
def Node.without (drop : Term → Bool) : Node → Option Node
  | .term t => if drop t then none else some (.term t)
  | .group c children =>
    let kept := Node.allWithout drop children
    if kept.isEmpty then none else some (.group c kept)

/-- Parts of a query without some terms. -/
def Node.allWithout (drop : Term → Bool) : List Node → List Node
  | [] => []
  | node :: nodes => (node.without drop).toList ++ Node.allWithout drop nodes

end

/-- A query without some terms, and without the nested groups that no term is left of. -/
def Group.without (drop : Term → Bool) (g : Group) : Group :=
  ⟨g.connective, Node.allWithout drop g.children⟩

/-- The other terms are left, in order. -/
theorem Node.allTerms_allWithout (drop : Term → Bool) (nodes : List Node) :
    Node.allTerms (Node.allWithout drop nodes) = (Node.allTerms nodes).filter fun t => !drop t := by
  induction nodes using Node.induction with
  | nil => rfl
  | term t nodes ih =>
    rw [allWithout, without, allTerms, terms, List.filter_append, ← ih]
    cases dropped : drop t <;> simp [dropped, allTerms, terms]
  | group c children nodes ihChildren ih =>
    rw [allWithout, without, allTerms, terms, List.filter_append, ← ih, ← ihChildren]
    cases Node.allWithout drop children with
    | nil => simp [allTerms]
    | cons kept rest => simp [allTerms, terms]

/-- Nothing is left of parts whose terms are all dropped. -/
theorem Node.allWithout_eq_nil {drop : Term → Bool} (nodes : List Node) :
    (∀ t ∈ Node.allTerms nodes, drop t = true) → Node.allWithout drop nodes = [] := by
  induction nodes using Node.induction with
  | nil => exact fun _ => rfl
  | term t nodes ih =>
    intro h
    rw [allTerms, terms, List.forall_mem_append, List.forall_mem_singleton] at h
    rw [allWithout, without, ih h.2, if_pos h.1]
    rfl
  | group c children nodes ihChildren ih =>
    intro h
    rw [allTerms, terms, List.forall_mem_append] at h
    rw [allWithout, without, ih h.2, ihChildren h.1]
    rfl

/-! ### Terms without a column -/

namespace Setting

variable (setting : Setting) {drop : Term → Bool}

theorem keyed_filter (missing : ∀ t, drop t = true → setting.column? t.field = none) (terms : List Term) :
    setting.keyed (terms.filter fun t => !drop t) = setting.keyed terms := by
  rw [keyed, List.filterMap_filter, keyed]
  congr 1
  funext t
  cases dropped : drop t with
  | false => rfl
  | true => simp [missing t dropped]

theorem followAll_filter (missing : ∀ t, drop t = true → setting.traversal? t.field = none)
    (terms : List Term) (joins : List Join) :
    setting.followAll joins (terms.filter fun t => !drop t) = setting.followAll joins terms := by
  have same : ∀ joins t, setting.follow joins t.field =
      if !drop t then setting.follow joins t.field else joins := by
    intro joins t
    cases dropped : drop t with
    | false => rfl
    | true => simp [follow, missing t dropped]
  rw [followAll, List.foldl_filter, followAll]
  simp only [← same]

end Setting

/-! ### Chains that hold nothing -/

namespace Expr

theorem linkPieces_append (d : Dialect) (xs ys : List Link) :
    linkPieces d (xs ++ ys) = linkPieces d xs ++ linkPieces d ys := by
  induction xs with
  | nil => rfl
  | cons link xs ih =>
    obtain ⟨c, e⟩ := link
    rw [List.cons_append, linkPieces, linkPieces, ih]
    cases e.isVacuous <;> rfl

theorem length_linkPieces (d : Dialect) (links : List Link) :
    (linkPieces d links).length = (surviving links).length := by
  induction links with
  | nil => rfl
  | cons link links ih =>
    obtain ⟨c, e⟩ := link
    rw [surviving] at ih
    rw [linkPieces, surviving, List.filter_cons]
    cases e.isVacuous <;> simp [ih]

theorem linkPieces_eq_nil_iff (d : Dialect) (links : List Link) :
    linkPieces d links = [] ↔ areVacuous links = true := by
  induction links with
  | nil => simp [linkPieces, areVacuous]
  | cons link links ih =>
    obtain ⟨c, e⟩ := link
    rw [linkPieces, areVacuous]
    cases e.isVacuous <;> simp [ih]

/-- What a link with a chain adds depends on what the links of the chain add. -/
theorem linkPieces_chain (d : Dialect) (c : Connective) (links : List Link) :
    linkPieces d [⟨c, .chain links⟩] =
      if linkPieces d links = [] then []
      else [(c, if 1 < (linkPieces d links).length then
        Piece.parenthesized (Piece.joined (linkPieces d links)) else Piece.joined (linkPieces d links))] := by
  rw [linkPieces, isVacuous, isCompound, pieces, ← length_linkPieces d links]
  simp only [linkPieces_eq_nil_iff, decide_eq_true_eq]
  rfl

end Expr

namespace Setting

variable (setting : Setting) {drop : Term → Bool}

/-- Without terms that have no column, the links of a query have the same text. -/
theorem linkPieces_allWithout (missing : ∀ t, drop t = true → setting.column? t.field = none)
    (joins : List Join) (d : Dialect) (nodes : List Node) : ∀ (c : Connective) (n : Nat),
    Expr.linkPieces d (setting.links joins c (Node.allWithout drop nodes) n) =
      Expr.linkPieces d (setting.links joins c nodes n) := by
  have count (terms : List Term) :
      setting.keyCount (terms.filter fun t => !drop t) = setting.keyCount terms :=
    congrArg List.length (setting.keyed_filter missing terms)
  induction nodes using Node.induction with
  | nil => exact fun c n => rfl
  | term t nodes ih =>
    intro c n
    rw [Node.allWithout, Node.without, links, Expr.linkPieces_append, ← ih, Node.terms]
    cases dropped : drop t with
    | true =>
      have absent : setting.predicate? joins t n = none := by rw [predicate?, missing t dropped]; rfl
      have zero : setting.keyCount [t] = 0 := by simp [keyCount, keyed, missing t dropped]
      rw [if_pos rfl, nodeLinks, absent, zero]
      rfl
    | false =>
      rw [if_neg (by decide), Option.toList_some, List.singleton_append, links, Expr.linkPieces_append,
        Node.terms]
  | group inner children nodes ihChildren ih =>
    intro c n
    rw [Node.allWithout, Node.without, links, Expr.linkPieces_append, ← ih, Node.terms, ← count,
      ← Node.allTerms_allWithout, nodeLinks, Expr.linkPieces_chain, ← ihChildren]
    cases Node.allWithout drop children with
    | nil =>
      -- the group is dropped on one side, and a chain that writes nothing on the other
      rw [links, Node.allTerms]
      rfl
    | cons node rest =>
      rw [← Expr.linkPieces_chain]
      show Expr.linkPieces d
        (setting.links joins c (.group inner (node :: rest) :: Node.allWithout drop nodes) n) = _
      rw [links, Expr.linkPieces_append, nodeLinks, Node.terms]

end Setting

/-! ### Statements -/

namespace Statement

/-- The condition of a statement is written as its links are. -/
theorem clause_where (scope : Scope) (d : Dialect) :
    Select.clause d " WHERE " (scope.condition?.filter fun e => !e.isVacuous) =
      if Expr.linkPieces d scope.conditions = [] then []
      else .raw " WHERE " :: Piece.joined (Expr.linkPieces d scope.conditions) := by
  simp only [Scope.condition?, Expr.linkPieces_eq_nil_iff]
  cases vacuous : Expr.areVacuous scope.conditions with
  | true => rfl
  | false => simp [Option.filter, Expr.isVacuous, vacuous, Select.clause, Expr.pieces]

/-- Scopes with the same joins whose links have the same text make the same statement. -/
theorem render_congr (s : Statement) (d : Dialect) {scope scope' : Scope}
    (root : scope.rootAlias = scope'.rootAlias) (joins : scope.joins = scope'.joins)
    (links : Expr.linkPieces d scope.conditions = Expr.linkPieces d scope'.conditions) :
    { s with scope := scope }.render d = { s with scope := scope' }.render d := by
  have condition := clause_where scope d
  rw [links, ← clause_where scope' d] at condition
  unfold render Select.render
  rw [Select.pieces_eq, Select.pieces_eq]
  simp only [build, rootAlias, root, joins, condition]

end Statement

namespace Scope

variable (s : Scope) (catalog : Catalog) (entity : Entity)

/-- The field of a term is not known. -/
def misses (t : Term) : Bool := (s.resolve catalog entity s.rootAlias t.field).1 = .unknownField

/-- Which fields are not known depends on the schema alone. -/
theorem misses_iff (t : Term) :
    s.misses catalog entity t = true ↔ entity.traversed? t.field = none ∧
      Setting.column? ⟨catalog, entity, s.rootAlias⟩ t.field = none := by
  rw [misses, decide_eq_true_eq]
  exact s.resolve_eq_unknownField_iff ⟨catalog, entity, s.rootAlias⟩ t.field

/-- Without its unknown terms, a query adds the same joins, values and texts. -/
theorem compile_without (g : Group) (d : Dialect) :
    let done := (s.compile catalog entity g).1
    let kept := (s.compile catalog entity (g.without (s.misses catalog entity))).1
    kept.joins = done.joins ∧ kept.bound = done.bound ∧ kept.bindings = done.bindings ∧
      Expr.linkPieces d kept.conditions = Expr.linkPieces d done.conditions := by
  intro done kept
  let setting : Setting := ⟨catalog, entity, s.rootAlias⟩
  have column (t : Term) (missed : s.misses catalog entity t = true) :
      setting.column? t.field = none := ((s.misses_iff catalog entity t).mp missed).2
  have traversal (t : Term) (missed : s.misses catalog entity t = true) :
      setting.traversal? t.field = none :=
    setting.traversal?_eq_none ((s.misses_iff catalog entity t).mp missed).1
  have terms : (g.without (s.misses catalog entity)).terms =
      g.terms.filter fun t => !s.misses catalog entity t := Node.allTerms_allWithout ..
  have followed := setting.followAll_filter traversal g.terms s.joins
  have keyed := setting.keyed_filter column g.terms
  have count : setting.keyCount (g.terms.filter fun t => !s.misses catalog entity t) =
      setting.keyCount g.terms := congrArg List.length keyed
  let joins := setting.followAll s.joins g.terms
  let links (nodes : List Node) := setting.links joins g.connective nodes s.bound
  let conditions (nodes : List Node) :=
    if s.isEmpty then links nodes else s.conditions ++ [⟨.and, .chain (links nodes)⟩]
  have specDone : done = ⟨s.rootAlias, conditions g.children, joins,
      s.bound + setting.keyCount g.terms⟩ := s.compile_spec catalog entity g
  have specKept : kept = ⟨s.rootAlias, conditions (Node.allWithout (s.misses catalog entity) g.children),
      joins, s.bound + setting.keyCount g.terms⟩ := by
    show (s.compile catalog entity (g.without (s.misses catalog entity))).1 = _
    rw [compile_spec, terms, followed, count]
    rfl
  refine ⟨by rw [specKept, specDone], by rw [specKept, specDone], ?_, ?_⟩
  · simp only [done, kept, bindings_compile, boundTerms_eq, terms, keyed, setting]
  · have same := setting.linkPieces_allWithout column joins d g.children g.connective s.bound
    rw [specKept, specDone]
    show Expr.linkPieces d (conditions _) = Expr.linkPieces d (conditions _)
    simp only [conditions]
    split
    · exact same
    · rw [Expr.linkPieces_append, Expr.linkPieces_append, Expr.linkPieces_chain, Expr.linkPieces_chain,
        same]

/-- A query without parts adds nothing but a chain that holds nothing. -/
theorem compile_empty (c : Connective) (d : Dialect) :
    let done := (s.compile catalog entity ⟨c, []⟩).1
    done.joins = s.joins ∧ done.bindings = s.bindings ∧
      Expr.linkPieces d done.conditions = Expr.linkPieces d s.conditions := by
  have spec := s.compile_spec catalog entity ⟨c, []⟩
  refine ⟨?_, ?_, ?_⟩
  · rw [spec]
    rfl
  · rw [bindings_compile]
    exact List.append_nil _
  · rw [spec]
    cases hs : s.isEmpty with
    | true =>
      rw [List.isEmpty_iff.mp hs]
      rfl
    | false =>
      show Expr.linkPieces d (s.conditions ++ [⟨.and, .chain []⟩]) = _
      rw [Expr.linkPieces_append]
      exact List.append_nil _

end Scope

namespace Statement

/-- Whether a field is unknown does not depend on the scope it is looked up in. A query without its
unknown terms, and without the nested groups that hold no others, has the remaining terms in order, and
compiled into any statement it gives the same joins, the same bindings and, in every dialect, the same
text and values as the query itself. So a query of unknown terms alone leaves all of these as they
were. -/
theorem compiled_without_unknown (s : Statement) (catalog : Catalog) (entity : Entity) (g : Group)
    (d : Dialect) :
    let unknown := s.scope.misses catalog entity
    let done := s.compiled catalog entity g
    let kept := s.compiled catalog entity (g.without unknown)
    (∀ (scope : Scope) (t : Term),
        (scope.resolve catalog entity s.rootAlias t.field).1 = .unknownField ↔ unknown t = true) ∧
      (g.without unknown).terms = g.terms.filter (fun t => !unknown t) ∧
      kept.scope.joins = done.scope.joins ∧ kept.scope.bindings = done.scope.bindings ∧
      kept.render d = done.render d ∧
      ((∀ t ∈ g.terms, unknown t = true) → done.scope.joins = s.scope.joins ∧
        done.scope.bindings = s.scope.bindings ∧ done.render d = s.render d) := by
  intro unknown done kept
  have root (g : Group) : (s.scope.compile catalog entity g).1.rootAlias = s.scope.rootAlias := by
    rw [Scope.compile_spec]
  obtain ⟨joins, -, bindings, links⟩ := s.scope.compile_without catalog entity g d
  have rendered : kept.render d = done.render d :=
    s.render_congr d ((root _).trans (root _).symm) joins links
  refine ⟨fun scope t => ?_, Node.allTerms_allWithout .., joins, bindings, rendered, fun all => ?_⟩
  · rw [Scope.misses_iff]
    exact scope.resolve_eq_unknownField_iff ⟨catalog, entity, s.scope.rootAlias⟩ t.field
  · have nothing : g.without unknown = ⟨g.connective, []⟩ :=
      congrArg (Group.mk g.connective) (Node.allWithout_eq_nil g.children all)
    obtain ⟨sameJoins, sameBindings, sameLinks⟩ := s.scope.compile_empty catalog entity g.connective d
    rw [← nothing] at sameJoins sameBindings sameLinks
    exact ⟨joins.symm.trans sameJoins, bindings.symm.trans sameBindings,
      rendered.symm.trans (s.render_congr d (root _) sameJoins sameLinks)⟩

/-- Unknown fields in nested groups, one of which holds no others, and a query of unknown fields after
it. -/
theorem compiled_without_unknown_nested :
    let users : Entity := ⟨"User", "users", [.make "age" (.scalar .integer),
      .make "town" (.relation ⟨"Town", "town_id", "id"⟩)], by decide⟩
    let towns : Entity := ⟨"Town", "towns", [.make "size" (.scalar .integer)], by decide⟩
    let catalog : Catalog := ⟨[towns, users]⟩
    let above (path : List String) : Node := .term (.make ⟨path⟩ .gt (.integer 9))
    let mixed : Group := ⟨.or, [.group .and [above ["height"], .group .or [above ["town"]]],
      .group .and [above ["age", "years"], above ["age"]], above ["town", "mayor"], above ["town", "size"]]⟩
    let known : Group := ⟨.or, [.group .and [above ["age"]], above ["town", "mayor"], above ["town", "size"]]⟩
    let nowhere : Group := ⟨.or, [above ["height"], .group .and [above ["town"]]]⟩
    let s := aliased "users" "u"
    let done := s.compiled catalog users mixed
    mixed.terms.filter (fun t => !s.scope.misses catalog users t) = known.terms ∧
      (done.render .sqlite).sql = ((s.compiled catalog users known).render .sqlite).sql ∧
      (done.render .sqlite).sql = "SELECT \"u\".* FROM \"users\" AS \"u\"" ++
        " LEFT JOIN \"towns\" AS \"towns\" ON \"towns\".\"id\" = \"u\".\"town_id\"" ++
        " WHERE \"u\".\"age\" > ? OR \"towns\".\"size\" > ?" ∧
      (∀ t ∈ nowhere.terms, done.scope.misses catalog users t = true) ∧
      (done.compiled catalog users nowhere).render .sqlite = done.render .sqlite := by
  intro users towns catalog above mixed known nowhere s done
  obtain ⟨-, -, -, -, rendered, -⟩ := compiled_without_unknown s catalog users mixed .sqlite
  obtain ⟨-, -, -, -, -, silent⟩ := compiled_without_unknown done catalog users nowhere .sqlite
  have unknown : ∀ t ∈ nowhere.terms, done.scope.misses catalog users t = true := by decide
  refine ⟨by decide, ?_, by decide +kernel, unknown, (silent unknown).2.2⟩
  exact congrArg Rendered.sql rendered.symm

end Statement

end SearchFilter
