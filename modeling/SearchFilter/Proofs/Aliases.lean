import SearchFilter.Proofs.Emission
import SearchFilter.Proofs.NumberedNames
import SearchFilter.Proofs.Run

/-!
# Aliases are safe

Whatever filters were applied, no two tables of a statement share an alias, each relation of the root
table is joined once, and every column that the statement mentions is qualified by the alias of one of
its tables. A join is only ever added under a free alias and for a relation that has none; since joins
stay where they are, the aliases in earlier conditions stay good.
-/

namespace SearchFilter

/-! ### Joins -/

/-- Joins that can stand beside each other in a statement. -/
structure JoinsSafe (rootAlias : String) (joins : List Join) : Prop where
  /-- All tables have aliases of their own. -/
  aliases : (rootAlias :: joins.map Join.targetAlias).Nodup
  /-- No relation is joined twice. -/
  relations : (joins.map fun j => (j.sourceAlias, j.property)).Nodup
  /-- All relations are those of the root table. -/
  sources : ∀ j ∈ joins, j.sourceAlias = rootAlias

namespace JoinsSafe

variable {rootAlias : String} {joins : List Join}

theorem nil : JoinsSafe rootAlias [] := ⟨by simp, by simp, by simp⟩

/-- One more relation followed. -/
theorem traverse (h : JoinsSafe rootAlias joins) (r : Traversal) :
    JoinsSafe rootAlias (r.follow rootAlias joins) := by
  unfold Traversal.follow
  split
  · exact h
  · next missing =>
    rw [Traversal.join?, List.find?_eq_none] at missing
    have free : freeAlias rootAlias joins r.target.table ∉
        rootAlias :: joins.map Join.targetAlias := by
      rw [← isTaken_iff, isTaken_freeAlias]
      decide
    have fresh : (rootAlias, r.property) ∉ joins.map fun j => (j.sourceAlias, j.property) := by
      intro hm
      obtain ⟨j, hj, same⟩ := List.mem_map.mp hm
      obtain ⟨source, property⟩ := Prod.mk.inj same
      exact missing j hj (by simp [Join.follows, source, property])
    refine ⟨?_, ?_, ?_⟩
    · rw [List.map_append, ← List.cons_append]
      exact h.aliases.append (List.nodup_singleton _) (List.disjoint_singleton.mpr free)
    · rw [List.map_append]
      exact h.relations.append (List.nodup_singleton _) (List.disjoint_singleton.mpr fresh)
    · intro j hj
      rcases List.mem_append.mp hj with hj | hj
      · exact h.sources j hj
      · rw [List.mem_singleton.mp hj]
        rfl

/-- The fields of some terms looked up. -/
theorem followAll (setting : Setting) (terms : List Term) : ∀ {joins},
    JoinsSafe setting.tableAlias joins →
      JoinsSafe setting.tableAlias (setting.followAll joins terms) := by
  induction terms with
  | nil => exact fun h => h
  | cons t terms ih =>
    intro joins h
    have next : JoinsSafe setting.tableAlias (setting.follow joins t.field) := by
      unfold Setting.follow
      split
      · exact h
      · exact h.traverse _
    exact ih next

end JoinsSafe

/-! ### Qualifiers -/

namespace Expr

mutual

/-- The qualifiers of the columns in an expression. -/
def qualifiers : Expr → List String
  | ident qualifier _ => qualifier.toList
  | wildcard qualifier => qualifier.toList
  | value _ => []
  | param _ => []
  | compare left _ right => left.qualifiers ++ right.qualifiers
  | call _ args => argQualifiers args
  | like subject pattern => subject.qualifiers ++ pattern.qualifiers
  | isNull subject _ => subject.qualifiers
  | not e => e.qualifiers
  | arrayContains array element => array.qualifiers ++ element.qualifiers
  | jsonContains target candidate => target.qualifiers ++ candidate.qualifiers
  | chain links => linkQualifiers links

/-- The qualifiers in arguments. -/
def argQualifiers : List Expr → List String
  | [] => []
  | arg :: args => arg.qualifiers ++ argQualifiers args

/-- The qualifiers in links. -/
def linkQualifiers : List Link → List String
  | [] => []
  | ⟨_, e⟩ :: links => e.qualifiers ++ linkQualifiers links

end

theorem linkQualifiers_append (xs ys : List Link) :
    linkQualifiers (xs ++ ys) = linkQualifiers xs ++ linkQualifiers ys := by
  induction xs with
  | nil => rfl
  | cons link xs ih =>
    obtain ⟨c, e⟩ := link
    rw [List.cons_append, linkQualifiers, linkQualifiers, ih, List.append_assoc]

end Expr

/-- A predicate mentions the table whose column it is about, and no other. -/
theorem Expr.PredicateOn.qualifiers_eq {table : String} {e : Expr} (h : e.PredicateOn table) :
    e.qualifiers = [table] := by
  induction h with
  | not _ ih => exact ih
  | _ => rfl

namespace Setting

variable (setting : Setting)

/-- A path that was followed has the alias of a table of the statement. -/
theorem aliasIn_mem {joins final : List Join} {path : FieldPath}
    (h : setting.follow joins path <+: final) :
    setting.aliasIn final path ∈ setting.tableAlias :: final.map Join.targetAlias := by
  unfold aliasIn
  unfold follow at h
  cases hr : setting.traversal? path with
  | none => exact List.mem_cons_self
  | some r =>
    simp only [hr] at h ⊢
    obtain ⟨j, hj⟩ := r.exists_join?_follow setting.tableAlias joins
    have found : r.join? setting.tableAlias final = some j := h.find?_eq_some hj
    rw [Traversal.aliasIn, found]
    exact List.mem_cons_of_mem _ (List.mem_map_of_mem (List.mem_of_find?_eq_some found))

/-- Each of some terms was looked up at some point. -/
theorem exists_follow_prefix {terms : List Term} {t : Term} (ht : t ∈ terms) :
    ∀ joins, ∃ before, setting.follow before t.field <+: setting.followAll joins terms := by
  induction ht with
  | head terms => exact fun joins => ⟨joins, setting.prefix_followAll _ terms⟩
  | tail u _ ih => exact fun joins => ih (setting.follow joins u.field)

/-- The links of a query mention the aliases of its fields, and no others. -/
theorem qualifiers_links (joins : List Join) (aliases : List String) (nodes : List Node) :
    (∀ t ∈ Node.allTerms nodes, setting.aliasIn joins t.field ∈ aliases) →
      ∀ c n, Expr.linkQualifiers (setting.links joins c nodes n) ⊆ aliases := by
  induction nodes using Node.induction with
  | nil =>
    intro _ c n
    rw [links, Expr.linkQualifiers]
    exact List.nil_subset _
  | term t nodes ih =>
    intro h c n
    rw [Node.allTerms, Node.terms] at h
    have rest := ih (fun u hu => h u (List.mem_append_right _ hu)) c
      (n + setting.keyCount (Node.terms (.term t)))
    rw [links, Expr.linkQualifiers_append, nodeLinks, predicate?]
    refine List.append_subset.mpr ⟨?_, rest⟩
    cases setting.column? t.field with
    | none => exact List.nil_subset _
    | some column =>
      simp only [Option.map_some, Option.toList_some, Expr.linkQualifiers,
        (predicateOn_predicate ..).qualifiers_eq]
      exact List.cons_subset.mpr ⟨h t (List.mem_append_left _ List.mem_cons_self), List.nil_subset _⟩
  | group inner children nodes ihChildren ih =>
    intro h c n
    rw [Node.allTerms, Node.terms] at h
    have inside := ihChildren (fun t ht => h t (List.mem_append_left _ ht)) inner n
    have rest := ih (fun t ht => h t (List.mem_append_right _ ht)) c
      (n + setting.keyCount (Node.terms (.group inner children)))
    rw [links, Expr.linkQualifiers_append, nodeLinks, Expr.linkQualifiers, Expr.qualifiers,
      Expr.linkQualifiers, List.append_nil]
    exact List.append_subset.mpr ⟨inside, rest⟩

end Setting

/-! ### Scopes -/

/-- Joins that can stand beside each other, and conditions on no other tables. -/
structure Scope.Safe (s : Scope) : Prop where
  /-- The joins are safe. -/
  joins : JoinsSafe s.rootAlias s.joins
  /-- All columns are those of the statement's tables. -/
  qualifiers : Expr.linkQualifiers s.conditions ⊆ s.rootAlias :: s.joins.map Join.targetAlias

/-- Compiling a query keeps a scope safe. -/
theorem Scope.Safe.compile {s : Scope} (h : s.Safe) (catalog : Catalog) (entity : Entity)
    (g : Group) : (s.compile catalog entity g).1.Safe := by
  let setting : Setting := ⟨catalog, entity, s.rootAlias⟩
  let joins := setting.followAll s.joins g.terms
  have added : ∀ c n, Expr.linkQualifiers (setting.links joins c g.children n) ⊆
      s.rootAlias :: joins.map Join.targetAlias := by
    refine setting.qualifiers_links joins _ g.children fun t ht => ?_
    obtain ⟨before, followed⟩ := setting.exists_follow_prefix ht s.joins
    exact setting.aliasIn_mem followed
  have kept : Expr.linkQualifiers s.conditions ⊆ s.rootAlias :: joins.map Join.targetAlias := by
    refine List.Subset.trans h.qualifiers (List.cons_subset_cons _ ?_)
    exact ((setting.prefix_followAll s.joins g.terms).map Join.targetAlias).subset
  rw [s.compile_spec catalog entity g]
  refine ⟨JoinsSafe.followAll setting g.terms h.joins, ?_⟩
  dsimp only
  split
  · exact added _ _
  · rw [Expr.linkQualifiers_append, Expr.linkQualifiers, Expr.qualifiers, Expr.linkQualifiers,
      List.append_nil]
    exact List.append_subset.mpr ⟨kept, added _ _⟩

/-! ### Statements -/

namespace Select

/-- The expressions of a statement: what it returns, when rows are joined, which are returned, in
which order, and how many. -/
def exprs (s : Select) : List Expr :=
  s.columns ++ s.joins.map JoinClause.condition ++ s.condition.toList ++ s.order.map OrderItem.expr ++
    s.limit.toList ++ s.offset.toList

/-- The qualifiers of the columns in a statement. -/
def qualifiers (s : Select) : List String := s.exprs.flatMap Expr.qualifiers

end Select

namespace Statement

/-- A statement on a safe scope mentions no other tables than its own. -/
theorem qualifiers_build (s : Statement) (h : s.scope.Safe) :
    s.build.qualifiers ⊆ s.rootAlias :: s.scope.joins.map Join.targetAlias := by
  intro q hq
  obtain ⟨e, he, hq⟩ := List.mem_flatMap.mp hq
  simp only [Select.exprs, List.mem_append, or_assoc] at he
  rcases he with column | join | condition | order | limit | offset
  · rw [build] at column
    split at column
    · rw [List.mem_singleton.mp column] at hq
      exact List.mem_cons.mpr (.inl (List.mem_singleton.mp hq))
    · obtain ⟨name, -, rfl⟩ := List.mem_map.mp column
      exact List.mem_cons.mpr (.inl (List.mem_singleton.mp hq))
  · rw [build, List.map_map] at join
    obtain ⟨j, hj, rfl⟩ := List.mem_map.mp join
    rcases List.mem_pair.mp hq with rfl | rfl
    · exact List.mem_cons_of_mem _ (List.mem_map_of_mem hj)
    · exact List.mem_cons.mpr (.inl (h.joins.sources j hj))
  · have chain : s.scope.condition? = some e := Option.mem_toList.mp condition
    rw [Scope.condition?] at chain
    split at chain
    · cases chain
    · cases chain
      exact h.qualifiers hq
  · rw [build, List.map_map] at order
    obtain ⟨item, -, rfl⟩ := List.mem_map.mp order
    exact List.mem_cons.mpr (.inl (List.mem_singleton.mp hq))
  · obtain ⟨n, -, rfl⟩ := Option.map_eq_some_iff.mp (Option.mem_toList.mp limit)
    cases hq
  · obtain ⟨n, -, rfl⟩ := Option.map_eq_some_iff.mp (Option.mem_toList.mp offset)
    cases hq

/-- Whatever was done to a new statement, the aliases of its joins are distinct and none is the root
alias, each relation is joined once and from the root, and every qualifier in the statement is the
root alias or the alias of a join. -/
theorem run_aliases (table rootAlias : String) (steps : List Step) :
    let s := (aliased table rootAlias).run steps
    (s.scope.joins.map Join.targetAlias).Nodup ∧ (∀ j ∈ s.scope.joins, j.targetAlias ≠ rootAlias) ∧
      (s.scope.joins.map fun j => (j.sourceAlias, j.property)).Nodup ∧
      (∀ j ∈ s.scope.joins, j.sourceAlias = rootAlias) ∧
      ∀ q ∈ s.build.qualifiers, q = rootAlias ∨ ∃ j ∈ s.scope.joins, j.targetAlias = q := by
  intro s
  have start : (aliased table rootAlias).scope.Safe := ⟨.nil, List.nil_subset _⟩
  obtain ⟨root, safe⟩ : s.scope.rootAlias = rootAlias ∧ s.scope.Safe := by
    refine run_scope (P := fun scope => scope.rootAlias = rootAlias ∧ scope.Safe) ?_ steps _ ⟨rfl, start⟩
    rintro scope catalog entity g ⟨root, safe⟩
    refine ⟨?_, safe.compile catalog entity g⟩
    rw [scope.compile_spec catalog entity g]
    exact root
  have joins := safe.joins
  rw [root] at joins
  obtain ⟨outside, distinct⟩ := List.nodup_cons.mp joins.aliases
  refine ⟨distinct, ?_, joins.relations, joins.sources, ?_⟩
  · rintro j hj same
    exact outside (same ▸ List.mem_map_of_mem hj)
  · intro q hq
    have known := s.qualifiers_build safe hq
    rw [Statement.rootAlias, root] at known
    simpa only [List.mem_cons, List.mem_map] using known

end Statement

end SearchFilter
