import Mathlib.Data.List.Forall2
import SearchFilter.Proofs.Aliases
import SearchFilter.Proofs.Fields
import SearchFilter.Proofs.Literals

/-!
# Which tables are joined, and whose columns are compared

Queries on one entity join the tables of the relations that their terms go on after, in the order in
which these are first met, and no others. It does not matter how deep a term is nested, in which query
it stands, or whether the rest of its path names anything. Each predicate is that of one term, on the
column that the term names: one of the entity's own under the root alias, and one of a related entity
under the alias of the join of just this relation. Joins are only ever added, so an alias that was right
when a predicate was made stays right (`Qualifies.mono`).
-/

namespace SearchFilter

/-! ### Joins -/

theorem eraseDups_concat (xs : List String) (x : String) :
    (xs ++ [x]).eraseDups = if x ∈ xs then xs.eraseDups else xs.eraseDups ++ [x] := by
  rw [List.eraseDups_append, List.removeAll]
  by_cases known : x ∈ xs <;> simp [known, List.eraseDups_cons]

namespace Traversal

variable {rootAlias : String} {joins : List Join}

/-- A relation that is followed from the root is joined, unless it has been. -/
theorem map_property_follow (r : Traversal) (sources : ∀ j ∈ joins, j.sourceAlias = rootAlias) :
    (r.follow rootAlias joins).map Join.property =
      if r.property ∈ joins.map Join.property then joins.map Join.property
      else joins.map Join.property ++ [r.property] := by
  unfold follow
  cases registered : r.join? rootAlias joins with
  | some j =>
    have known : r.property ∈ joins.map Join.property := by
      have follows := List.find?_some registered
      simp only [Join.follows, Bool.and_eq_true, decide_eq_true_eq] at follows
      exact List.mem_map.mpr ⟨j, List.mem_of_find?_eq_some registered, follows.2⟩
    rw [if_pos known]
  | none =>
    have unknown : r.property ∉ joins.map Join.property := by
      rintro known
      obtain ⟨j, hj, same⟩ := List.mem_map.mp known
      exact List.find?_eq_none.mp registered j hj (by simp [Join.follows, sources j hj, same])
    rw [if_neg unknown, List.map_append]
    rfl

end Traversal

namespace Setting

variable (setting : Setting)

theorem followAll_concat (joins : List Join) (terms : List Term) (t : Term) :
    setting.followAll joins (terms ++ [t]) = setting.follow (setting.followAll joins terms) t.field :=
  setting.followAll_append joins terms [t]

/-- The relations that are joined are those that the terms follow, each where it is first met. -/
theorem map_property_followAll (closed : setting.catalog.Closed)
    (known : setting.entity ∈ setting.catalog.entities) (terms : List Term) :
    (setting.followAll [] terms).map Join.property =
      (terms.filterMap fun t => setting.entity.traversed? t.field).eraseDups := by
  -- from the last term back: it adds a join only if no term before it follows the same relation
  induction terms using List.reverseRecOn with
  | nil => rfl
  | append_singleton terms t ih =>
    have safe := JoinsSafe.followAll setting terms .nil
    rw [followAll_concat, List.filterMap_append, follow, List.filterMap_cons,
      setting.traversed?_eq closed known]
    cases setting.traversal? t.field with
    | none => simp [ih]
    | some r =>
      have met := eraseDups_concat (terms.filterMap fun t => setting.entity.traversed? t.field) r.property
      rw [← ih] at met
      simp only [Option.map_some, List.filterMap_nil, met, r.map_property_follow safe.sources, ih,
        List.mem_eraseDups]

/-- The joins of an entity's relations, under any aliases. -/
theorem exists_traversal_of_mem (closed : setting.catalog.Closed) (terms : List Term) {j : Join} :
    j ∈ setting.followAll [] terms → ∃ r : Traversal, r.IsOf setting.catalog setting.entity ∧
      j = ⟨setting.tableAlias, r.property, r.target.table, j.targetAlias, r.relation.localColumn,
        r.relation.foreignColumn⟩ := by
  induction terms using List.reverseRecOn with
  | nil => exact nofun
  | append_singleton terms t ih =>
    rw [followAll_concat, follow]
    cases found : setting.traversal? t.field with
    | none => exact ih
    | some r =>
      simp only [Traversal.follow]
      split
      · exact ih
      · intro hj
        rcases List.mem_append.mp hj with hj | hj
        · exact ih hj
        · rw [List.mem_singleton.mp hj]
          exact ⟨r, ((setting.traversal?_eq_some_iff closed).mp found).1, rfl⟩

end Setting

/-! ### Predicates -/

/-- The alias that the column of a path is qualified by: the root alias if the path is a single name,
and that of the join of its relation if it is two. -/
inductive Qualifies (rootAlias : String) (joins : List Join) : List String → String → Prop where
  /-- A column of the entity's own. -/
  | own (name : String) : Qualifies rootAlias joins [name] rootAlias
  /-- A column of a related entity. -/
  | related {j : Join} (name : String) : j ∈ joins →
    Qualifies rootAlias joins [j.property, name] j.targetAlias

theorem Qualifies.mono {rootAlias : String} {joins final : List Join} {path : List String} {a : String}
    (h : Qualifies rootAlias joins path a) (later : joins ⊆ final) : Qualifies rootAlias final path a := by
  cases h with
  | own name => exact .own name
  | related name hj => exact .related name (later hj)

/-- A predicate is that of a term on the column that its field names, qualified as the field is. -/
def Term.EmittedAs (t : Term) (catalog : Catalog) (e : Entity) (rootAlias : String) (joins : List Join)
    (p : Expr) : Prop :=
  ∃ column a n, catalog.Names e t.field.segments column ∧ Qualifies rootAlias joins t.field.segments a ∧
    p = t.predicate a column.physical column.category n ∧ p.qualifiers = [a]

namespace Setting

variable (setting : Setting)

/-- The predicates of a query are those of its terms whose field is found, in order. -/
theorem predicates_links (joins : List Join) (nodes : List Node) : ∀ (c : Connective) (n : Nat),
    List.Forall₂ (fun t p => ∃ n, setting.predicate? joins t n = some p)
      ((Node.allTerms nodes).filter fun t => (setting.column? t.field).isSome)
      (Expr.linkPredicates (setting.links joins c nodes n)) := by
  induction nodes using Node.induction with
  | nil =>
    intro c n
    rw [Node.allTerms, links]
    exact .nil
  | term t nodes ih =>
    intro c n
    rw [Node.allTerms, Node.terms, links, nodeLinks, Expr.linkPredicates_append, List.filter_append]
    refine List.rel_append ?_ (ih c _)
    cases found : setting.predicate? joins t n with
    | none =>
      have missing : setting.column? t.field = none := Option.map_eq_none_iff.mp found
      simp [missing, Expr.linkPredicates]
    | some p =>
      have present : (setting.column? t.field).isSome = true := by
        rw [← Option.isSome_map, ← predicate?, found]
        rfl
      have single := Expr.predicates_of_ne_chain (setting.predicate?_ne_chain joins found)
      simp only [List.filter_cons, present, if_true, List.filter_nil, Option.map_some, Option.toList_some,
        Expr.linkPredicates, single, List.append_nil]
      exact .cons ⟨n, found⟩ .nil
  | group inner children nodes ihChildren ih =>
    intro c n
    rw [Node.allTerms, Node.terms, links, nodeLinks, Expr.linkPredicates_append, List.filter_append,
      Expr.linkPredicates, Expr.predicates, Expr.linkPredicates, List.append_nil]
    exact List.rel_append (ihChildren inner n) (ih c _)

/-- The predicate of a term whose field was looked up among some of the joins. -/
theorem emittedAs_of_predicate? (closed : setting.catalog.Closed)
    (known : setting.entity ∈ setting.catalog.entities) {before final : List Join} {t : Term} {n : Nat}
    {p : Expr} (followed : setting.follow before t.field <+: final)
    (h : setting.predicate? final t n = some p) :
    t.EmittedAs setting.catalog setting.entity setting.tableAlias final p := by
  obtain ⟨column, found, rfl⟩ := Option.map_eq_some_iff.mp h
  have named := (setting.column?_eq_some_iff closed).mp found
  refine ⟨column, setting.aliasIn final t.field, n, named, ?_, rfl,
    (predicateOn_predicate ..).qualifiers_eq⟩
  obtain ⟨joined, alone⟩ := setting.follow_cases closed known before t.field
  generalize t.field.segments = segments at named joined alone ⊢
  cases named with
  | own hc plain =>
    have notFollowed : ∀ r, ¬ setting.entity.Follows [column.property] r := by
      rintro r ⟨-, name, more, goesOn⟩
      cases goesOn
    rw [(alone notFollowed).2]
    exact .own _
  | @related r _ relation hc plain =>
    obtain ⟨c, hr, name, leads⟩ := relation.column
    obtain ⟨j, registered, aliased⟩ := joined r.property
      ⟨⟨c, hr, name, Column.isRelation_iff.mpr ⟨_, leads⟩⟩, column.property, [], rfl⟩
    have follows := List.find?_some registered
    simp only [Join.follows, Bool.and_eq_true, decide_eq_true_eq] at follows
    -- the alias was given when the path was looked up, and later joins did not change it
    rw [← setting.aliasIn_follow followed, aliased, ← follows.2]
    exact .related _ (followed.subset (List.mem_of_find?_eq_some registered))

end Setting

/-! ### Queries one after another -/

namespace Scope

/-- The field of a term is found to be a column. -/
def resolves (s : Scope) (catalog : Catalog) (entity : Entity) (t : Term) : Bool :=
  match (s.resolve catalog entity s.rootAlias t.field).1 with
  | .resolved _ _ => true
  | _ => false

/-- Which fields are found depends on the schema alone. -/
theorem resolves_eq (s : Scope) (catalog : Catalog) (entity : Entity) (t : Term) :
    s.resolves catalog entity t =
      (Setting.column? ⟨catalog, entity, s.rootAlias⟩ t.field).isSome := by
  obtain ⟨-, found⟩ := s.resolve_spec ⟨catalog, entity, s.rootAlias⟩ t.field
  revert found
  unfold resolves
  cases Setting.column? ⟨catalog, entity, s.rootAlias⟩ t.field with
  | none => rintro (found | found) <;> simp [found]
  | some column =>
    intro found
    simp [found]

/-- Compiling a query adds its predicates after those of the scope. -/
theorem predicates_compile (s : Scope) (catalog : Catalog) (entity : Entity) (g : Group) :
    let setting : Setting := ⟨catalog, entity, s.rootAlias⟩
    Expr.linkPredicates (s.compile catalog entity g).1.conditions =
      Expr.linkPredicates s.conditions ++ Expr.linkPredicates
        (setting.links (setting.followAll s.joins g.terms) g.connective g.children s.bound) := by
  intro setting
  rw [compile_spec]
  cases hs : s.isEmpty with
  | true =>
    have empty : s.conditions = [] := List.isEmpty_iff.mp hs
    rw [empty]
    rfl
  | false =>
    show Expr.linkPredicates (s.conditions ++ [_]) = _
    rw [Expr.linkPredicates_append, Expr.linkPredicates, Expr.predicates, Expr.linkPredicates,
      List.append_nil]

/-- A scope holds the joins and the predicates of some terms, and no others. -/
structure HoldsTerms (setting : Setting) (terms : List Term) (s : Scope) : Prop where
  /-- The terms are about the same table. -/
  root : s.rootAlias = setting.tableAlias
  /-- The joins are those of the terms. -/
  joins : s.joins = setting.followAll [] terms
  /-- The predicates are those of the terms whose field is found. -/
  predicates : List.Forall₂
    (fun t p => t.EmittedAs setting.catalog setting.entity setting.tableAlias s.joins p)
    (terms.filter fun t => (setting.column? t.field).isSome) (Expr.linkPredicates s.conditions)

namespace HoldsTerms

variable {setting : Setting} {terms : List Term} {s : Scope}

theorem new (setting : Setting) : HoldsTerms setting [] (.new setting.tableAlias) := ⟨rfl, rfl, .nil⟩

/-- A query that is compiled into the scope adds its terms. -/
theorem compile (closed : setting.catalog.Closed) (known : setting.entity ∈ setting.catalog.entities)
    (h : HoldsTerms setting terms s) (g : Group) :
    HoldsTerms setting (terms ++ g.terms) (s.compile setting.catalog setting.entity g).1 := by
  have same : (⟨setting.catalog, setting.entity, s.rootAlias⟩ : Setting) = setting := by rw [h.root]
  let final := setting.followAll s.joins g.terms
  have spec := s.compile_spec setting.catalog setting.entity g
  simp only [same] at spec
  have joins : (s.compile setting.catalog setting.entity g).1.joins = final := congrArg Scope.joins spec
  have earlier : s.joins ⊆ final := (setting.prefix_followAll s.joins g.terms).subset
  refine ⟨?_, ?_, ?_⟩
  · rw [spec]
    exact h.root
  · rw [joins, setting.followAll_append, ← h.joins]
  · rw [joins, predicates_compile, List.filter_append]
    refine List.rel_append (h.predicates.imp ?_) ?_
    · rintro t p ⟨column, a, n, named, qualified, rest⟩
      exact ⟨column, a, n, named, qualified.mono earlier, rest⟩
    · have added := (List.forall₂_and_left _ _).mpr
        ⟨fun t ht => List.mem_of_mem_filter ht,
          setting.predicates_links final g.children g.connective s.bound⟩
      rw [same]
      refine added.imp ?_
      rintro t p ⟨ht, n, found⟩
      obtain ⟨before, followed⟩ := setting.exists_follow_prefix ht s.joins
      exact setting.emittedAs_of_predicate? closed known followed found

end HoldsTerms

end Scope

namespace Statement

/-- The statement with some queries compiled into its scope, one after another. -/
def compiledAll (s : Statement) (catalog : Catalog) (entity : Entity) (queries : List Group) :
    Statement :=
  queries.foldl (fun s g => s.compiled catalog entity g) s

/-- Queries compiled one after another add their terms. -/
theorem holdsTerms_compiledAll {setting : Setting} (closed : setting.catalog.Closed)
    (known : setting.entity ∈ setting.catalog.entities) (queries : List Group) :
    ∀ {s : Statement} {terms : List Term}, s.scope.HoldsTerms setting terms →
      (s.compiledAll setting.catalog setting.entity queries).scope.HoldsTerms setting
        (terms ++ queries.flatMap Group.terms) := by
  induction queries with
  | nil =>
    intro s terms h
    rw [List.flatMap_nil, List.append_nil]
    exact h
  | cons g queries ih =>
    intro s terms h
    rw [List.flatMap_cons, ← List.append_assoc]
    exact ih (s := s.compiled setting.catalog setting.entity g) (h.compile closed known g)

/-- Compile queries on an entity of an accepted catalog into a new statement, one after another. The
relations that are joined are those that the terms go on after, each once and in the order in which they
are first met. A join is from the root alias to the table of the related entity, by the columns of the
relation. The predicates are, in order, those of the terms whose field is found, each on the column that
the field names, and qualified by the root alias or by the alias of the join of the field's own
relation. -/
theorem compiledAll_joins {entities : List Entity} {catalog : Catalog}
    (made : Catalog.ofEntities entities = .ok catalog) {e : Entity} (known : e ∈ catalog.entities)
    (table rootAlias : String) (queries : List Group) :
    let s := (aliased table rootAlias).compiledAll catalog e queries
    let terms := queries.flatMap Group.terms
    (∀ path r, e.traversed? path = some r ↔ e.Follows path.segments r) ∧
      s.scope.joins.map Join.property = (terms.filterMap fun t => e.traversed? t.field).eraseDups ∧
      (∀ j ∈ s.scope.joins, ∃ r : Traversal, r.IsOf catalog e ∧
        j = ⟨rootAlias, r.property, r.target.table, j.targetAlias, r.relation.localColumn,
          r.relation.foreignColumn⟩) ∧
      List.Forall₂ (fun t p => t.EmittedAs catalog e rootAlias s.scope.joins p)
        (terms.filter (s.scope.resolves catalog e)) (Expr.linkPredicates s.scope.conditions) := by
  intro s terms
  let setting : Setting := ⟨catalog, e, rootAlias⟩
  have closed : setting.catalog.Closed := Catalog.closed_of_ofEntities made
  have holds : s.scope.HoldsTerms setting terms :=
    holdsTerms_compiledAll closed known queries (s := aliased table rootAlias) (.new setting)
  refine ⟨fun path r => Entity.traversed?_eq_some_iff, ?_, fun j hj => ?_, ?_⟩
  · rw [holds.joins]
    exact setting.map_property_followAll closed known terms
  · rw [holds.joins] at hj
    exact setting.exists_traversal_of_mem closed terms hj
  · have found : s.scope.resolves catalog e = fun t => (setting.column? t.field).isSome := by
      funext t
      rw [Scope.resolves_eq, holds.root]
    rw [found]
    exact holds.predicates

/-- Two relations to one table and one back to the root table, met in two queries, the second one first
in a term whose field is not found. -/
theorem compiledAll_joins_towns :
    let users : Entity := ⟨"User", "users", [.make "age" (.scalar .integer),
      .make "home" (.relation ⟨"Town", "home_id", "id"⟩), .make "town" (.relation ⟨"Town", "town_id", "id"⟩),
      .make "boss" (.relation ⟨"User", "boss_id", "id"⟩)], by decide⟩
    let towns : Entity := ⟨"Town", "towns", [.make "size" (.scalar .integer)], by decide⟩
    let catalog : Catalog := ⟨[towns, users]⟩
    let above (path : List String) : Node := .term (.make ⟨path⟩ .gt (.integer 9))
    let queries : List Group := [⟨.or, [above ["home", "size"],
      .group .and [above ["town", "mayor"], above ["age"]]]⟩, ⟨.and, [above ["boss", "age"], above ["town", "size"]]⟩]
    let s := (aliased "users" "users").compiledAll catalog users queries
    Catalog.ofEntities [towns, users] = .ok catalog ∧ users ∈ catalog.entities ∧
      s.scope.joins.map Join.property = ["home", "town", "boss"] ∧
      s.scope.joins.map Join.targetAlias = ["towns", "towns_1", "users_1"] ∧
      (∀ j ∈ s.scope.joins, ∃ r : Traversal, r.IsOf catalog users ∧
        j = ⟨"users", r.property, r.target.table, j.targetAlias, r.relation.localColumn,
          r.relation.foreignColumn⟩) ∧
      (Expr.linkPredicates s.scope.conditions).map Expr.qualifiers =
        [["towns"], ["users"], ["users_1"], ["towns_1"]] := by
  intro users towns catalog above queries s
  have sorted : Catalog.inOrder [towns, users] = [towns, users] :=
    List.mergeSort_of_pairwise (by decide)
  have made : Catalog.ofEntities [towns, users] = .ok catalog := by
    rw [Catalog.ofEntities_eq (by decide), sorted]
    rfl
  have known : users ∈ catalog.entities := by simp [catalog]
  obtain ⟨-, joins, each, -⟩ := compiledAll_joins made known "users" "users" queries
  exact ⟨made, known, joins.trans (by decide), by decide +kernel, each, by decide +kernel⟩

end Statement

end SearchFilter
