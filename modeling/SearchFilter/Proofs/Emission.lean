import SearchFilter.Condition.Compile

/-!
# What a query adds to a scope

A query is compiled term by term, with the joins of the scope and the number of keys given out as
the state. This module says what comes out without that state: which column a path names depends on
the schema alone, the joins are those of the relations that are followed, in order, and the links
are those of the tree, each term with the alias its relation has among the final joins and with the
number of keyed terms before it.
-/

namespace SearchFilter

/-- The parts of a query one after another: each is a term, or holds further parts. -/
@[elab_as_elim]
theorem Node.induction {P : List Node → Prop} (nil : P [])
    (term : ∀ t nodes, P nodes → P (.term t :: nodes))
    (group : ∀ c children nodes, P children → P nodes → P (.group c children :: nodes)) :
    ∀ nodes, P nodes
  | [] => nil
  | .term t :: nodes => term t nodes (Node.induction nil term group nodes)
  | .group c children :: nodes =>
    group c children nodes (Node.induction nil term group children)
      (Node.induction nil term group nodes)

/-! ### Paths -/

/-- A relation that a path follows. -/
structure Traversal where
  /-- The relation. -/
  property : String
  /-- The columns it compares. -/
  relation : RelationTarget
  /-- The entity it leads to. -/
  target : Entity

namespace Traversal

variable (r : Traversal) (rootAlias : String) (joins : List Join)

/-- The join that was registered for the relation. -/
def join? : Option Join := joins.find? fun j => j.follows rootAlias r.property

/-- A join for the relation under a free alias. -/
def join : Join :=
  ⟨rootAlias, r.property, r.target.table, freeAlias rootAlias joins r.target.table,
    r.relation.localColumn, r.relation.foreignColumn⟩

/-- The joins after the relation was followed. It is joined once. -/
def follow : List Join :=
  match r.join? rootAlias joins with
  | some _ => joins
  | none => joins ++ [r.join rootAlias joins]

/-- The alias of the related table. -/
def aliasIn : String := ((r.join? rootAlias joins).map Join.targetAlias).getD ""

theorem join_follows : (r.join rootAlias joins).follows rootAlias r.property = true := by
  simp only [join, Join.follows, decide_true, Bool.and_self]

/-- A relation that was followed has its join. -/
theorem exists_join?_follow : ∃ j, r.join? rootAlias (r.follow rootAlias joins) = some j := by
  unfold follow
  cases h : r.join? rootAlias joins with
  | some j => exact ⟨j, h⟩
  | none =>
    refine ⟨r.join rootAlias joins, ?_⟩
    rw [join?] at h ⊢
    rw [List.find?_append, h, List.find?_singleton, join_follows]
    rfl

theorem prefix_follow : joins <+: r.follow rootAlias joins := by
  unfold follow
  split
  · exact List.prefix_rfl
  · exact List.prefix_append _ _

end Traversal

/-- A column that can be compared with a value. -/
def Column.plain? (c : Column) : Option Column := if c.isRelation then none else some c

/-- The name of the relation that a path follows: its first one, if that is a relation of the entity and
more names come after it. -/
def Entity.traversed? (e : Entity) (path : FieldPath) : Option String :=
  match path.segments with
  | r :: _ :: _ => if (e.column? r).any Column.isRelation then some r else none
  | _ => none

namespace Setting

variable (setting : Setting)

/-- The relation that a path follows: its first name is a relation and more names come after it. -/
def traversal? (path : FieldPath) : Option Traversal :=
  match path.rest with
  | [] => none
  | _ :: _ =>
    (path.head?.bind setting.entity.column?).bind fun column =>
      column.target?.bind fun relation =>
        (setting.catalog.entity? relation.entity).map fun target =>
          ⟨column.property, relation, target⟩

/-- The column that a path names: one of the entity's own, or one of the entity that a relation leads
to. -/
def column? (path : FieldPath) : Option Column :=
  match path.rest with
  | [] => (path.head?.bind setting.entity.column?).bind Column.plain?
  | [name] => (setting.traversal? path).bind fun r => (r.target.column? name).bind Column.plain?
  | _ => none

/-- The joins after a path was followed. -/
def follow (joins : List Join) (path : FieldPath) : List Join :=
  match setting.traversal? path with
  | none => joins
  | some r => r.follow setting.tableAlias joins

/-- The alias that the column of a path is found under, among some joins. -/
def aliasIn (joins : List Join) (path : FieldPath) : String :=
  match setting.traversal? path with
  | none => setting.tableAlias
  | some r => r.aliasIn setting.tableAlias joins

end Setting

namespace Scope

variable (s : Scope) (setting : Setting)

/-- Following a relation changes nothing but the joins. -/
theorem follow_scope (r : Traversal) (rootAlias : String) :
    (s.follow rootAlias rootAlias r.property r.relation r.target).2.1 =
      { s with joins := r.follow rootAlias s.joins } := by
  unfold Scope.follow Scope.register Scope.join? Traversal.follow Traversal.join?
  cases h : s.joins.find? fun j => j.follows rootAlias r.property with
  | some j => rfl
  | none =>
    simp only [h]
    rfl

/-- Following a relation gives the alias that its join has afterwards. -/
theorem follow_alias (r : Traversal) (rootAlias : String) :
    (s.follow rootAlias rootAlias r.property r.relation r.target).1 =
      r.aliasIn rootAlias (r.follow rootAlias s.joins) := by
  obtain ⟨j, hj⟩ := r.exists_join?_follow rootAlias s.joins
  rw [Traversal.aliasIn, hj]
  unfold Scope.follow Scope.join?
  unfold Traversal.follow Traversal.join? at hj
  cases h : s.joins.find? fun j => j.follows rootAlias r.property with
  | some k =>
    simp only [h, Option.some.injEq] at hj
    rw [hj]
    rfl
  | none =>
    simp only [h, List.find?_append, List.find?_singleton, r.join_follows, if_true,
      Option.none_or, Option.some.injEq] at hj
    rw [← hj]
    rfl

/-- Looking up a path changes nothing but the joins, and finds the column that the path names under
the alias that its relation has afterwards. If the path names none, it matters whether it follows a
relation. -/
theorem resolve_outcome (path : FieldPath) :
    let found := s.resolve setting.catalog setting.entity setting.tableAlias path
    found.2.1 = { s with joins := setting.follow s.joins path } ∧
      found.1 = match setting.column? path with
        | some column => .resolved (setting.aliasIn (setting.follow s.joins path) path) column
        | none =>
          if (setting.entity.traversed? path).isSome then .unknownRelatedField else .unknownField := by
  obtain ⟨segments⟩ := path
  unfold Scope.resolve Setting.column? Setting.aliasIn Setting.follow Setting.traversal? Entity.traversed?
  rcases segments with _ | ⟨first, rest⟩
  · exact ⟨rfl, rfl⟩
  simp only [FieldPath.head?, FieldPath.rest, List.head?_cons, List.drop_succ_cons, List.drop_zero,
    Option.bind_some]
  cases hc : setting.entity.column? first with
  | none => rcases rest with _ | ⟨name, _ | ⟨next, more⟩⟩ <;> simp [hc]
  | some column =>
    cases ht : column.target? with
    | none =>
      have plain : column.isRelation = false := by simp [Column.isRelation, ht]
      rcases rest with _ | ⟨name, _ | ⟨next, more⟩⟩ <;> simp [hc, ht, plain, Column.plain?]
    | some relation =>
      have related : column.isRelation = true := by simp [Column.isRelation, ht]
      rcases rest with _ | ⟨name, more⟩
      · simp [ht, related, Column.plain?]
      cases he : setting.catalog.entity? relation.entity with
      | none => rcases more with _ | ⟨next, more⟩ <;> simp [hc, ht, he, related]
      | some target =>
        have scope := s.follow_scope ⟨column.property, relation, target⟩ setting.tableAlias
        have found := s.follow_alias ⟨column.property, relation, target⟩ setting.tableAlias
        rcases more with _ | ⟨next, more⟩
        · cases hn : target.column? name with
          | none => simp [hc, ht, he, hn, scope, related]
          | some sub =>
            cases hs : sub.isRelation <;>
              simp [hc, ht, he, hn, hs, scope, found, related, Column.plain?]
        · simp [hc, ht, he, scope, related]

/-- Looking up a path finds the column that the path names, and nothing if it names none. -/
theorem resolve_spec (path : FieldPath) :
    let found := s.resolve setting.catalog setting.entity setting.tableAlias path
    found.2.1 = { s with joins := setting.follow s.joins path } ∧
      match setting.column? path with
      | some column =>
        found.1 = .resolved (setting.aliasIn (setting.follow s.joins path) path) column
      | none => found.1 = .unknownField ∨ found.1 = .unknownRelatedField := by
  intro found
  obtain ⟨scope, outcome⟩ := s.resolve_outcome setting path
  refine ⟨scope, ?_⟩
  revert outcome
  cases setting.column? path with
  | some column => exact fun outcome => outcome
  | none =>
    cases (setting.entity.traversed? path).isSome with
    | true => exact .inr
    | false => exact .inl

end Scope

/-! ### Predicates -/

/-- The conditions that terms on the columns of a table are turned into. -/
inductive Expr.PredicateOn (table : String) : Expr → Prop where
  /-- A comparison of a column with a value. -/
  | compare (column : String) (op : Operator) (b : Binding) :
    PredicateOn table (.compare (.columnOf table column) op (.param b))
  /-- A search for a text in a column, whatever the case of letters. -/
  | like (column : String) (b : Binding) :
    PredicateOn table (.like (lowered (.columnOf table column)) (lowered (.param b)))
  /-- A test for a missing value, or for a present one. -/
  | isNull (column : String) (negated : Bool) :
    PredicateOn table (.isNull (.columnOf table column) negated)
  /-- A search for an element of an array. -/
  | arrayContains (column : String) (b : Binding) :
    PredicateOn table (.arrayContains (.columnOf table column) (.param b))
  /-- A search for a value in a JSON array. -/
  | jsonContains (column : String) (b : Binding) :
    PredicateOn table (.jsonContains (.columnOf table column) (.param b))
  /-- The opposite of one. -/
  | not {e : Expr} : PredicateOn table e → PredicateOn table (.not e)

/-- The condition of a term is such a predicate. -/
theorem predicateOn_predicate (t : Term) (tableAlias column : String) (category : Category)
    (n : Nat) : (t.predicate tableAlias column category n).PredicateOn tableAlias := by
  have compared : ∀ key v, (comparison (.columnOf tableAlias column) category t.comparator key
      v).PredicateOn tableAlias := by
    intro key v
    unfold comparison
    split
    · exact .like ..
    · exact .arrayContains ..
    · exact .jsonContains ..
    · exact .compare ..
  unfold Term.predicate
  split
  · exact .isNull ..
  · dsimp only
    split
    · exact .not (compared _ _)
    · exact compared _ _

/-- A predicate is no chain. -/
theorem Expr.PredicateOn.ne_chain {table : String} {e : Expr} (h : e.PredicateOn table)
    (links : List Link) : e ≠ .chain links := by
  cases h <;> exact nofun

/-- The value that a term binds when it is compared with a column of some category. -/
def Term.boundValue (t : Term) (category : Category) : Value :=
  match category, t.comparator with
  | .scalar .text, .eq => containsPattern (.ofLiteral t.value)
  | .jsonArray, .eq => .string (Value.ofLiteral t.value).toJson.compact
  | _, _ => .ofLiteral t.value

/-- A comparison binds one value, under the key it is given. -/
theorem bindings_comparison (t : Term) (tableAlias column : String) (category : Category)
    (key : String) :
    (comparison (.columnOf tableAlias column) category t.comparator key
      (.ofLiteral t.value)).bindings = [⟨key, t.boundValue category⟩] := by
  unfold comparison Term.boundValue
  split <;> simp [Expr.bindings, Expr.argBindings, Expr.columnOf, lowered, *]

/-- The condition of a term binds one value under the next key, or nothing if the term has none. -/
theorem bindings_predicate (t : Term) (tableAlias column : String) (category : Category) (n : Nat) :
    (t.predicate tableAlias column category n).bindings =
      if t.value.isNull then [] else [⟨parameterKey (n + 1), t.boundValue category⟩] := by
  unfold Term.predicate
  split
  · rfl
  · split
    · rw [Expr.bindings, bindings_comparison]
    · exact bindings_comparison ..

namespace Setting

variable (setting : Setting)

/-- The terms that bind a value, with their columns: those that have one and whose field is found. -/
def keyed (terms : List Term) : List (Term × Column) :=
  terms.filterMap fun t =>
    if t.value.isNull then none else (setting.column? t.field).map fun column => (t, column)

theorem keyed_append (xs ys : List Term) :
    setting.keyed (xs ++ ys) = setting.keyed xs ++ setting.keyed ys :=
  List.filterMap_append

/-- How many keys some terms take. -/
def keyCount (terms : List Term) : Nat := (setting.keyed terms).length

theorem keyCount_append (xs ys : List Term) :
    setting.keyCount (xs ++ ys) = setting.keyCount xs + setting.keyCount ys := by
  rw [keyCount, keyed_append, List.length_append]
  rfl

/-- The joins after the fields of some terms were looked up. -/
def followAll (joins : List Join) (terms : List Term) : List Join :=
  terms.foldl (fun joins t => setting.follow joins t.field) joins

theorem followAll_append (joins : List Join) (xs ys : List Term) :
    setting.followAll joins (xs ++ ys) = setting.followAll (setting.followAll joins xs) ys :=
  List.foldl_append

theorem prefix_follow (joins : List Join) (path : FieldPath) : joins <+: setting.follow joins path := by
  unfold follow
  split
  · exact List.prefix_rfl
  · exact Traversal.prefix_follow ..

theorem prefix_followAll (joins : List Join) (terms : List Term) :
    joins <+: setting.followAll joins terms := by
  induction terms generalizing joins with
  | nil => exact List.prefix_rfl
  | cons t terms ih => exact (setting.prefix_follow joins t.field).trans (ih _)

/-- Later joins do not change the alias of a path that was followed. -/
theorem aliasIn_follow {joins final : List Join} {path : FieldPath}
    (h : setting.follow joins path <+: final) :
    setting.aliasIn (setting.follow joins path) path = setting.aliasIn final path := by
  unfold aliasIn
  unfold follow at h ⊢
  cases hr : setting.traversal? path with
  | none => rfl
  | some r =>
    simp only [hr] at h ⊢
    obtain ⟨j, hj⟩ := r.exists_join?_follow setting.tableAlias joins
    have hf : r.join? setting.tableAlias final = some j := h.find?_eq_some hj
    rw [Traversal.aliasIn, Traversal.aliasIn, hj, hf]

/-! ### Links -/

/-- The condition of a term, if its field is found, when so many keys have been given out. -/
def predicate? (joins : List Join) (t : Term) (n : Nat) : Option Expr :=
  (setting.column? t.field).map fun column =>
    t.predicate (setting.aliasIn joins t.field) column.physical column.category n

variable (joins : List Join)

theorem predicate?_ne_chain {t : Term} {n : Nat} {e : Expr}
    (h : setting.predicate? joins t n = some e) (links : List Link) : e ≠ .chain links := by
  obtain ⟨column, -, rfl⟩ := Option.map_eq_some_iff.mp h
  exact (predicateOn_predicate ..).ne_chain links

mutual

/-- The link of one part of a query; a term whose field is not found has none. -/
def nodeLinks : Connective → Node → Nat → List Link
  | c, .term t, n => ((setting.predicate? joins t n).map (Link.mk c)).toList
  | c, .group inner children, n => [⟨c, .chain (links inner children n)⟩]

/-- The links of parts of a query that are attached by one connective. -/
def links : Connective → List Node → Nat → List Link
  | _, [], _ => []
  | c, node :: nodes, n => nodeLinks c node n ++ links c nodes (n + setting.keyCount node.terms)

end

end Setting

/-! ### Compilations -/

namespace Compilation

variable (setting : Setting)

/-- What a term adds. -/
theorem addTerm_spec (connective : Connective) (t : Term) (c : Compilation) {final : List Join}
    (h : setting.follow c.scope.joins t.field <+: final) :
    (c.addTerm setting connective t).scope =
      ⟨c.scope.rootAlias,
        c.scope.conditions ++ setting.nodeLinks final connective (.term t) c.issued,
        setting.follow c.scope.joins t.field, c.scope.bound + setting.keyCount [t]⟩ ∧
      (c.addTerm setting connective t).issued = c.issued + setting.keyCount [t] := by
  have spec := c.scope.resolve_spec setting t.field
  unfold addTerm Setting.nodeLinks Setting.predicate? Setting.keyCount Setting.keyed
  rw [← setting.aliasIn_follow h]
  revert spec
  rcases c.scope.resolve setting.catalog setting.entity setting.tableAlias t.field with
    ⟨resolution, scope, notices⟩
  rintro ⟨rfl, found⟩
  cases hc : setting.column? t.field with
  | none =>
    rw [hc] at found
    rcases found with found | found <;> subst found <;> simp [hc]
  | some column =>
    rw [hc] at found
    simp only at found
    subst found
    cases hn : t.value.isNull <;>
      simp [hc, hn, Scope.attach, bindings_predicate, Term.keyCount]

/-- What parts of a query add, whatever joins are registered after them. -/
theorem addNodes_spec (nodes : List Node) : ∀ (connective : Connective) (c : Compilation)
    (final : List Join), setting.followAll c.scope.joins (Node.allTerms nodes) <+: final →
    (addNodes setting connective nodes c).scope =
      ⟨c.scope.rootAlias, c.scope.conditions ++ setting.links final connective nodes c.issued,
        setting.followAll c.scope.joins (Node.allTerms nodes),
        c.scope.bound + setting.keyCount (Node.allTerms nodes)⟩ ∧
      (addNodes setting connective nodes c).issued =
        c.issued + setting.keyCount (Node.allTerms nodes) := by
  induction nodes using Node.induction with
  | nil =>
    intro connective c final _
    simp only [addNodes, Node.allTerms, Setting.links, List.append_nil]
    exact ⟨rfl, rfl⟩
  | term t nodes ih =>
    intro connective c final h
    rw [Node.allTerms, Node.terms, setting.followAll_append] at h
    have step := (setting.prefix_followAll _ _).trans h
    obtain ⟨hs, hi⟩ := addTerm_spec setting connective t c step
    obtain ⟨hs', hi'⟩ := ih connective (c.addTerm setting connective t) final
      (by rw [hs]; exact h)
    rw [addNodes, addNode, hs', hi', hs, hi]
    simp only [Node.allTerms, Node.terms, Setting.links, setting.followAll_append,
      setting.keyCount_append, List.append_assoc, Nat.add_assoc, and_true]
    rfl
  | group inner children nodes ihChildren ih =>
    intro connective c final h
    rw [Node.allTerms, Node.terms, setting.followAll_append] at h
    have step := (setting.prefix_followAll _ _).trans h
    obtain ⟨hs, hi⟩ := ihChildren inner c.enter final step
    obtain ⟨hs', hi'⟩ := ih connective (c.leave connective (addNodes setting inner children c.enter))
      final (by rw [leave, Scope.leave, hs]; exact h)
    rw [addNodes, addNode, hs', hi']
    simp only [leave, Scope.leave, enter, Scope.enter] at hs hi ⊢
    rw [hs, hi]
    simp only [Node.allTerms, Node.terms, Setting.links, Setting.nodeLinks, setting.followAll_append,
      setting.keyCount_append, List.append_assoc, Nat.add_assoc, and_self, List.nil_append]

end Compilation

/-- What a query adds to a scope: its links if the scope has no conditions, otherwise one condition
that holds them. -/
theorem Scope.compile_spec (s : Scope) (catalog : Catalog) (entity : Entity) (g : Group) :
    let setting : Setting := ⟨catalog, entity, s.rootAlias⟩
    let joins := setting.followAll s.joins g.terms
    let links := setting.links joins g.connective g.children s.bound
    (s.compile catalog entity g).1 =
      ⟨s.rootAlias, if s.isEmpty then links else s.conditions ++ [⟨.and, .chain links⟩], joins,
        s.bound + setting.keyCount g.terms⟩ := by
  intro setting joins links
  unfold Scope.compile
  cases hs : s.isEmpty with
  | true =>
    have hc : s.conditions = [] := List.isEmpty_iff.mp hs
    obtain ⟨h, -⟩ := Compilation.addNodes_spec setting g.children g.connective ⟨s, s.bound, []⟩
      joins (List.prefix_refl joins)
    show (Compilation.addNodes setting g.connective g.children ⟨s, s.bound, []⟩).scope = _
    rw [h, hc]
    rfl
  | false =>
    obtain ⟨h, -⟩ := Compilation.addNodes_spec setting g.children g.connective
      (Compilation.enter ⟨s, s.bound, []⟩) joins (List.prefix_refl joins)
    show s.leave .and (Compilation.addNodes setting g.connective g.children
      (Compilation.enter ⟨s, s.bound, []⟩)).scope = _
    rw [h]
    rfl

end SearchFilter
