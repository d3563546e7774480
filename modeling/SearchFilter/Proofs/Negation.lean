import SearchFilter.Proofs.Joins
import SearchFilter.Proofs.Nesting

/-!
# Negation is local

A query with one of its terms negated gives the same statement but for the predicate of this one term.
A query and the conditions made from it are both trees, so an occurrence is a place in one of them that
something was put in (`Node.Hole`, `Link.Hole`). Around a place in a query, the links depend on the term
there only through its field and through whether it has a value (`links_fill`). Neither changes when the
term is negated, so the same place in the conditions is filled with another predicate.
-/

namespace SearchFilter

/-! ### Places in queries -/

/-- A place for a term among the parts of a query. -/
inductive Node.Hole where
  /-- Between these parts. -/
  | here (before after : List Node)
  /-- Within a group that stands between these parts. -/
  | inside (before : List Node) (connective : Connective) (hole : Hole) (after : List Node)

namespace Node.Hole

/-- The parts with a term at the place. -/
def fill (t : Term) : Hole → List Node
  | here before after => before ++ .term t :: after
  | inside before c hole after => before ++ .group c (hole.fill t) :: after

/-- The terms before the place. -/
def before : Hole → List Term
  | here before _ => Node.allTerms before
  | inside before _ hole _ => Node.allTerms before ++ hole.before

/-- The terms after the place. -/
def after : Hole → List Term
  | here _ after => Node.allTerms after
  | inside _ _ hole after => hole.after ++ Node.allTerms after

end Node.Hole

theorem Node.allTerms_fill (t : Term) (hole : Node.Hole) :
    Node.allTerms (hole.fill t) = hole.before ++ t :: hole.after := by
  induction hole with
  | here before after =>
    rw [Hole.fill, Node.allTerms_append, allTerms]
    rfl
  | inside before c hole after ih =>
    rw [Hole.fill, Node.allTerms_append, allTerms, terms, ih, Hole.before, Hole.after, List.append_assoc,
      List.append_assoc]
    rfl

namespace Node.Hole

/-- The place with one more part in front. -/
def behind (node : Node) : Hole → Hole
  | here before after => here (node :: before) after
  | inside before c hole after => inside (node :: before) c hole after

theorem fill_behind (node : Node) (hole : Hole) (t : Term) :
    (hole.behind node).fill t = node :: hole.fill t := by
  cases hole <;> rfl

theorem before_behind (node : Node) (hole : Hole) :
    (hole.behind node).before = node.terms ++ hole.before := by
  cases hole with
  | here before after => rfl
  | inside before c hole after => exact List.append_assoc ..

end Node.Hole

/-- Each term of a query stands at a place, after the terms before it. -/
theorem Node.exists_fill_eq {t : Term} {after : List Term} (nodes : List Node) : ∀ {before : List Term},
    Node.allTerms nodes = before ++ t :: after →
      ∃ hole : Node.Hole, hole.fill t = nodes ∧ hole.before = before := by
  induction nodes using Node.induction generalizing after with
  | nil =>
    intro before h
    exact absurd h.symm (List.append_ne_nil_of_right_ne_nil _ (List.cons_ne_nil _ _))
  | term u nodes ih =>
    intro before h
    rw [allTerms, terms, List.singleton_append] at h
    rcases before with _ | ⟨first, before⟩
    · obtain ⟨rfl, -⟩ := List.cons.inj h
      exact ⟨.here [] nodes, rfl, rfl⟩
    · obtain ⟨rfl, rest⟩ := List.cons.inj h
      obtain ⟨hole, rfl, rfl⟩ := ih rest
      exact ⟨hole.behind (.term u), hole.fill_behind .., hole.before_behind ..⟩
  | group c children nodes ihChildren ih =>
    intro before h
    have later {before : List Term} (rest : Node.allTerms nodes = before ++ t :: after) :
        ∃ hole : Node.Hole, hole.fill t = .group c children :: nodes ∧
          hole.before = Node.allTerms children ++ before := by
      obtain ⟨hole, rfl, rfl⟩ := ih rest
      exact ⟨hole.behind (.group c children), hole.fill_behind .., hole.before_behind ..⟩
    rw [allTerms, terms] at h
    -- the term stands in the group, unless all terms of the group come before it
    rcases List.append_eq_append_iff.mp h with ⟨between, rfl, rest⟩ | ⟨between, children_eq, rest⟩
    · exact later rest
    · rcases between with _ | ⟨first, between⟩
      · rw [List.append_nil] at children_eq
        obtain ⟨hole, filled, before_eq⟩ := later (rest.symm.trans (List.nil_append _).symm)
        exact ⟨hole, filled, by rw [before_eq, children_eq, List.append_nil]⟩
      · obtain ⟨rfl, -⟩ := List.cons.inj rest
        obtain ⟨hole, rfl, rfl⟩ := ihChildren children_eq
        exact ⟨.inside [] c hole nodes, rfl, rfl⟩

/-- The place of a term that is known by its number. -/
theorem Group.exists_fill_eq (g : Group) (i : Fin g.terms.length) :
    ∃ hole : Node.Hole, hole.fill g.terms[i] = g.children ∧ hole.before = g.terms.take i := by
  have split : g.terms = g.terms.take i ++ g.terms[i.val] :: g.terms.drop (i + 1) := by
    rw [List.getElem_cons_drop, List.take_append_drop]
  exact Node.exists_fill_eq g.children split

/-! ### Places in conditions -/

/-- A place for a predicate among links. -/
inductive Link.Hole where
  /-- Between these links, attached by a connective. -/
  | here (before : List Link) (connective : Connective) (after : List Link)
  /-- Within a chain that stands between these links. -/
  | inside (before : List Link) (connective : Connective) (hole : Hole) (after : List Link)

namespace Link.Hole

/-- The links with a predicate at the place, or with none. -/
def fill (e : Option Expr) : Hole → List Link
  | here before c after => before ++ (e.map (Link.mk c)).toList ++ after
  | inside before c hole after => before ++ ⟨c, .chain (hole.fill e)⟩ :: after

/-- The predicates before the place. -/
def before : Hole → List Expr
  | here before _ _ => Expr.linkPredicates before
  | inside before _ hole _ => Expr.linkPredicates before ++ hole.before

/-- What is bound depends on what the predicate at the place binds. -/
theorem linkBindings_fill {e e' : Expr} (same : e.bindings = e'.bindings) (hole : Hole) :
    Expr.linkBindings (hole.fill e) = Expr.linkBindings (hole.fill e') := by
  induction hole with
  | here before c after =>
    simp only [fill, Option.map_some, Option.toList_some, Expr.linkBindings_append, Expr.linkBindings,
      same]
  | inside before c hole after ih =>
    simp only [fill, Expr.linkBindings_append, Expr.linkBindings, Expr.bindings, ih]

end Link.Hole

/-! ### From one to the other -/

/-- Terms on one field that both have a value, or both have none. -/
structure Term.Alike (t u : Term) : Prop where
  /-- They are about one field. -/
  field : u.field = t.field
  /-- If one has a value, so does the other. -/
  isNull : u.value.isNull = t.value.isNull

theorem Term.Alike.refl (t : Term) : t.Alike t := ⟨rfl, rfl⟩

theorem Term.alike_negate (t : Term) : t.Alike t.negate := ⟨rfl, rfl⟩

namespace Setting

variable (setting : Setting) (joins : List Join) {t u : Term}

theorem links_append (c : Connective) (xs ys : List Node) (n : Nat) :
    setting.links joins c (xs ++ ys) n =
      setting.links joins c xs n ++ setting.links joins c ys (n + setting.keyCount (Node.allTerms xs)) := by
  induction xs generalizing n with
  | nil => rfl
  | cons node xs ih =>
    rw [List.cons_append, links, links, ih, Node.allTerms, keyCount_append, List.append_assoc,
      Nat.add_assoc]

theorem followAll_alike (h : t.Alike u) (before after : List Term) :
    setting.followAll joins (before ++ u :: after) = setting.followAll joins (before ++ t :: after) := by
  simp only [followAll, List.foldl_append, List.foldl_cons, h.field]

theorem keyCount_alike (h : t.Alike u) (before after : List Term) :
    setting.keyCount (before ++ u :: after) = setting.keyCount (before ++ t :: after) := by
  have single : setting.keyCount [u] = setting.keyCount [t] := by
    simp only [keyCount, keyed, List.filterMap_cons, List.filterMap_nil, h.field, h.isNull]
    cases t.value.isNull <;> cases setting.column? t.field <;> rfl
  rw [List.append_cons, List.append_cons before t, keyCount_append, keyCount_append, keyCount_append,
    keyCount_append, single]

theorem predicate?_alike (h : t.Alike u) (n : Nat) :
    setting.predicate? joins u n = (setting.column? t.field).map fun column =>
      u.predicate (setting.aliasIn joins t.field) column.physical column.category n := by
  rw [predicate?, h.field]

theorem length_linkPredicates (c : Connective) (nodes : List Node) (n : Nat) :
    (Expr.linkPredicates (setting.links joins c nodes n)).length =
      ((Node.allTerms nodes).filter fun t => (setting.column? t.field).isSome).length :=
  (setting.predicates_links joins nodes c n).length_eq.symm

/-- To a place in a query there is one in its links, after the predicates of the terms before it. It is
filled with the predicate of the term, and everything around it is the same for all terms on one field
that have a value, and for all that have none. -/
theorem links_fill (t : Term) (hole : Node.Hole) : ∀ c n, ∃ place : Link.Hole,
    place.before.length = (hole.before.filter fun t => (setting.column? t.field).isSome).length ∧
      ∀ u, t.Alike u → setting.links joins c (hole.fill u) n =
        place.fill (setting.predicate? joins u (n + setting.keyCount hole.before)) := by
  induction hole with
  | here before after =>
    intro c n
    refine ⟨.here (setting.links joins c before n) c (setting.links joins c after
      (n + setting.keyCount (Node.allTerms before ++ [t]))), setting.length_linkPredicates .., ?_⟩
    intro u h
    rw [Node.Hole.fill, List.append_cons, links_append, links_append, Node.allTerms_append, Node.allTerms,
      Node.allTerms, Node.terms, List.append_nil, setting.keyCount_alike h]
    rw [links, links, nodeLinks, List.append_nil]
    rfl
  | inside before inner hole after ih =>
    intro c n
    obtain ⟨place, length, filled⟩ := ih inner (n + setting.keyCount (Node.allTerms before))
    refine ⟨.inside (setting.links joins c before n) c place (setting.links joins c after
      (n + setting.keyCount (Node.allTerms before) +
        setting.keyCount (hole.before ++ t :: hole.after))), ?_, ?_⟩
    · rw [Link.Hole.before, Node.Hole.before, List.length_append, List.filter_append, List.length_append,
        length, setting.length_linkPredicates]
    · intro u h
      rw [Node.Hole.fill, links_append, links, nodeLinks, Node.terms, Node.allTerms_fill,
        setting.keyCount_alike h, filled u h, Node.Hole.before,
        setting.keyCount_append (Node.allTerms before), ← Nat.add_assoc]
      rfl

end Setting

namespace Scope

variable (s : Scope) (catalog : Catalog) (entity : Entity)

/-- To a place in a query there is one in the conditions of the scope that it is compiled into. It is
filled with the predicate of the term, and all else is the same for terms that are alike. -/
theorem compile_fill (c : Connective) (t : Term) (hole : Node.Hole) :
    let setting : Setting := ⟨catalog, entity, s.rootAlias⟩
    let joins := setting.followAll s.joins (Node.allTerms (hole.fill t))
    ∃ place : Link.Hole,
      place.before.length = (Expr.linkPredicates s.conditions).length +
        (hole.before.filter (s.resolves catalog entity)).length ∧
      ∀ u, t.Alike u → (s.compile catalog entity ⟨c, hole.fill u⟩).1 =
        { (s.compile catalog entity ⟨c, hole.fill t⟩).1 with
          conditions := place.fill
            (setting.predicate? joins u (s.bound + setting.keyCount hole.before)) } := by
  intro setting joins
  obtain ⟨place, length, filled⟩ := setting.links_fill joins t hole c s.bound
  have found : s.resolves catalog entity = fun t => (setting.column? t.field).isSome :=
    funext (s.resolves_eq catalog entity)
  have spec (u : Term) (h : t.Alike u) : (s.compile catalog entity ⟨c, hole.fill u⟩).1 =
      { (s.compile catalog entity ⟨c, hole.fill t⟩).1 with
        conditions := if s.isEmpty then setting.links joins c (hole.fill u) s.bound
          else s.conditions ++ [⟨.and, .chain (setting.links joins c (hole.fill u) s.bound)⟩] } := by
    have followed : setting.followAll s.joins (Node.allTerms (hole.fill u)) = joins := by
      simp only [joins, Node.allTerms_fill, setting.followAll_alike s.joins h]
    have count : setting.keyCount (Node.allTerms (hole.fill u)) =
        setting.keyCount (Node.allTerms (hole.fill t)) := by
      simp only [Node.allTerms_fill, setting.keyCount_alike h]
    rw [compile_spec, compile_spec, Group.terms, followed, count]
    rfl
  cases hs : s.isEmpty with
  | true =>
    have empty : s.conditions = [] := List.isEmpty_iff.mp hs
    refine ⟨place, ?_, fun u h => ?_⟩
    · rw [found, empty, length]
      exact (Nat.zero_add _).symm
    · rw [spec u h, hs, filled u h]
      rfl
  | false =>
    -- the query is one more condition, so its places are one level deeper
    refine ⟨.inside s.conditions .and place [], ?_, fun u h => ?_⟩
    · rw [found, Link.Hole.before, List.length_append, length]
    · rw [spec u h, hs, filled u h]
      rfl

/-- After a query was compiled, the fields of its terms are found under the aliases that they were
found under. -/
theorem resolve_compile (g : Group) {t : Term} (ht : t ∈ g.terms) :
    let setting : Setting := ⟨catalog, entity, s.rootAlias⟩
    ((s.compile catalog entity g).1.resolve catalog entity s.rootAlias t.field).1 =
      match setting.column? t.field with
      | some column => .resolved (setting.aliasIn (setting.followAll s.joins g.terms) t.field) column
      | none => if (entity.traversed? t.field).isSome then .unknownRelatedField else .unknownField := by
  intro setting
  let joins := setting.followAll s.joins g.terms
  have registered : (s.compile catalog entity g).1.joins = joins :=
    congrArg Scope.joins (s.compile_spec catalog entity g)
  obtain ⟨before, followed⟩ := setting.exists_follow_prefix ht s.joins
  -- the field was looked up among fewer joins, and is looked up again among all of them
  have again := followed.trans (setting.prefix_follow joins t.field)
  have aliased : setting.aliasIn (setting.follow joins t.field) t.field = setting.aliasIn joins t.field :=
    (setting.aliasIn_follow again).symm.trans (setting.aliasIn_follow followed)
  have outcome := ((s.compile catalog entity g).1.resolve_outcome setting t.field).2
  rw [registered, aliased] at outcome
  exact outcome

end Scope

namespace Statement

/-- Negate one term of a query, which stands after the first `i` terms. If its field is found, then the
conditions that the query is compiled to have a place for its predicate, after those of the statement and
those of the terms before it, and just what stands there is another: a test for a missing value becomes
one for a present value or the other way round, and any other comparison gains or loses a negation, with
the key and the value it had. All else in the statement is the same, what is bound included. If the field
is not found, the statements are equal. -/
theorem negation_is_local (s : Statement) (catalog : Catalog) (entity : Entity) (g : Group)
    (i : Fin g.terms.length) :
    let t := g.terms[i]
    let earlier := g.terms.take i
    let done := s.compiled catalog entity g
    ∃ hole : Node.Hole, hole.fill t = g.children ∧ hole.before = earlier ∧
      let flipped := s.compiled catalog entity ⟨g.connective, hole.fill t.negate⟩
      match (done.scope.resolve catalog entity s.rootAlias t.field).1 with
      | .resolved tableAlias column =>
        let subject := Expr.columnOf tableAlias column.physical
        let key := parameterKey (s.scope.bound + (s.scope.boundTerms catalog entity earlier).length + 1)
        let base := comparison subject column.category t.comparator key (.ofLiteral t.value)
        let leaf (negated : Bool) : Expr :=
          if t.value.isNull then .isNull subject negated else if negated then .not base else base
        ∃ place : Link.Hole,
          place.before.length = (Expr.linkPredicates s.scope.conditions).length +
            (earlier.filter (s.scope.resolves catalog entity)).length ∧
          done.scope.conditions = place.fill (leaf t.negated) ∧
          flipped = { done with scope := { done.scope with conditions := place.fill (leaf !t.negated) } } ∧
          flipped.scope.bindings = done.scope.bindings
      | _ => flipped = done := by
  intro t earlier done
  obtain ⟨hole, filled, before⟩ := g.exists_fill_eq i
  refine ⟨hole, filled, before, ?_⟩
  intro flipped
  let setting : Setting := ⟨catalog, entity, s.scope.rootAlias⟩
  let joins := setting.followAll s.scope.joins g.terms
  let n := s.scope.bound + (s.scope.boundTerms catalog entity earlier).length
  obtain ⟨place, length, compile⟩ := s.scope.compile_fill catalog entity g.connective t hole
  rw [before] at length
  rw [filled, before, Setting.keyCount, ← s.scope.boundTerms_eq] at compile
  have conditions : done.scope.conditions = place.fill (setting.predicate? joins t n) := by
    have spec := congrArg Scope.conditions (compile t (.refl t))
    rw [filled] at spec
    exact spec
  have changed : flipped = { done with scope := { done.scope with
      conditions := place.fill (setting.predicate? joins t.negate n) } } :=
    congrArg (fun scope => { s with scope }) (compile t.negate t.alike_negate)
  have outcome : (done.scope.resolve catalog entity s.rootAlias t.field).1 = _ :=
    s.scope.resolve_compile catalog entity g (List.getElem_mem i.isLt)
  rw [setting.predicate?_alike joins (.refl t)] at conditions
  rw [setting.predicate?_alike joins t.alike_negate] at changed
  rw [outcome]
  cases found : setting.column? t.field with
  | none =>
    rw [found, Option.map_none] at conditions changed
    have same : flipped = done := by rw [changed, ← conditions]
    cases (entity.traversed? t.field).isSome <;> exact same
  | some column =>
    rw [found, Option.map_some] at conditions changed
    refine ⟨place, length, conditions, changed, ?_⟩
    show Expr.linkBindings flipped.scope.conditions = Expr.linkBindings done.scope.conditions
    rw [changed, conditions]
    refine place.linkBindings_fill ?_
    rw [bindings_predicate, bindings_predicate]
    rfl

end Statement

end SearchFilter
