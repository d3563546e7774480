import Mathlib.Data.List.Forall2
import SearchFilter.Proofs.Keys
import SearchFilter.Proofs.Precedence
import SearchFilter.Proofs.TreeMeaning

/-!
# Filters one after another are a conjunction

Filters that are applied one after another leave a statement as one filter does whose text is the
conjunction of theirs, each in parentheses: the same joins, the same values under the same keys, and
conditions with the same value. The two conditions are built differently. Of filters in a row the
first is spliced into the scope and each later one becomes a nested condition; the one text is read as
a group of groups, in which a lone operand stands for itself. What they have in common is that the
scope holds the conjunction of the same parts of queries, in the same order (`Scope.Holds`).
-/

namespace SearchFilter

namespace Setting

variable {τ : Type} [Logic τ] (setting : Setting) (joins : List Join) (v : Expr → τ)

theorem groupValue_append (c : Connective) (before : Option τ) (xs ys : List Node) (n : Nat) :
    setting.groupValue joins v c before (xs ++ ys) n =
      setting.groupValue joins v c (setting.groupValue joins v c before xs n) ys
        (n + setting.keyCount (Node.allTerms xs)) := by
  induction xs generalizing before n with
  | nil => simp only [List.nil_append, groupValue, Node.allTerms]; rfl
  | cons x xs ih =>
    simp only [List.cons_append, groupValue, ih, Node.allTerms, keyCount_append, Nat.add_assoc]

theorem groupValue_singleton (c : Connective) (before : Option τ) (node : Node) (n : Nat) :
    setting.groupValue joins v c before [node] n =
      Option.merge c.combine before (setting.nodeValue? joins v node n) := by
  rw [groupValue, groupValue]

theorem treeValue?_ofNode (node : Node) (n : Nat) :
    setting.treeValue? joins v (Group.ofNode node) n = setting.nodeValue? joins v node n := by
  cases node with
  | term t =>
    rw [Group.ofNode, treeValue?, groupValue_singleton, Option.merge_none_left]
  | group c children => rw [Group.ofNode, treeValue?, nodeValue?]

theorem nodeValue?_combine (c : Connective) (nodes : List Node) (n : Nat) :
    setting.nodeValue? joins v (Node.combine c nodes) n =
      setting.groupValue joins v c none nodes n := by
  rcases nodes with _ | ⟨x, _ | ⟨y, nodes⟩⟩
  · show setting.nodeValue? joins v (.group c []) n = _
    rw [nodeValue?]
  · rw [groupValue_singleton, Option.merge_none_left, Node.combine]
  · show setting.nodeValue? joins v (.group c (x :: y :: nodes)) n = _
    rw [nodeValue?]

/-- Later joins do not change the links of a query. -/
theorem links_of_prefix {joins final : List Join} {nodes : List Node}
    (h : setting.followAll joins (Node.allTerms nodes) <+: final) (c : Connective) (n : Nat) :
    setting.links (setting.followAll joins (Node.allTerms nodes)) c nodes n =
      setting.links final c nodes n := by
  let start : Compilation := ⟨⟨setting.tableAlias, [], joins, 0⟩, n, []⟩
  have now := (Compilation.addNodes_spec setting nodes c start _ (List.prefix_refl _)).1
  have later := (Compilation.addNodes_spec setting nodes c start final h).1
  exact congrArg Scope.conditions (now.symm.trans later)

end Setting

namespace Scope

/-- The places of the terms of a query do not matter. -/
theorem compile_placeless (s : Scope) (catalog : Catalog) (entity : Entity) (g : Group) :
    (s.compile catalog entity (g.mapTerms Term.placeless)).1 = (s.compile catalog entity g).1 := by
  let setting : Setting := ⟨catalog, entity, s.rootAlias⟩
  have kept : Term.Keeps Term.placeless := ⟨fun _ => rfl, fun _ => rfl⟩
  have unchanged (links : List Link) : links.map (Link.mapExpr id) = links :=
    List.map_id'' (f := Link.mapExpr id) (fun ⟨_, _⟩ => rfl) links
  have links (joins : List Join) :
      setting.links joins g.connective (Node.mapAllTerms Term.placeless g.children) s.bound =
        setting.links joins g.connective g.children s.bound := by
    rw [← unchanged (setting.links joins _ (Node.mapAllTerms _ _) _),
      ← unchanged (setting.links joins _ g.children _)]
    exact setting.links_mapTerms kept (fun links => congrArg Expr.chain (unchanged links).symm)
      (fun _ _ _ _ _ => rfl) joins g.children g.connective s.bound
  have terms : (g.mapTerms Term.placeless).terms = g.terms.map Term.placeless :=
    Node.allTerms_mapAllTerms _ _
  have joins := setting.followAll_map kept g.terms s.joins
  have count := setting.keyCount_map kept g.terms
  rw [compile_spec, compile_spec, terms, joins, count]
  simp only [Group.mapTerms, links, setting]

/-- The value of a scope's condition after a query was compiled into it, with the aliases that the
tree's fields have among any joins that come to be. -/
theorem value?_compile {τ : Type} [Logic τ] (v : Expr → τ) (s : Scope) (setting : Setting)
    (root : s.rootAlias = setting.tableAlias) (g : Group) {final : List Join}
    (h : setting.followAll s.joins g.terms <+: final) :
    (s.compile setting.catalog setting.entity g).1.value? v =
      Option.merge Logic.and (s.value? v) (setting.treeValue? final v g s.bound) := by
  have same : (⟨setting.catalog, setting.entity, s.rootAlias⟩ : Setting) = setting := by rw [root]
  rw [value?_eq, value?_eq, compile_spec, same]
  dsimp only
  have links := setting.links_of_prefix h g.connective s.bound
  have tree := setting.valueFrom_links final v g.children g.connective none s.bound
  rw [Group.terms, links]
  cases hs : s.isEmpty with
  | true =>
    have empty : s.conditions = [] := List.isEmpty_iff.mp hs
    rw [if_pos rfl, tree, empty, Expr.valueFrom, Option.merge_none_left]
    rfl
  | false =>
    -- what was there before and the query are the two sides of the last link
    rw [if_neg (by decide), Expr.valueFrom_append, Expr.valueFrom, Expr.valueFrom, Expr.value?, tree]
    rfl

/-- A scope holds the conjunction of some parts of queries, and nothing else. -/
structure Holds (setting : Setting) (nodes : List Node) (s : Scope) : Prop where
  /-- The parts are about the same table. -/
  root : s.rootAlias = setting.tableAlias
  /-- The joins are those of the parts. -/
  joins : s.joins = setting.followAll [] (Node.allTerms nodes)
  /-- The keys given out are those of the parts. -/
  bound : s.bound = setting.keyCount (Node.allTerms nodes)
  /-- The values are those of the parts. -/
  bindings : s.bindings = keyedBindings (setting.keyed (Node.allTerms nodes)) 0
  /-- The condition has the value of the conjunction, also when more joins come to be. -/
  value : ∀ {τ : Type} [Logic τ] (v : Expr → τ) (final : List Join), s.joins <+: final →
    s.value? v = setting.groupValue final v .and none nodes 0

namespace Holds

variable {setting : Setting} {nodes : List Node} {s : Scope}

theorem new (setting : Setting) : Holds setting [] (.new setting.tableAlias) where
  root := rfl
  joins := by rw [Node.allTerms]; rfl
  bound := by rw [Node.allTerms]; rfl
  bindings := by rw [Node.allTerms]; rfl
  value v final _ := by rw [Setting.groupValue]; rfl

/-- A query that is compiled into the scope is one more part. -/
theorem compile (h : Holds setting nodes s) (node : Node) :
    Holds setting (nodes ++ [node])
      (s.compile setting.catalog setting.entity (Group.ofNode node)).1 := by
  have same : (⟨setting.catalog, setting.entity, s.rootAlias⟩ : Setting) = setting := by rw [h.root]
  have terms : Node.allTerms (nodes ++ [node]) = Node.allTerms nodes ++ (Group.ofNode node).terms := by
    rw [Node.allTerms_append, Node.allTerms_singleton, Group.terms_ofNode]
  have spec := s.compile_spec setting.catalog setting.entity (Group.ofNode node)
  simp only [same] at spec
  refine ⟨?_, ?_, ?_, ?_, ?_⟩
  · rw [spec]
    exact h.root
  · rw [spec, terms, Setting.followAll_append, ← h.joins]
  · rw [spec, terms, Setting.keyCount_append, ← h.bound]
  · rw [bindings_compile, boundTerms_eq, same, h.bindings, terms, Setting.keyed_append,
      keyedBindings_append, h.bound, Nat.zero_add]
    rfl
  · intro τ _ v final later
    have after : setting.followAll s.joins (Group.ofNode node).terms <+: final := by
      rw [spec] at later
      exact later
    have before : s.joins <+: final := (setting.prefix_followAll _ _).trans after
    rw [value?_compile v s setting h.root (Group.ofNode node) after, Setting.treeValue?_ofNode,
      Setting.groupValue_append, Setting.groupValue_singleton, h.value v final before, h.bound,
      Nat.zero_add]
    rfl

/-- A part that combines parts by a conjunction holds what they hold. -/
theorem of_combine (h : Holds setting [Node.combine .and nodes] s) : Holds setting nodes s := by
  have terms : Node.allTerms [Node.combine .and nodes] = Node.allTerms nodes := by
    rw [Node.allTerms_singleton, Node.terms_combine]
  refine ⟨h.root, ?_, ?_, ?_, fun v final later => ?_⟩
  · rw [← terms, h.joins]
  · rw [← terms, h.bound]
  · rw [← terms, h.bindings]
  · rw [h.value v final later, Setting.groupValue_singleton, Option.merge_none_left,
      Setting.nodeValue?_combine]

/-- What two scopes hold makes them agree. -/
theorem agree {t : Scope} (hs : Holds setting nodes s) (ht : Holds setting nodes t) :
    s.joins = t.joins ∧ s.bindings = t.bindings ∧ (s.condition? = none ↔ t.condition? = none) ∧
      ∀ {τ : Type} [Logic τ] (v : Expr → τ), s.value? v = t.value? v := by
  have joins : s.joins = t.joins := hs.joins.trans ht.joins.symm
  have value {τ : Type} [Logic τ] (v : Expr → τ) : s.value? v = t.value? v := by
    rw [hs.value v t.joins (joins ▸ List.prefix_refl _), ht.value v t.joins (List.prefix_refl _)]
  refine ⟨joins, hs.bindings.trans ht.bindings.symm, ?_, value⟩
  rw [condition?_eq_none_iff fun _ => true, condition?_eq_none_iff fun _ => true, value]

end Holds

end Scope

/-! ### Texts -/

/-- The conjunction of some texts, each in parentheses. -/
def conjoined (texts : List String) : String :=
  String.intercalate " AND " (texts.map fun q => "(" ++ q ++ ")")

/-- A text can be read and spells a part of a query, but for the places of its terms. -/
def Spells (text : String) (node : Node) : Prop :=
  ∃ g, Group.read text = .ok g ∧ g.mapTerms Term.placeless = Group.ofNode node

/-- A text that can be read and has terms is one operand when it stands in parentheses. -/
theorem exists_operand {q : String} {g : Group} (read : Group.read q = .ok g) (terms : 0 < g.termCount) :
    ∃ node, Spells q node ∧ Operands ("(" ++ q ++ ")").toList [node] := by
  rw [← g.termCount_mapTerms Term.placeless] at terms
  obtain ⟨node, -, same, operand⟩ := Operands.nested (Group.shape?_of_read read) terms
  refine ⟨node, ⟨g, read, same.symm⟩, ?_⟩
  rw [String.toList_append, String.toList_append]
  exact operand

theorem toList_conjoined_cons (q r : String) (texts : List String) :
    (conjoined (q :: r :: texts)).toList =
      ("(" ++ q ++ ")").toList ++ " AND ".toList ++ (conjoined (r :: texts)).toList := by
  simp only [conjoined, String.toList_intercalate, List.map_cons, List.intercalate_cons_cons]

/-- The conjunction of texts that can be read and have terms has what they spell as its operands. -/
theorem exists_operands_conjoined {texts : List String} (nonempty : texts ≠ [])
    (accepted : ∀ q ∈ texts, ∃ g, Group.read q = .ok g ∧ 0 < g.termCount) :
    ∃ nodes, List.Forall₂ Spells texts nodes ∧ Operands (conjoined texts).toList nodes := by
  induction texts with
  | nil => exact absurd rfl nonempty
  | cons q texts ih =>
    obtain ⟨g, read, terms⟩ := accepted q List.mem_cons_self
    obtain ⟨node, spells, operand⟩ := exists_operand read terms
    cases texts with
    | nil => exact ⟨[node], .cons spells .nil, operand⟩
    | cons r texts =>
      obtain ⟨nodes, rest, operands⟩ := ih (List.cons_ne_nil r texts)
        fun q hq => accepted q (List.mem_cons_of_mem _ hq)
      refine ⟨node :: nodes, .cons spells rest, ?_⟩
      rw [toList_conjoined_cons, List.append_assoc]
      exact operand.and (Gap.shown .and) operands

namespace Statement

/-! ### Runs -/

variable {catalog : Catalog} {entity : String}

theorem after_filter {text : String} {g : Group} {found : Entity} (read : Group.read text = .ok g)
    (known : catalog.entity? entity = some found) (s : Statement) :
    s.after (.filter catalog entity text) = { s with scope := (s.scope.compile catalog found g).1 } := by
  rw [after, (applyFilter_eq_ok_iff ..).mpr ⟨g, found, read, known, rfl⟩]

theorem after_filter_of_unknown (unknown : catalog.entity? entity = none) (text : String)
    (s : Statement) : s.after (.filter catalog entity text) = s := by
  rw [after]
  split
  · next applied =>
    obtain ⟨_, found, -, known, -⟩ := (applyFilter_eq_ok_iff ..).mp applied
    rw [unknown] at known
    cases known
  · rfl

theorem run_filters_of_unknown (unknown : catalog.entity? entity = none) (texts : List String)
    (s : Statement) : s.run (texts.map (.filter catalog entity)) = s := by
  induction texts with
  | nil => rfl
  | cons text texts ih =>
    rw [List.map_cons, run, List.foldl_cons, after_filter_of_unknown unknown]
    exact ih

/-- Filters one after another add what their texts spell. -/
theorem holds_run_filters {found : Entity} (known : catalog.entity? entity = some found)
    {tableAlias : String} {texts : List String} {nodes : List Node}
    (spelt : List.Forall₂ Spells texts nodes) : ∀ {s : Statement} {before : List Node},
    s.scope.Holds ⟨catalog, found, tableAlias⟩ before →
      (s.run (texts.map (.filter catalog entity))).scope.Holds ⟨catalog, found, tableAlias⟩
        (before ++ nodes) := by
  induction spelt with
  | nil =>
    intro s before h
    rwa [List.append_nil]
  | @cons text node texts nodes spells _ ih =>
    intro s before h
    obtain ⟨g, read, same⟩ := spells
    have step := h.compile node
    rw [← same, Scope.compile_placeless] at step
    rw [List.map_cons, run, List.foldl_cons, after_filter read known, List.append_cons]
    exact ih step

/-- The conjunction of texts that spell queries with terms spells the conjunction of these. Filters with
such texts, applied one after another to a new statement, and one filter with their conjunction leave
the same joins, the same values under the same keys, and conditions that are both absent or have the
same value, whatever values their predicates have. -/
theorem run_conjoined (catalog : Catalog) (entity table rootAlias : String) (texts : List String)
    (nonempty : texts ≠ [])
    (accepted : ∀ q ∈ texts, ∃ g, Group.read q = .ok g ∧ 0 < g.termCount) :
    let new := aliased table rootAlias
    let each := new.run (texts.map (.filter catalog entity))
    let whole := new.run [.filter catalog entity (conjoined texts)]
    (∃ nodes, List.Forall₂ Spells texts nodes ∧
        Spells (conjoined texts) (Node.combine .and nodes)) ∧
      each.scope.joins = whole.scope.joins ∧ each.scope.bindings = whole.scope.bindings ∧
      (each.scope.condition? = none ↔ whole.scope.condition? = none) ∧
      ∀ {τ : Type} [Logic τ] (v : Expr → τ), each.scope.value? v = whole.scope.value? v := by
  intro new each whole
  obtain ⟨nodes, spelt, operands⟩ := exists_operands_conjoined nonempty accepted
  have conjunction : Spells (conjoined texts) (Node.combine .and nodes) := by
    have shape := operands.shape?
    rw [Group.shape?_eq, Option.map_eq_some_iff] at shape
    obtain ⟨g, read, same⟩ := shape
    exact ⟨g, Group.read_eq_ok_iff.mpr read, same⟩
  refine ⟨⟨nodes, spelt, conjunction⟩, ?_⟩
  cases known : catalog.entity? entity with
  | none =>
    have eachNew : each = new := run_filters_of_unknown known texts new
    have wholeNew : whole = new := after_filter_of_unknown known _ new
    rw [eachNew, wholeNew]
    exact ⟨rfl, rfl, Iff.rfl, fun _ => rfl⟩
  | some found =>
    have start := Scope.Holds.new ⟨catalog, found, rootAlias⟩
    have holdsEach := holds_run_filters known spelt (s := new) start
    have holdsWhole := holds_run_filters known (.cons conjunction .nil) (s := new) start
    exact holdsEach.agree holdsWhole.of_combine

/-- A disjunction over a related table, an unknown field and a negation. -/
theorem run_conjoined_mixed :
    let users : Entity := ⟨"User", "users", [.make "name" (.scalar .text), .make "age" (.scalar .integer),
      .make "town" (.relation ⟨"Town", "town_id", "id"⟩)], by decide⟩
    let towns : Entity := ⟨"Town", "towns", [.make "size" (.scalar .integer)], by decide⟩
    let catalog : Catalog := ⟨[towns, users]⟩
    let texts := ["town.size:>3 OR age:18", "height:2", "NOT town.size:9"]
    let new := aliased "users" "u"
    let each := new.run (texts.map (.filter catalog "User"))
    let whole := new.run [.filter catalog "User" (conjoined texts)]
    conjoined texts = "(town.size:>3 OR age:18) AND (height:2) AND (NOT town.size:9)" ∧
      whole.scope.joins.length = 1 ∧
      whole.scope.bindings = [⟨"p1", .int 3⟩, ⟨"p2", .int 18⟩, ⟨"p3", .int 9⟩] ∧
      (∀ q ∈ texts, ∃ g, Group.read q = .ok g ∧ 0 < g.termCount) ∧
      (∃ nodes, List.Forall₂ Spells texts nodes ∧
        Spells (conjoined texts) (Node.combine .and nodes)) ∧
      each.scope.joins = whole.scope.joins ∧ each.scope.bindings = whole.scope.bindings ∧
      (each.scope.condition? = none ↔ whole.scope.condition? = none) ∧
      ∀ v : Expr → Truth, each.scope.value? v = whole.scope.value? v := by
  intro users towns catalog texts new each whole
  have accepted : ∀ q ∈ texts, ∃ g, Group.read q = .ok g ∧ 0 < g.termCount := by
    have readable : ∀ q ∈ texts, (Group.read q).toOption.any (fun g => 0 < g.termCount) = true := by
      decide +kernel
    intro q hq
    have found := readable q hq
    cases read : Group.read q with
    | error e =>
      rw [read] at found
      cases found
    | ok g =>
      rw [read] at found
      exact ⟨g, rfl, of_decide_eq_true found⟩
  obtain ⟨spelt, joins, bindings, absent, value⟩ :=
    run_conjoined catalog "User" "users" "u" texts (by decide) accepted
  exact ⟨by decide, by decide +kernel, by decide +kernel, accepted, spelt, joins, bindings, absent, value⟩

end Statement

end SearchFilter
