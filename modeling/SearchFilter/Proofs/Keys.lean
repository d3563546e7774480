import SearchFilter.Proofs.Emission
import SearchFilter.Proofs.NumberedNames
import SearchFilter.Proofs.Run

/-!
# Keys count up

The keys of the bound values of a statement are `p1`, `p2` and so on, without gaps, whatever filters
were applied. Three counts have to agree for this: the keys given out while a query is compiled, the
count of the scope, and the values that are found in the conditions afterwards. They agree because a
query binds one value for each of its terms that has one and whose field is found, in the order of
the terms.
-/

namespace SearchFilter

/-! ### The values of a query -/

theorem Expr.linkBindings_append (xs ys : List Link) :
    linkBindings (xs ++ ys) = linkBindings xs ++ linkBindings ys := by
  induction xs with
  | nil => rfl
  | cons link xs ih =>
    obtain ⟨c, e⟩ := link
    rw [List.cons_append, linkBindings, linkBindings, ih, List.append_assoc]

/-- The values of some terms on their columns under consecutive keys, when so many have been given
out. -/
def keyedBindings (terms : List (Term × Column)) (n : Nat) : List Binding :=
  terms.mapIdx fun i (t, column) => ⟨parameterKey (n + i + 1), t.boundValue column.category⟩

theorem keyedBindings_append (xs ys : List (Term × Column)) (n : Nat) :
    keyedBindings (xs ++ ys) n = keyedBindings xs n ++ keyedBindings ys (n + xs.length) := by
  unfold keyedBindings
  rw [List.mapIdx_append]
  congr 2
  funext i term
  have place : n + (i + xs.length) = n + xs.length + i := by omega
  rw [place]

/-- The keys of the values are the next ones. -/
theorem keys_keyedBindings (terms : List (Term × Column)) (n : Nat) :
    (keyedBindings terms n).map Binding.key =
      (List.range terms.length).map fun i => parameterKey (n + i + 1) := by
  refine List.ext_getElem (by simp [keyedBindings]) fun i _ _ => ?_
  simp [keyedBindings]

namespace Setting

variable (setting : Setting) (joins : List Join)

theorem bindings_nodeLinks_term (c : Connective) (t : Term) (n : Nat) :
    Expr.linkBindings (setting.nodeLinks joins c (.term t) n) =
      keyedBindings (setting.keyed [t]) n := by
  rw [nodeLinks, predicate?, keyed]
  cases hc : setting.column? t.field with
  | none => simp [hc, keyedBindings, Expr.linkBindings]
  | some column =>
    simp only [Option.map_some, Option.toList_some, Expr.linkBindings, bindings_predicate,
      List.append_nil]
    cases hn : t.value.isNull <;> simp [hc, hn, keyedBindings]

/-- The links of a query bind the values of its terms, in order. -/
theorem bindings_links (nodes : List Node) : ∀ (c : Connective) (n : Nat),
    Expr.linkBindings (setting.links joins c nodes n) =
      keyedBindings (setting.keyed (Node.allTerms nodes)) n := by
  induction nodes using Node.induction with
  | nil =>
    intro c n
    rw [links, Node.allTerms]
    rfl
  | term t nodes ih =>
    intro c n
    rw [links, Expr.linkBindings_append, ih, bindings_nodeLinks_term, Node.allTerms, keyed_append,
      keyedBindings_append]
    rfl
  | group inner children nodes ihChildren ih =>
    intro c n
    rw [links, Expr.linkBindings_append, ih, nodeLinks, Expr.linkBindings, Expr.bindings, ihChildren,
      Node.allTerms, keyed_append, keyedBindings_append, Expr.linkBindings, List.append_nil]
    rfl

end Setting

namespace Scope

variable (s : Scope) (catalog : Catalog) (entity : Entity)

/-- The terms that have a value and whose field is found, with the columns they are found to be. -/
def boundTerms (terms : List Term) : List (Term × Column) :=
  terms.filterMap fun t =>
    match (s.resolve catalog entity s.rootAlias t.field).1 with
    | .resolved _ column => if t.value.isNull then none else some (t, column)
    | _ => none

/-- Which terms these are depends on the schema alone. -/
theorem boundTerms_eq (terms : List Term) :
    s.boundTerms catalog entity terms = Setting.keyed ⟨catalog, entity, s.rootAlias⟩ terms := by
  unfold boundTerms Setting.keyed
  congr 1
  funext t
  obtain ⟨-, found⟩ := s.resolve_spec ⟨catalog, entity, s.rootAlias⟩ t.field
  revert found
  cases Setting.column? ⟨catalog, entity, s.rootAlias⟩ t.field with
  | none =>
    rintro (found | found) <;> simp [found]
  | some column =>
    intro found
    simp [found]

/-- Compiling a query binds the values of its terms after those of the scope. -/
theorem bindings_compile (g : Group) :
    (s.compile catalog entity g).1.bindings =
      s.bindings ++ keyedBindings (s.boundTerms catalog entity g.terms) s.bound := by
  rw [boundTerms_eq, compile_spec, bindings, bindings]
  cases hs : s.isEmpty with
  | true =>
    have empty : s.conditions = [] := List.isEmpty_iff.mp hs
    rw [empty]
    exact Setting.bindings_links ..
  | false =>
    show Expr.linkBindings (s.conditions ++ [_]) = _
    rw [Expr.linkBindings_append, Expr.linkBindings, Expr.bindings, Expr.linkBindings,
      List.append_nil, Setting.bindings_links]
    rfl

/-- The keys of the bound values are the first ones. -/
def KeysCountUp : Prop :=
  s.bindings.map Binding.key = (List.range s.bound).map fun i => parameterKey (i + 1)

/-- Compiling a query goes on with the keys. -/
theorem KeysCountUp.compile {s : Scope} (h : s.KeysCountUp) (catalog : Catalog) (entity : Entity)
    (g : Group) : (s.compile catalog entity g).1.KeysCountUp := by
  have bound : (s.compile catalog entity g).1.bound =
      s.bound + (s.boundTerms catalog entity g.terms).length := by
    rw [boundTerms_eq, compile_spec]
    rfl
  rw [KeysCountUp, bindings_compile, bound, List.map_append, h, keys_keyedBindings, List.range_add,
    List.map_append, List.map_map]
  rfl

end Scope

/-- Whatever was done to a new statement, its keys are the first ones, as many as it counts, and no
two are equal. A filter that is applied then binds one value for each term of its query that has one
and whose field is found, in order and after all values bound before; one that is not applied leaves
the statement as it is. -/
theorem Statement.run_keys (table rootAlias : String) (steps : List Step) :
    let s := (aliased table rootAlias).run steps
    s.scope.bindings.map Binding.key = (List.range s.scope.bound).map (fun i => parameterKey (i + 1)) ∧
      (s.scope.bindings.map Binding.key).Nodup ∧
      ∀ catalog entity text,
        match (s.applyFilter catalog entity text).1 with
        | .ok t => ∃ g found, Group.read text = .ok g ∧ catalog.entity? entity = some found ∧
            t.scope.bindings = s.scope.bindings ++
              keyedBindings (s.scope.boundTerms catalog found g.terms) s.scope.bound
        | .error _ => s.run [.filter catalog entity text] = s := by
  intro s
  have keys : s.scope.KeysCountUp :=
    run_scope (fun _ catalog entity g h => h.compile catalog entity g) steps _ rfl
  refine ⟨keys, ?_, fun catalog entity text => ?_⟩
  · rw [keys]
    exact List.nodup_range.map fun i j h => Nat.succ.inj (parameterKey_injective h)
  · split
    · next t applied =>
      obtain ⟨g, found, read, known, rfl⟩ := (applyFilter_eq_ok_iff ..).mp applied
      exact ⟨g, found, read, known, s.scope.bindings_compile catalog found g⟩
    · next failed =>
      show s.after (.filter catalog entity text) = s
      rw [after, failed]

end SearchFilter
