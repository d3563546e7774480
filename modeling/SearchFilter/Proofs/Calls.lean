import SearchFilter.Proofs.Keys

/-!
# Scopes under any calls

A scope is filled by whoever holds it: conditions are attached, joins are registered and scopes are
nested, in any order and to any depth. What the calls add does not depend on the scope they are made on,
but for the joins, where a relation that is joined already is passed over (`receiveAll_eq`). So the
values are counted right, and the first join of a relation stays, whatever the calls are.
-/

namespace SearchFilter

/-- One call on a scope. -/
inductive Call where
  /-- A condition is attached. -/
  | attach (connective : Connective) (e : Expr)
  /-- A scope is nested, and gets calls of its own. -/
  | nest (connective : Connective) (calls : List Call)
  /-- A join is asked for. -/
  | register (j : Join)

/-- Calls one after another: each adds something, or has calls of its own. -/
@[elab_as_elim]
theorem Call.induction {P : List Call → Prop} (nil : P [])
    (attach : ∀ c e calls, P calls → P (.attach c e :: calls))
    (nest : ∀ c inner calls, P inner → P calls → P (.nest c inner :: calls))
    (register : ∀ j calls, P calls → P (.register j :: calls)) : ∀ calls, P calls
  | [] => nil
  | .attach c e :: calls => attach c e calls (Call.induction nil attach nest register calls)
  | .nest c inner :: calls =>
    nest c inner calls (Call.induction nil attach nest register inner)
      (Call.induction nil attach nest register calls)
  | .register j :: calls => register j calls (Call.induction nil attach nest register calls)

namespace Scope

mutual

/-- The scope after a call. -/
def receive : Call → Scope → Scope
  | .attach c e, s => s.attach c e
  | .nest c calls, s => s.leave c (receiveAll calls s.enter)
  | .register j, s => (s.register j).1

/-- The scope after some calls. -/
def receiveAll : List Call → Scope → Scope
  | [], s => s
  | call :: calls, s => receiveAll calls (receive call s)

end

end Scope

/-! ### What calls add -/

namespace Call

mutual

/-- The link that a call adds to its scope. -/
def links : Call → List Link
  | .attach c e => [⟨c, e⟩]
  | .nest c calls => [⟨c, .chain (allLinks calls)⟩]
  | .register _ => []

/-- The links that calls add to their scope. -/
def allLinks : List Call → List Link
  | [] => []
  | call :: calls => call.links ++ allLinks calls

end

mutual

/-- The joins that a call asks for, at any depth. -/
def requests : Call → List Join
  | .attach _ _ => []
  | .nest _ calls => allRequests calls
  | .register j => [j]

/-- The joins that calls ask for, in order. -/
def allRequests : List Call → List Join
  | [] => []
  | call :: calls => call.requests ++ allRequests calls

end

end Call

/-- The joins after one more was asked for: it is added unless its relation is joined already. -/
def Join.addTo (joins : List Join) (j : Join) : List Join :=
  if joins.any fun i => i.follows j.sourceAlias j.property then joins else joins ++ [j]

/-! ### Joins -/

namespace Join

/-- The relation that a join follows, and from where. -/
def key (j : Join) : String × String := (j.sourceAlias, j.property)

theorem follows_iff (j : Join) (source property : String) :
    j.follows source property = true ↔ j.key = (source, property) := by
  simp [follows, key]

theorem addTo_eq (joins : List Join) (j : Join) :
    addTo joins j = if j.key ∈ joins.map key then joins else joins ++ [j] := by
  unfold addTo
  by_cases known : j.key ∈ joins.map key
  · rw [if_pos known, if_pos]
    obtain ⟨i, hi, same⟩ := List.mem_map.mp known
    exact List.any_eq_true.mpr ⟨i, hi, (i.follows_iff _ _).mpr same⟩
  · rw [if_neg known, if_neg]
    intro found
    obtain ⟨i, hi, same⟩ := List.any_eq_true.mp found
    exact known (List.mem_map.mpr ⟨i, hi, (i.follows_iff _ _).mp same⟩)

theorem prefix_addTo (joins : List Join) (j : Join) : joins <+: addTo joins j := by
  unfold addTo
  split
  · exact List.prefix_rfl
  · exact List.prefix_append _ _

theorem prefix_foldl_addTo (requests joins : List Join) : joins <+: requests.foldl addTo joins := by
  induction requests generalizing joins with
  | nil => exact List.prefix_rfl
  | cons j requests ih => exact (prefix_addTo joins j).trans (ih _)

theorem nodup_addTo {joins : List Join} (h : (joins.map key).Nodup) (j : Join) :
    ((addTo joins j).map key).Nodup := by
  rw [addTo_eq]
  by_cases known : j.key ∈ joins.map key
  · rwa [if_pos known]
  · rw [if_neg known, List.map_append]
    exact h.append (List.nodup_singleton _) (List.disjoint_singleton.mpr known)

/-- No relation is joined twice, whatever joins are asked for. -/
theorem nodup_foldl_addTo (requests : List Join) : ∀ {joins : List Join}, (joins.map key).Nodup →
    ((requests.foldl addTo joins).map key).Nodup := by
  induction requests with
  | nil => exact fun h => h
  | cons j requests ih => exact fun h => ih (nodup_addTo h j)

theorem find?_addTo (joins : List Join) (j : Join) (source property : String) :
    (addTo joins j).find? (·.follows source property) =
      (joins ++ [j]).find? (·.follows source property) := by
  rw [addTo_eq]
  by_cases known : j.key ∈ joins.map key
  · rw [if_pos known, List.find?_append]
    cases found : joins.find? (·.follows source property) with
    | some i => rfl
    | none =>
      -- the relation asked for is another one, since some join follows that of `j`
      obtain ⟨i, hi, same⟩ := List.mem_map.mp known
      have other : j.follows source property = false := by
        rw [Bool.eq_false_iff]
        intro hj
        refine List.find?_eq_none.mp found i hi ?_
        rw [follows_iff] at hj ⊢
        rw [same, hj]
      simp [other]
  · rw [if_neg known]

/-- Of the joins that are asked for, the first one of each relation is kept, unless the relation was
joined before. -/
theorem find?_foldl_addTo (requests joins : List Join) (source property : String) :
    (requests.foldl addTo joins).find? (·.follows source property) =
      (joins ++ requests).find? (·.follows source property) := by
  induction requests generalizing joins with
  | nil => simp
  | cons j requests ih =>
    rw [List.foldl_cons, ih, List.find?_append, find?_addTo, ← List.find?_append, List.append_assoc]
    rfl

theorem addTo_sublist (joins : List Join) (j : Join) : (addTo joins j).Sublist (joins ++ [j]) := by
  unfold addTo
  split
  · exact List.sublist_append_left _ _
  · exact List.Sublist.refl _

/-- Joins are kept in the order in which they are asked for, and no others are. -/
theorem foldl_addTo_sublist (requests joins : List Join) :
    (requests.foldl addTo joins).Sublist (joins ++ requests) := by
  induction requests generalizing joins with
  | nil => simp
  | cons j requests ih =>
    refine (ih (addTo joins j)).trans ?_
    rw [← List.singleton_append, ← List.append_assoc]
    exact (addTo_sublist joins j).append_right requests

end Join

/-! ### Scopes -/

namespace Scope

theorem register_eq (s : Scope) (j : Join) :
    (s.register j).1 = { s with joins := Join.addTo s.joins j } := by
  unfold register join? Join.addTo
  cases found : s.joins.find? fun i => i.follows j.sourceAlias j.property with
  | none =>
    rw [if_neg]
    simpa using found
  | some i =>
    rw [if_pos (List.any_eq_true.mpr ⟨i, List.mem_of_find?_eq_some found, List.find?_some found⟩)]

/-- The scope after some additions. -/
def extended (s : Scope) (links : List Link) (requests : List Join) : Scope :=
  { s with
    conditions := s.conditions ++ links
    joins := requests.foldl Join.addTo s.joins
    bound := s.bound + (Expr.linkBindings links).length }

theorem extended_extended (s : Scope) (links links' : List Link) (requests requests' : List Join) :
    (s.extended links requests).extended links' requests' =
      s.extended (links ++ links') (requests ++ requests') := by
  simp [extended, Expr.linkBindings_append, Nat.add_assoc]

/-- Calls add their links and count the values of these; of the joins they ask for, those of relations
that are not joined yet are added. -/
theorem receiveAll_eq (calls : List Call) : ∀ s : Scope,
    s.receiveAll calls = s.extended (Call.allLinks calls) (Call.allRequests calls) := by
  induction calls using Call.induction with
  | nil => simp [receiveAll, Call.allLinks, Call.allRequests, extended, Expr.linkBindings]
  | attach c e calls ih =>
    intro s
    have one : s.attach c e = s.extended [⟨c, e⟩] [] := by
      simp [attach, extended, Expr.linkBindings]
    rw [receiveAll, receive, ih, one, extended_extended]
    rfl
  | nest c inner calls ihInner ih =>
    intro s
    have one : s.leave c (s.enter.receiveAll inner) =
        s.extended [⟨c, .chain (Call.allLinks inner)⟩] (Call.allRequests inner) := by
      rw [ihInner]
      simp [leave, enter, extended, Expr.linkBindings, Expr.bindings]
    rw [receiveAll, receive, one, ih, extended_extended]
    rfl
  | register j calls ih =>
    intro s
    have one : (s.register j).1 = s.extended [] [j] := by
      simp [register_eq, extended, Expr.linkBindings]
    rw [receiveAll, receive, ih, one, extended_extended]
    rfl

theorem receive_eq (call : Call) (s : Scope) :
    s.receive call = s.extended call.links call.requests := by
  have single := receiveAll_eq [call] s
  simpa [receiveAll, Call.allLinks, Call.allRequests] using single

end Scope

/-! ### Statements -/

namespace Statement

/-- The statement after some calls on its scope. -/
def receive (calls : List Call) (s : Statement) : Statement :=
  { s with scope := s.scope.receiveAll calls }

/-- Whatever calls a new statement got, it counts its values right, no relation is joined twice, and of
the joins that were asked for it has the first one of each relation, in that order. A call on any scope
leaves the conditions and joins that are there in front, and a nested scope becomes one more condition:
the chain of all that was added inside. -/
theorem receive_calls (table rootAlias : String) (calls : List Call) :
    let s := (aliased table rootAlias).receive calls
    s.scope.bound = s.scope.bindings.length ∧
      (s.scope.joins.map fun j => (j.sourceAlias, j.property)).Nodup ∧
      (∀ source property, s.scope.join? source property =
        (Call.allRequests calls).find? (·.follows source property)) ∧
      s.scope.joins.Sublist (Call.allRequests calls) ∧
      (∀ (call : Call) (scope : Scope), scope.conditions <+: (scope.receive call).conditions ∧
        scope.joins <+: (scope.receive call).joins) ∧
      ∀ (c : Connective) (inner : List Call) (scope : Scope),
        (scope.receive (.nest c inner)).conditions =
            scope.conditions ++ [⟨c, .chain (Call.allLinks inner)⟩] ∧
          (scope.receive (.nest c inner)).bindings =
            scope.bindings ++ Expr.linkBindings (Call.allLinks inner) := by
  intro s
  have scope : s.scope = (Scope.new rootAlias).extended (Call.allLinks calls) (Call.allRequests calls) :=
    Scope.receiveAll_eq calls (.new rootAlias)
  refine ⟨?_, ?_, ?_, ?_, ?_, ?_⟩
  · simp [scope, Scope.extended, Scope.new, Scope.bindings]
  · rw [scope]
    exact Join.nodup_foldl_addTo (Call.allRequests calls) List.nodup_nil
  · intro source property
    rw [scope]
    exact Join.find?_foldl_addTo (Call.allRequests calls) [] source property
  · rw [scope]
    exact Join.foldl_addTo_sublist (Call.allRequests calls) []
  · intro call scope
    rw [scope.receive_eq call]
    exact ⟨List.prefix_append _ _, Join.prefix_foldl_addTo _ _⟩
  · intro c inner scope
    rw [scope.receive_eq (.nest c inner), Call.links]
    refine ⟨rfl, ?_⟩
    simp [Scope.bindings, Scope.extended, Expr.linkBindings_append, Expr.linkBindings, Expr.bindings]

end Statement

end SearchFilter
