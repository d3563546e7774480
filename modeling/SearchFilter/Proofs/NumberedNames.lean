import Mathlib.Data.List.Nodup
import SearchFilter.Condition.Field
import SearchFilter.Condition.Predicate

/-!
# Names with numbers

Keys and aliases are told apart by the numbers in them. Different numbers give different names, so
that no two keys are equal, and one of enough numbered aliases is always free. So a search that tries one
number after another ends, at the least number whose alias is free (`freeAlias_least`).
-/

namespace SearchFilter

theorem Digits.ofNat_injective : Function.Injective Digits.ofNat := by
  have left : Function.LeftInverse Digits.toNat Digits.ofNat := fun _ => Nat.ofDigitChars_ten_toDigits
  exact left.injective

/-- Different numbers have different keys. -/
theorem parameterKey_injective : Function.Injective parameterKey := by
  intro m n h
  exact Digits.ofNat_injective (List.cons.inj (String.ofList_injective h)).2

/-! ### Free aliases -/

theorem toList_numberedAlias (table : String) (n : Nat) :
    (numberedAlias table n).toList = table.toList ++ '_' :: Digits.ofNat n := by
  simp [numberedAlias]

theorem numberedAlias_injective (table : String) : Function.Injective (numberedAlias table) := by
  intro m n h
  have chars := congrArg String.toList h
  rw [toList_numberedAlias, toList_numberedAlias] at chars
  exact Digits.ofNat_injective (List.cons.inj (List.append_cancel_left chars)).2

/-- A numbered alias is never the table's own name. -/
theorem numberedAlias_ne (table : String) (n : Nat) : numberedAlias table n ≠ table := by
  intro h
  have chars := congrArg (fun s => s.toList.length) h
  simp [toList_numberedAlias] at chars

/-- The aliases that are taken. -/
theorem isTaken_iff (rootAlias : String) (joins : List Join) (tableAlias : String) :
    isTaken rootAlias joins tableAlias = true ↔
      tableAlias ∈ rootAlias :: joins.map Join.targetAlias := by
  simp only [isTaken, Bool.or_eq_true, decide_eq_true_eq, List.any_eq_true, List.mem_cons,
    List.mem_map]

/-- The search for a free alias passes over those that are taken. It stops at one that is not, or when
it has tried so many. -/
theorem freeAliasFrom_spec (rootAlias : String) (joins : List Join) (table : String) (tries : Nat) :
    ∀ n, ∃ k ≤ tries,
      freeAliasFrom rootAlias joins table tries n = numberedAlias table (n + k) ∧
        (∀ i < k, isTaken rootAlias joins (numberedAlias table (n + i)) = true) ∧
        (k < tries → isTaken rootAlias joins (numberedAlias table (n + k)) = false) := by
  induction tries with
  | zero => exact fun n => ⟨0, Nat.le_refl 0, rfl, nofun, nofun⟩
  | succ tries ih =>
    intro n
    rw [freeAliasFrom]
    cases taken : isTaken rootAlias joins (numberedAlias table n) with
    | false => exact ⟨0, Nat.zero_le _, rfl, nofun, fun _ => taken⟩
    | true =>
      obtain ⟨k, le, found, before, free⟩ := ih (n + 1)
      refine ⟨k + 1, Nat.succ_le_succ le, ?_, ?_, ?_⟩
      · rw [if_pos rfl, found]
        congr 1
        omega
      · intro i hi
        cases i with
        | zero => exact taken
        | succ i =>
          have := before i (Nat.lt_of_succ_lt_succ hi)
          rwa [Nat.add_right_comm] at this
      · intro hk
        have := free (Nat.lt_of_succ_lt_succ hk)
        rwa [Nat.add_right_comm] at this

/-- An alias that is called free is free. Were the last numbered one that is tried taken too, then
with the table's own name there would be more aliases than tables that have one. -/
theorem isTaken_freeAlias (rootAlias : String) (joins : List Join) (table : String) :
    isTaken rootAlias joins (freeAlias rootAlias joins table) = false := by
  unfold freeAlias
  cases own : isTaken rootAlias joins table with
  | false => exact own
  | true =>
    rw [if_pos rfl]
    obtain ⟨k, le, found, before, free⟩ := freeAliasFrom_spec rootAlias joins table joins.length 1
    rw [found]
    by_contra taken
    rw [Bool.not_eq_false] at taken
    have all : k = joins.length := by
      refine Nat.le_antisymm le (Nat.le_of_not_lt fun lt => ?_)
      rw [free lt] at taken
      cases taken
    let names := table :: (List.range (k + 1)).map fun i => numberedAlias table (1 + i)
    have distinct : names.Nodup := by
      refine List.nodup_cons.mpr ⟨?_, List.nodup_range.map fun i j h => ?_⟩
      · intro h
        obtain ⟨i, -, hi⟩ := List.mem_map.mp h
        exact numberedAlias_ne table _ hi
      · exact Nat.add_left_cancel (numberedAlias_injective table h)
    have inside : names ⊆ rootAlias :: joins.map Join.targetAlias := by
      refine List.cons_subset.mpr ⟨(isTaken_iff ..).mp own, ?_⟩
      intro a ha
      obtain ⟨i, hi, rfl⟩ := List.mem_map.mp ha
      rw [← isTaken_iff]
      rcases Nat.lt_succ_iff_lt_or_eq.mp (List.mem_range.mp hi) with lt | rfl
      · exact before i lt
      · exact taken
    have length := distinct.length_le_of_subset inside
    simp only [names, all, List.length_cons, List.length_map, List.length_range] at length
    omega

/-! ### The search for a free alias -/

/-- The search for a free numbered alias, from a number on. It tries one number after another and stops at
the first whose alias is free; nothing in the search itself bounds it. -/
inductive AliasSearch (rootAlias : String) (joins : List Join) (table : String) : Nat → Nat → Prop where
  /-- The alias is free. -/
  | stop {n : Nat} : isTaken rootAlias joins (numberedAlias table n) = false →
      AliasSearch rootAlias joins table n n
  /-- The alias is taken, and the next number is tried. -/
  | next {n k : Nat} : isTaken rootAlias joins (numberedAlias table n) = true →
      AliasSearch rootAlias joins table (n + 1) k → AliasSearch rootAlias joins table n k

variable {rootAlias table : String} {joins : List Join}

/-- A search that goes over taken aliases up to a free one ends there. -/
theorem AliasSearch.of_least {n k : Nat} (le : n ≤ k)
    (before : ∀ i, n ≤ i → i < k → isTaken rootAlias joins (numberedAlias table i) = true)
    (free : isTaken rootAlias joins (numberedAlias table k) = false) :
    AliasSearch rootAlias joins table n k := by
  induction h : k - n generalizing n with
  | zero =>
    obtain rfl : n = k := by omega
    exact .stop free
  | succ distance ih =>
    have taken := before n (Nat.le_refl n) (by omega)
    exact .next taken (ih (by omega) (fun i hi => before i (by omega)) (by omega))

/-- A search has one end. -/
theorem AliasSearch.unique {n k l : Nat} (h : AliasSearch rootAlias joins table n k)
    (h' : AliasSearch rootAlias joins table n l) : k = l := by
  induction h with
  | stop free =>
    cases h' with
    | stop _ => rfl
    | next taken _ => simp [free] at taken
  | next taken _ ih =>
    cases h' with
    | stop free => simp [free] at taken
    | next _ rest => exact ih rest

/-- With the table's own name taken, the search from one on ends at a number that is at most one more than
there are joins, and finds the alias that is called free. -/
theorem exists_aliasSearch (own : isTaken rootAlias joins table = true) :
    ∃ k, 1 ≤ k ∧ k ≤ joins.length + 1 ∧ freeAlias rootAlias joins table = numberedAlias table k ∧
      (∀ i, 1 ≤ i → i < k → isTaken rootAlias joins (numberedAlias table i) = true) ∧
      AliasSearch rootAlias joins table 1 k := by
  obtain ⟨k, le, found, before, -⟩ := freeAliasFrom_spec rootAlias joins table joins.length 1
  have same : freeAlias rootAlias joins table = numberedAlias table (1 + k) := by
    rw [freeAlias, if_pos own, found]
  have free := isTaken_freeAlias rootAlias joins table
  rw [same] at free
  have passed : ∀ i, 1 ≤ i → i < 1 + k → isTaken rootAlias joins (numberedAlias table i) = true := by
    intro i positive less
    obtain ⟨j, rfl⟩ := Nat.exists_eq_add_of_le positive
    exact before j (by omega)
  exact ⟨1 + k, by omega, by omega, same, passed, .of_least (by omega) passed free⟩

/-- The alias of a joined table is neither the root's nor that of any join: it is the table's own name
where that is free, and otherwise the name with the least number from one on that makes it free. The
search for that number ends, there and nowhere else, and the number is at most one more than there are
joins. -/
theorem freeAlias_least (rootAlias : String) (joins : List Join) (table : String) :
    let found := freeAlias rootAlias joins table
    found ≠ rootAlias ∧ (∀ j ∈ joins, found ≠ j.targetAlias) ∧
      (isTaken rootAlias joins table = false ∧ found = table ∨
        isTaken rootAlias joins table = true ∧
          ∃ k, 1 ≤ k ∧ k ≤ joins.length + 1 ∧ found = numberedAlias table k ∧
            (∀ i, 1 ≤ i → i < k → isTaken rootAlias joins (numberedAlias table i) = true) ∧
            ∀ l, AliasSearch rootAlias joins table 1 l ↔ l = k) := by
  intro found
  have free : isTaken rootAlias joins found = false := isTaken_freeAlias rootAlias joins table
  rw [← Bool.not_eq_true, isTaken_iff, List.mem_cons, not_or] at free
  refine ⟨free.1, fun j hj same => free.2 (same ▸ List.mem_map_of_mem hj), ?_⟩
  cases own : isTaken rootAlias joins table with
  | false => exact .inl ⟨rfl, by simp [found, freeAlias, own]⟩
  | true =>
    obtain ⟨k, positive, bound, same, passed, search⟩ := exists_aliasSearch own
    refine .inr ⟨rfl, k, positive, bound, same, passed, fun l => ⟨fun h => h.unique search, ?_⟩⟩
    rintro rfl
    exact search

/-- Aliases of other tables and repeated ones leave a gap, which is found. -/
example :
    let joins := ["towns_1", "towns_3", "roads", "towns_1", "towns_02"].map fun a =>
      (⟨"towns", a, "towns", a, "id", "id"⟩ : Join)
    freeAlias "towns" joins "towns" = "towns_2" ∧ freeAlias "t" joins "roads" = "roads_1" := by
  decide

end SearchFilter
