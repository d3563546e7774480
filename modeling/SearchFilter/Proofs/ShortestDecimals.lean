import Mathlib.Algebra.Order.Group.Abs
import SearchFilter.Proofs.Rounding

/-!
# Shortest decimals

What a finite double is written as, said without the search that finds it: of the decimals that are read
as the double, those with the fewest places are taken, and of these the one nearest to the double, or the
greater of two that are equally near (`Decimal.IsShortest`). There is one such decimal, and the search
finds it (`Binary64.isShortest_shortest`). The search tries grids `10 ^ power` downwards. On each it looks
at the two multiples around the double only, which is enough since the numbers that are read as the
double have no gaps.
-/

namespace SearchFilter

namespace Binary64

/-! ### Doubles by number -/

/-- The number of a double among those of its sign, upwards from zero. -/
def number (x : Binary64) : Nat := x.exponentField * 2 ^ 52 + x.fractionField

/-- The value of a finite double, sign apart. -/
def value (x : Binary64) : ℚ := x.significand * 2 ^ x.exponent

theorem fractionField_lt (x : Binary64) : x.fractionField < 2 ^ 52 := Nat.mod_lt _ (by decide)

theorem significandAt_number (x : Binary64) : significandAt x.number = x.significand := by
  have fraction := x.fractionField_lt
  rw [significandAt, significand, number, Nat.pow_eq]
  split
  · split <;> omega
  · split <;> omega

theorem exponentAt_number (x : Binary64) : exponentAt x.number = x.exponent := by
  have fraction := x.fractionField_lt
  rw [exponentAt, exponent, number]
  omega

/-- A double has its sign and its number. -/
theorem eq_ofMagnitude {x : Binary64} (finite : x.isFinite = true) :
    x.number < 2047 * 2 ^ 52 ∧ x = ofMagnitude x.negative x.number := by
  have fraction := x.fractionField_lt
  rw [isFinite, decide_eq_true_iff] at finite
  have small : x.number < 2047 * 2 ^ 52 := by
    rw [number]
    omega
  refine ⟨small, ?_⟩
  have bits : x.bits.toNat = (ofMagnitude x.negative x.number).bits.toNat := by
    have word : x.bits.toNat < 2 ^ 64 := x.bits.toNat_lt
    rw [bits_ofMagnitude, Nat.min_eq_left small.le, number, exponentField, fractionField,
      Binary64.negative]
    simp only [Nat.pow_eq, decide_eq_true_eq]
    split <;> omega
  exact congrArg Binary64.mk (UInt64.toNat_inj.mp bits)

theorem isZero_zero (negative : Bool) : (zero negative).isZero = true := by
  obtain ⟨exponent, fraction⟩ := magnitude_fields negative 0
  rw [zero, isZero, exponent, fraction]
  rfl

theorem number_pos {x : Binary64} (nonzero : x.isZero = false) : 0 < x.number := by
  refine Nat.pos_of_ne_zero fun zero => ?_
  rw [number] at zero
  rw [isZero, decide_eq_true (by omega : x.exponentField = 0),
    decide_eq_true (by omega : x.fractionField = 0)] at nonzero
  cases nonzero

/-! ### What is read as a double -/

theorem roundsDown_even {n : Nat} (even : n % 2 = 0) {half q : ℚ} : RoundsDown n half q ↔ q ≤ half := by
  rw [RoundsDown, and_iff_left even, le_iff_lt_or_eq]

theorem roundsDown_odd {n : Nat} (odd : n % 2 = 1) {half q : ℚ} : RoundsDown n half q ↔ q < half := by
  rw [RoundsDown, or_iff_left fun tie => absurd tie.2 (by omega)]

/-- The numbers that round to a double other than zero, sign apart. -/
def Attracts (x : Binary64) (q : ℚ) : Prop :=
  RoundsDown x.number (halfway x.number) q ∧ ¬RoundsDown (x.number - 1) (halfway (x.number - 1)) q

end Binary64

theorem Decimal.negative_toBinary64 (d : Decimal) : d.toBinary64.negative = d.negative := by
  obtain ⟨m, rounded, -⟩ := d.exists_toBinary64_eq
  rw [rounded, Binary64.negative_ofMagnitude]

/-- A decimal number is read as a double if it has its sign and rounds to it. -/
theorem Decimal.toBinary64_eq_iff (d : Decimal) {x : Binary64} (finite : x.isFinite = true)
    (nonzero : x.isZero = false) :
    d.toBinary64 = x ↔ d.negative = x.negative ∧ x.Attracts d.magnitude := by
  obtain ⟨m, rounded, number⟩ := d.exists_toBinary64_eq
  obtain ⟨small, same⟩ := Binary64.eq_ofMagnitude finite
  have positive := Binary64.number_pos nonzero
  rw [Binary64.Attracts, ← number, ← number, rounded]
  constructor
  · intro equal
    have sign : d.negative = x.negative := by
      rw [← equal, Binary64.negative_ofMagnitude]
    obtain ⟨exponent, fraction⟩ := Binary64.magnitude_fields d.negative m
    rw [equal] at exponent fraction
    have value : x.number = min m (2047 * 2 ^ 52) := by
      rw [Binary64.number, exponent, fraction]
      omega
    exact ⟨sign, by omega, by omega⟩
  · rintro ⟨sign, most, least⟩
    obtain rfl : m = x.number := by omega
    rw [sign]
    exact same.symm

namespace Binary64

/-! ### The interval -/

theorem scaleTwo_one (power : Int) : ((scaleTwo 1 1 power).1 : ℚ) / (scaleTwo 1 1 power).2 = 2 ^ power := by
  have quotient := scaleTwo_quotient 1 1 (-power)
  rwa [neg_neg, Nat.cast_one, div_one, zpow_neg, one_div, inv_inv] at quotient

/-- The parts of an interval are multiples of a quarter of the last significand bit. -/
theorem quarters (x : Binary64) (k : Nat) :
    ((k * (scaleTwo 1 1 (x.exponent - 2)).1 : ℕ) : ℚ) / x.rounding.den = k / 4 * 2 ^ x.exponent := by
  have unit := scaleTwo_one (x.exponent - 2)
  rw [zpow_sub₀ two_ne_zero] at unit
  rw [Nat.cast_mul, mul_div_assoc, show x.rounding.den = (scaleTwo 1 1 (x.exponent - 2)).2 from rfl, unit]
  norm_num
  ring

theorem rounding_den_pos (x : Binary64) : 0 < x.rounding.den := scaleTwo_pos Nat.one_pos 1 _

theorem rounding_value (x : Binary64) : (x.rounding.value : ℚ) / x.rounding.den = x.value := by
  rw [show x.rounding.value = 4 * x.significand * (scaleTwo 1 1 (x.exponent - 2)).1 from rfl, quarters,
    value]
  push_cast
  ring

theorem rounding_high (x : Binary64) : (x.rounding.high : ℚ) / x.rounding.den = halfway x.number := by
  rw [show x.rounding.high = (4 * x.significand + 2) * (scaleTwo 1 1 (x.exponent - 2)).1 from rfl, quarters,
    halfway, significandAt_number, exponentAt_number]
  push_cast
  ring

theorem rounding_closed (x : Binary64) : x.rounding.closed = decide (x.number % 2 = 0) := by
  have digits := (significandAt_spec x.number).1
  rw [significandAt_number] at digits
  refine decide_eq_decide.mpr ?_
  omega

/-- Half way down to the next lesser double, which in most binades is as far as half way up. -/
theorem rounding_low {x : Binary64} (nonzero : x.isZero = false) :
    (x.rounding.low : ℚ) / x.rounding.den = halfway (x.number - 1) := by
  have positive := number_pos nonzero
  have fraction := x.fractionField_lt
  rw [show x.rounding.low = (4 * x.significand - if x.fractionField = 0 ∧ 1 < x.exponentField then 1 else 2) *
    (scaleTwo 1 1 (x.exponent - 2)).1 from rfl, quarters, halfway]
  split
  · next border =>
    -- the next lesser double is the last of a binade whose doubles are twice as dense
    have bits : x.significand = 2 ^ 52 := by
      rw [significand, if_neg (by omega), border.1]
      rfl
    have before : significandAt (x.number - 1) = 2 ^ 53 - 1 := by
      rw [significandAt, number, border.1, if_neg (by omega)]
      omega
    have power : x.exponent = exponentAt (x.number - 1) + 1 := by
      rw [exponent, exponentAt, number, border.1]
      omega
    rw [before, bits, power, zpow_add_one₀ two_ne_zero]
    generalize (2 : ℚ) ^ exponentAt (x.number - 1) = unit
    norm_num
    ring
  · next inside =>
    have bits : x.significand = significandAt (x.number - 1) + 1 := by
      rw [significand, significandAt, number, Nat.pow_eq]
      rw [number] at positive
      split
      · split <;> omega
      · split <;> omega
    have power : exponentAt (x.number - 1) = x.exponent := by
      rw [number] at positive
      rw [exponent, exponentAt, number]
      omega
    rw [bits, power, show 4 * (significandAt (x.number - 1) + 1) - 2 = 4 * significandAt (x.number - 1) + 2
      by omega]
    push_cast
    ring

end Binary64

/-! ### Nearness -/

/-- Of two numbers, the first is nearer to `v`, or they are equally near and it is not the lesser. -/
def Preferred (v a b : ℚ) : Prop := |a - v| < |b - v| ∨ |a - v| = |b - v| ∧ b ≤ a

namespace Preferred

variable {v a b c : ℚ}

theorem refl : Preferred v a a := .inr ⟨rfl, le_rfl⟩

theorem trans (h : Preferred v a b) (h' : Preferred v b c) : Preferred v a c := by
  rcases h with less | ⟨same, le⟩
  · rcases h' with less' | ⟨same', -⟩
    · exact .inl (less.trans less')
    · exact .inl (less.trans_eq same')
  · rcases h' with less' | ⟨same', le'⟩
    · exact .inl (same.trans_lt less')
    · exact .inr ⟨same.trans same', le'.trans le⟩

theorem antisymm (h : Preferred v a b) (h' : Preferred v b a) : a = b := by
  rcases h with less | ⟨same, le⟩
  · rcases h' with less' | ⟨same', -⟩
    · exact absurd less' less.asymm
    · exact absurd same'.symm less.ne
  · rcases h' with less' | ⟨-, le'⟩
    · exact absurd same.symm less'.ne
    · exact le_antisymm le' le

/-- Below a number, the greater is preferred. -/
theorem of_below (below : a ≤ v) (le : b ≤ a) : Preferred v a b := by
  rw [Preferred, abs_of_nonpos (by linarith), abs_of_nonpos (by linarith)]
  rcases le.lt_or_eq with less | rfl
  · exact .inl (by linarith)
  · exact .inr ⟨rfl, le_rfl⟩

/-- Above a number, the lesser is preferred. -/
theorem of_above (above : v ≤ a) (le : a ≤ b) : Preferred v a b := by
  rw [Preferred, abs_of_nonneg (by linarith), abs_of_nonneg (by linarith)]
  rcases le.lt_or_eq with less | rfl
  · exact .inl (by linarith)
  · exact .inr ⟨rfl, le_rfl⟩

/-- Nearness does not depend on the unit. -/
theorem scale {unit : ℚ} (positive : 0 < unit) (h : Preferred (v / unit) a b) :
    Preferred v (a * unit) (b * unit) := by
  have distance (q : ℚ) : |q * unit - v| = |q - v / unit| * unit := by
    rw [← abs_of_pos positive, ← abs_mul, abs_of_pos positive, sub_mul, div_mul_cancel₀ _ positive.ne']
  rw [Preferred, distance, distance]
  rcases h with less | ⟨same, le⟩
  · exact .inl (mul_lt_mul_of_pos_right less positive)
  · exact .inr ⟨by rw [same], mul_le_mul_of_nonneg_right le positive.le⟩

end Preferred

/-! ### One grid -/

namespace Binary64

namespace Rounding

variable {r : Rounding}

/-- The numbers of a rounding are counted in units of the grid. -/
theorem onGrid_quotient (a den : Nat) (power : Int) :
    ((a * Nat.pow 10 (-power).toNat : ℕ) : ℚ) / (den * Nat.pow 10 power.toNat : ℕ) =
      a / den / 10 ^ power := by
  obtain ⟨k, rfl | rfl⟩ := power.eq_nat_or_neg
  · simp
    field_simp
  · simp
    field_simp

/-- A rounding that holds its double, away from its ends. -/
structure Proper (r : Rounding) : Prop where
  /-- The denominator can be divided by. -/
  den : 0 < r.den
  /-- The lower end is below the double. -/
  low : r.low < r.value
  /-- The upper end is above it. -/
  high : r.value < r.high

theorem Proper.onGrid (h : r.Proper) (power : Int) : (r.onGrid power).Proper where
  den := Nat.mul_pos h.den (Nat.pow_pos (by decide))
  low := Nat.mul_lt_mul_of_pos_right h.low (Nat.pow_pos (by decide))
  high := Nat.mul_lt_mul_of_pos_right h.high (Nat.pow_pos (by decide))

theorem contains_iff {step c : Nat} :
    r.contains step c = true ↔ if r.closed then r.low ≤ c * step ∧ c * step ≤ r.high
      else r.low < c * step ∧ c * step < r.high := by
  rw [contains]
  split
  · rw [Bool.and_eq_true, decide_eq_true_iff, decide_eq_true_iff]
  · rw [Bool.and_eq_true, decide_eq_true_iff, decide_eq_true_iff]

/-- With a multiple, those between it and the double lie inside. -/
theorem Proper.contains_toward (h : r.Proper) {step a b : Nat} (inside : r.contains step a = true)
    (toward : a ≤ b ∧ b * step ≤ r.value ∨ b ≤ a ∧ r.value ≤ b * step) : r.contains step b = true := by
  have order : a * step ≤ b * step ∧ b * step ≤ r.value ∨ b * step ≤ a * step ∧ r.value ≤ b * step :=
    toward.imp (And.imp_left (Nat.mul_le_mul_right step)) (And.imp_left (Nat.mul_le_mul_right step))
  obtain ⟨-, low, high⟩ := h
  rw [contains_iff] at inside ⊢
  split at inside
  · next closed =>
    rw [if_pos closed]
    omega
  · next opened =>
    rw [if_neg opened]
    omega

/-- The double lies between two multiples of the step. -/
theorem Proper.floor (h : r.Proper) :
    r.value / r.den * r.den ≤ r.value ∧ r.value < (r.value / r.den + 1) * r.den ∧
      ((r.value / r.den : ℕ) : ℚ) ≤ r.value / r.den ∧
        (r.value / r.den : ℚ) < (r.value / r.den + 1 : ℕ) := by
  have den_pos : (0 : ℚ) < r.den := by exact_mod_cast h.den
  have floor_le := Nat.div_mul_le_self r.value r.den
  have lt_next := Nat.lt_mul_div_succ r.value h.den
  rw [Nat.mul_comm] at lt_next
  refine ⟨floor_le, lt_next, ?_, ?_⟩
  · rw [le_div_iff₀ den_pos]
    exact_mod_cast floor_le
  · rw [div_lt_iff₀ den_pos]
    exact_mod_cast lt_next

/-- A multiple inside is no better than the one next to the double on the same side. -/
theorem Proper.exists_around (h : r.Proper) {c : Nat} (inside : r.contains r.den c = true) :
    ∃ a, (a = r.value / r.den ∨ a = r.value / r.den + 1) ∧ r.contains r.den a = true ∧
      Preferred (r.value / r.den) a c := by
  obtain ⟨floor_le, lt_next, below, above⟩ := h.floor
  rcases Nat.lt_or_ge (r.value / r.den) c with greater | less
  · refine ⟨_, .inr rfl, h.contains_toward inside (.inr ⟨greater, lt_next.le⟩), .of_above above.le ?_⟩
    exact_mod_cast greater
  · refine ⟨_, .inl rfl, h.contains_toward inside (.inl ⟨less, floor_le⟩), .of_below below ?_⟩
    exact_mod_cast less

/-- Which of the two multiples around the double is preferred. -/
theorem Proper.preferred_around (h : r.Proper) :
    if r.value - r.value / r.den * r.den < (r.value / r.den + 1) * r.den - r.value then
      Preferred (r.value / r.den) (r.value / r.den : ℕ) (r.value / r.den + 1 : ℕ)
    else Preferred (r.value / r.den) (r.value / r.den + 1 : ℕ) (r.value / r.den : ℕ) := by
  obtain ⟨floor_le, lt_next, below, above⟩ := h.floor
  have den_pos : (0 : ℚ) < r.den := by exact_mod_cast h.den
  rw [Preferred, Preferred, abs_of_nonpos (sub_nonpos.mpr below), abs_of_nonneg (sub_nonneg.mpr above.le)]
  generalize r.value / r.den = floor at *
  have middle : (2 * floor + 1) * r.den = floor * r.den + (floor + 1) * r.den := by ring
  split
  · next up =>
    have lower : (r.value : ℚ) / r.den < (2 * floor + 1 : ℕ) / 2 := by
      rw [div_lt_div_iff₀ den_pos two_pos]
      exact_mod_cast (by omega : r.value * 2 < (2 * floor + 1) * r.den)
    push_cast at lower ⊢
    exact .inl (by linarith)
  · next down =>
    have upper : (2 * floor + 1 : ℕ) / 2 ≤ (r.value : ℚ) / r.den := by
      rw [div_le_div_iff₀ two_pos den_pos]
      exact_mod_cast (by omega : (2 * floor + 1) * r.den ≤ r.value * 2)
    push_cast at upper ⊢
    rcases upper.lt_or_eq with less | same
    · exact .inl (by linarith)
    · exact .inr ⟨by linarith, by linarith⟩

/-- Of the two multiples around the double, the preferred one that lies inside is taken. -/
theorem Proper.nearest?_around (h : r.Proper) (power : Int) :
    let g := r.onGrid power
    (r.nearest? .up power = none → ∀ a, a = g.value / g.den ∨ a = g.value / g.den + 1 →
      g.contains g.den a = false) ∧
    ∀ c, r.nearest? .up power = some c → g.contains g.den c = true ∧
      ∀ a, a = g.value / g.den ∨ a = g.value / g.den + 1 → g.contains g.den a = true →
        Preferred (g.value / g.den) c a := by
  have around := (h.onGrid power).preferred_around
  rw [nearest?]
  generalize r.onGrid power = g at around ⊢
  intro g
  -- which of the two lie inside decides, and nearness only if both do
  cases low : g.contains g.den (g.value / g.den) with
  | false =>
    cases high : g.contains g.den (g.value / g.den + 1) with
    | false =>
      refine ⟨?_, nofun⟩
      rintro - a (rfl | rfl)
      · exact low
      · exact high
    | true =>
      refine ⟨nofun, ?_⟩
      rintro c ⟨⟩
      refine ⟨high, ?_⟩
      rintro a (rfl | rfl) inside
      · exact absurd (low.symm.trans inside) Bool.false_ne_true
      · exact .refl
  | true =>
    cases high : g.contains g.den (g.value / g.den + 1) with
    | false =>
      refine ⟨nofun, ?_⟩
      rintro c ⟨⟩
      refine ⟨low, ?_⟩
      rintro a (rfl | rfl) inside
      · exact .refl
      · exact absurd (high.symm.trans inside) Bool.false_ne_true
    | true =>
      dsimp only
      split at around
      · next up =>
        rw [if_pos up]
        refine ⟨nofun, ?_⟩
        rintro c ⟨⟩
        refine ⟨low, ?_⟩
        rintro a (rfl | rfl) -
        · exact .refl
        · exact around
      · next down =>
        rw [if_neg down, ite_self]
        refine ⟨nofun, ?_⟩
        rintro c ⟨⟩
        refine ⟨high, ?_⟩
        rintro a (rfl | rfl) -
        · exact around
        · exact .refl

/-- The multiple that is preferred of all that lie inside a rounding is found, or there is none. -/
theorem Proper.nearest?_spec (h : r.Proper) (power : Int) :
    let g := r.onGrid power
    (r.nearest? .up power = none → ∀ c, g.contains g.den c = false) ∧
    ∀ c, r.nearest? .up power = some c → g.contains g.den c = true ∧
      ∀ c', g.contains g.den c' = true → Preferred (g.value / g.den) c c' := by
  intro g
  obtain ⟨absent, present⟩ := h.nearest?_around power
  constructor
  · intro none c
    refine Bool.eq_false_iff.mpr fun inside => ?_
    obtain ⟨a, near, found, -⟩ := (h.onGrid power).exists_around inside
    rw [absent none a near] at found
    cases found
  · intro c some
    obtain ⟨inside, best⟩ := present c some
    refine ⟨inside, fun c' inside' => ?_⟩
    obtain ⟨a, near, found, better⟩ := (h.onGrid power).exists_around inside'
    exact (best a near found).trans better

/-- The search stops at the coarsest grid with a multiple inside, if there is one on the finest grid. -/
theorem coarsest_spec {tie : Tie} (finest : r.nearest? tie leastPower ≠ none) (steps : Nat) :
    r.nearest? tie (r.coarsest tie steps).2 = some (r.coarsest tie steps).1 ∧
      ∀ power, (r.coarsest tie steps).2 < power → power ≤ leastPower + steps →
        r.nearest? tie power = none := by
  induction steps with
  | zero =>
    obtain ⟨c, found⟩ := Option.ne_none_iff_exists'.mp finest
    rw [coarsest, found]
    refine ⟨rfl, fun power above below => ?_⟩
    rw [Nat.cast_zero, add_zero] at below
    exact absurd above (not_lt.mpr below)
  | succ steps ih =>
    rw [coarsest]
    cases found : r.nearest? tie (leastPower + (steps + 1 : Nat)) with
    | some c => exact ⟨found, fun power above below => absurd above (not_lt.mpr below)⟩
    | none =>
      refine ⟨ih.1, fun power above below => ?_⟩
      rcases below.lt_or_eq with less | rfl
      · exact ih.2 power above (by omega)
      · exact found

end Rounding

/-! ### The grids of a double -/

variable {x : Binary64}

theorem rounding_unit_pos (x : Binary64) : 0 < (scaleTwo 1 1 (x.exponent - 2)).1 :=
  Nat.mul_pos Nat.one_pos (Nat.two_pow_pos _)

/-- The least number that is rounded to a double is at least a quarter of a bit away from it. -/
theorem rounding_low_add_le (nonzero : x.isZero = false) :
    x.rounding.low + (scaleTwo 1 1 (x.exponent - 2)).1 ≤ x.rounding.value := by
  have low : 0 < x.rounding.low := rounding_low_pos nonzero
  have bits : 0 < 4 * x.significand - if x.fractionField = 0 ∧ 1 < x.exponentField then 1 else 2 :=
    Nat.pos_of_mul_pos_right low
  show (4 * x.significand - if x.fractionField = 0 ∧ 1 < x.exponentField then 1 else 2) *
      (scaleTwo 1 1 (x.exponent - 2)).1 + (scaleTwo 1 1 (x.exponent - 2)).1 ≤
    4 * x.significand * (scaleTwo 1 1 (x.exponent - 2)).1
  rw [← Nat.succ_mul]
  refine Nat.mul_le_mul_right _ ?_
  have below : 0 < if x.fractionField = 0 ∧ 1 < x.exponentField then 1 else 2 := by
    split <;> decide
  omega

theorem rounding_proper (nonzero : x.isZero = false) : x.rounding.Proper where
  den := x.rounding_den_pos
  low := Nat.lt_of_lt_of_le (Nat.lt_add_of_pos_right x.rounding_unit_pos) (rounding_low_add_le nonzero)
  high := Nat.mul_lt_mul_of_pos_right (by omega) x.rounding_unit_pos

/-- The step of the finest grid is at most a quarter of the last bit of any double. -/
theorem onGrid_low_add_le (nonzero : x.isZero = false) :
    (x.rounding.onGrid leastPower).low + (x.rounding.onGrid leastPower).den ≤
      (x.rounding.onGrid leastPower).value := by
  have power : (-(x.exponent - 2)).toNat ≤ 1076 := by
    rw [exponent]
    omega
  have fine : x.rounding.den ≤ Nat.pow 10 (-leastPower).toNat := by
    calc 1 * 2 ^ (-(x.exponent - 2)).toNat = 2 ^ (-(x.exponent - 2)).toNat := Nat.one_mul _
      _ ≤ 2 ^ 1076 := Nat.pow_le_pow_right (by decide) power
      _ ≤ Nat.pow 10 (-leastPower).toNat := by decide +kernel
  show x.rounding.low * Nat.pow 10 (-leastPower).toNat + x.rounding.den * 1 ≤
    x.rounding.value * Nat.pow 10 (-leastPower).toNat
  generalize Nat.pow 10 (-leastPower).toNat = step at fine ⊢
  calc x.rounding.low * step + x.rounding.den * 1
      ≤ x.rounding.low * step + (scaleTwo 1 1 (x.exponent - 2)).1 * step := by
        rw [Nat.mul_one]
        exact Nat.add_le_add_left (Nat.le_trans fine (Nat.le_mul_of_pos_left _ x.rounding_unit_pos)) _
    _ = (x.rounding.low + (scaleTwo 1 1 (x.exponent - 2)).1) * step := (Nat.add_mul ..).symm
    _ ≤ x.rounding.value * step := Nat.mul_le_mul_right _ (rounding_low_add_le nonzero)

/-- On the finest grid there is a multiple between each double and half way to the next lesser one. -/
theorem nearest?_finest (nonzero : x.isZero = false) : x.rounding.nearest? .up leastPower ≠ none := by
  intro none
  have proper := (rounding_proper nonzero).onGrid leastPower
  have outside := ((rounding_proper nonzero).nearest?_spec leastPower).1 none
    ((x.rounding.onGrid leastPower).value / (x.rounding.onGrid leastPower).den)
  refine Bool.eq_false_iff.mp outside (Rounding.contains_iff.mpr ?_)
  obtain ⟨below, above, -⟩ := proper.floor
  rw [Nat.add_mul, Nat.one_mul] at above
  have step := onGrid_low_add_le nonzero
  have high := proper.high
  split
  · omega
  · omega

/-- The multiples inside are those that are read as the double. -/
theorem contains_onGrid_iff (finite : x.isFinite = true) (nonzero : x.isZero = false) (power : Int)
    (c : Nat) : (x.rounding.onGrid power).contains (x.rounding.onGrid power).den c = true ↔
      (Decimal.mk x.negative c power).toBinary64 = x := by
  have den_pos : (0 : ℚ) < (x.rounding.onGrid power).den := by
    exact_mod_cast ((rounding_proper nonzero).onGrid power).den
  have unit_pos : (0 : ℚ) < 10 ^ power := by positivity
  have low : ((x.rounding.onGrid power).low : ℚ) / (x.rounding.onGrid power).den =
      halfway (x.number - 1) / 10 ^ power := by
    rw [← rounding_low nonzero]
    exact Rounding.onGrid_quotient ..
  have high : ((x.rounding.onGrid power).high : ℚ) / (x.rounding.onGrid power).den =
      halfway x.number / 10 ^ power := by
    rw [← rounding_high]
    exact Rounding.onGrid_quotient ..
  have closed : (x.rounding.onGrid power).closed = decide (x.number % 2 = 0) := x.rounding_closed
  have positive := number_pos nonzero
  rw [Rounding.contains_iff, closed, Decimal.toBinary64_eq_iff _ finite nonzero, and_iff_right rfl, Attracts,
    Decimal.magnitude]
  simp only [decide_eq_true_eq, ← @Nat.cast_le ℚ, ← @Nat.cast_lt ℚ, Nat.cast_mul, ← div_le_iff₀ den_pos,
    ← le_div_iff₀ den_pos, ← div_lt_iff₀ den_pos, ← lt_div_iff₀ den_pos, low, high]
  simp only [div_le_iff₀ unit_pos, le_div_iff₀ unit_pos, div_lt_iff₀ unit_pos, lt_div_iff₀ unit_pos]
  split
  · next even =>
    rw [roundsDown_even even, roundsDown_odd (by omega), not_lt, and_comm]
  · next odd =>
    rw [roundsDown_odd (by omega), roundsDown_even (by omega), not_le, and_comm]

/-- On one grid, the decimal is found that is preferred of all that are read as the double. -/
theorem nearest?_rounding (finite : x.isFinite = true) (nonzero : x.isZero = false) (power : Int) :
    (x.rounding.nearest? .up power = none → ∀ d : Decimal, d.toBinary64 = x → d.exponent ≠ power) ∧
    ∀ c, x.rounding.nearest? .up power = some c →
      (Decimal.mk x.negative c power).toBinary64 = x ∧
      ∀ d : Decimal, d.toBinary64 = x → d.exponent = power →
        Preferred x.value (Decimal.mk x.negative c power).magnitude d.magnitude := by
  obtain ⟨absent, present⟩ := (rounding_proper nonzero).nearest?_spec power
  have inside {d : Decimal} (reads : d.toBinary64 = x) (grid : d.exponent = power) :
      (x.rounding.onGrid power).contains (x.rounding.onGrid power).den d.coefficient = true := by
    rw [contains_onGrid_iff finite nonzero, ← grid, ← reads, d.negative_toBinary64]
  constructor
  · intro none d reads grid
    exact Bool.eq_false_iff.mp (absent none _) (inside reads grid)
  · intro c found
    obtain ⟨taken, best⟩ := present c found
    refine ⟨(contains_onGrid_iff finite nonzero power c).mp taken, fun d reads grid => ?_⟩
    have value : ((x.rounding.onGrid power).value : ℚ) / (x.rounding.onGrid power).den =
        x.value / 10 ^ power := by
      rw [← rounding_value]
      exact Rounding.onGrid_quotient ..
    have better := best d.coefficient (inside reads grid)
    rw [value] at better
    rw [Decimal.magnitude, Decimal.magnitude, grid]
    exact better.scale (by positivity)

/-- No multiple of a great power of ten is read as a double other than zero. -/
theorem exponent_le_of_toBinary64_eq (finite : x.isFinite = true) (nonzero : x.isZero = false)
    {d : Decimal} (reads : d.toBinary64 = x) : d.exponent ≤ 310 := by
  obtain ⟨-, down, up⟩ := (d.toBinary64_eq_iff finite nonzero).mp reads
  obtain ⟨small, -⟩ := eq_ofMagnitude finite
  have coefficient : d.coefficient ≠ 0 := by
    intro none
    refine up (.inl ?_)
    rw [Decimal.magnitude, none, Nat.cast_zero, zero_mul]
    exact halfway_pos _
  by_contra great
  refine not_lt.mpr down.le (lt_of_lt_of_le (halfway_lt small) ?_)
  calc (2 : ℚ) ^ (1024 : ℤ) ≤ 10 ^ d.exponent := Decimal.two_zpow_le_ten_zpow (by omega)
    _ ≤ d.coefficient * 10 ^ d.exponent := by
      refine le_mul_of_one_le_left (by positivity) ?_
      exact_mod_cast Nat.pos_of_ne_zero coefficient

end Binary64

/-! ### Shortest decimals -/

/-- The decimal number that a finite double is written as. -/
inductive Decimal.IsShortest : Decimal → Binary64 → Prop where
  /-- Zero has one digit. -/
  | zero (negative : Bool) : IsShortest ⟨negative, 0, 0⟩ (.zero negative)
  /-- Of the decimals that are read as a double, one with the fewest places, and of these the nearest. -/
  | nonzero {s : Decimal} {x : Binary64} : x.isZero = false → s.toBinary64 = x →
      (∀ d : Decimal, d.toBinary64 = x → d.exponent ≤ s.exponent) →
      (∀ d : Decimal, d.toBinary64 = x → d.exponent = s.exponent →
        Preferred x.value s.magnitude d.magnitude) → IsShortest s x

namespace Decimal.IsShortest

variable {s s' : Decimal} {x : Binary64}

/-- It is read back. -/
theorem toBinary64_eq (h : s.IsShortest x) : s.toBinary64 = x := by
  cases h with
  | zero negative => rw [toBinary64, if_pos (.inl rfl)]
  | nonzero _ reads _ _ => exact reads

/-- There is only one. -/
theorem unique (h : s.IsShortest x) (h' : s'.IsShortest x) : s = s' := by
  have sign : s.negative = s'.negative := by
    rw [← negative_toBinary64, ← negative_toBinary64, h.toBinary64_eq, h'.toBinary64_eq]
  cases h with
  | zero negative =>
    generalize same : Binary64.zero negative = y at h'
    cases h' with
    | zero negative' =>
      obtain rfl : negative = negative' := sign
      rfl
    | nonzero other _ _ _ =>
      rw [← same, Binary64.isZero_zero] at other
      cases other
  | nonzero other reads coarsest nearest =>
    cases h' with
    | zero negative =>
      rw [Binary64.isZero_zero] at other
      cases other
    | nonzero _ reads' coarsest' nearest' =>
      have power : s.exponent = s'.exponent := le_antisymm (coarsest' s reads) (coarsest s' reads')
      have value := (nearest s' reads' power.symm).antisymm (nearest' s reads power)
      rw [magnitude, magnitude, power] at value
      have digits : s.coefficient = s'.coefficient := by
        exact_mod_cast mul_right_cancel₀ (zpow_ne_zero _ (by norm_num)) value
      cases s
      cases s'
      cases sign
      cases power
      cases digits
      rfl

end Decimal.IsShortest

/-- The search finds the shortest decimal. -/
theorem Binary64.isShortest_shortest {x : Binary64} (finite : x.isFinite = true) :
    (x.shortest .up).IsShortest x := by
  rw [shortest]
  cases zero : x.isZero with
  | true =>
    have same := (eq_ofMagnitude finite).2
    rw [isZero, Bool.and_eq_true, decide_eq_true_iff, decide_eq_true_iff] at zero
    rw [number, zero.1, zero.2, Nat.zero_mul, Nat.zero_add] at same
    have short := Decimal.IsShortest.zero x.negative
    rwa [Binary64.zero, ← same] at short
  | false =>
    obtain ⟨found, above⟩ := Rounding.coarsest_spec (nearest?_finest zero) 655
    obtain ⟨reads, nearest⟩ := (nearest?_rounding finite zero _).2 _ found
    refine .nonzero zero reads (fun d same => ?_) nearest
    by_contra greater
    have bound := exponent_le_of_toBinary64_eq finite zero same
    have none := above d.exponent (not_le.mp greater) bound
    exact (nearest?_rounding finite zero _).1 none d same rfl

end SearchFilter
