import Mathlib.Algebra.Order.Field.Power
import Mathlib.Algebra.Order.Ring.Rat
import Mathlib.Data.Rat.Cast.Order
import Mathlib.Tactic.FieldSimp
import Mathlib.Tactic.Linarith
import Mathlib.Tactic.NormNum
import Mathlib.Tactic.Positivity
import Mathlib.Tactic.Ring
import SearchFilter.Proofs.Numerals

/-!
# Rounding to double precision

The doubles of one sign are numbered upwards from zero, and half way between the `i`-th and the next lies
`Binary64.halfway i`. A decimal number is read as the double whose number `m` satisfies `m ≤ i` exactly if
the decimal is below that half way, or at it and `i` is even (`Decimal.exists_toBinary64_eq`). So only the
sign and the value of a decimal count, not how its digits and its power of ten share the value.
-/

namespace SearchFilter

namespace Binary64

/-! ### Magnitudes -/

theorem bits_ofMagnitude (negative : Bool) (m : Nat) :
    (ofMagnitude negative m).bits.toNat = (if negative then 2 ^ 63 else 0) + min m (2047 * 2 ^ 52) := by
  show ((if negative then Nat.pow 2 63 else 0) + min m (2047 * Nat.pow 2 52)) % 2 ^ 64 = _
  simp only [Nat.pow_eq, Nat.reducePow]
  cases negative
  · simp only [Bool.false_eq_true, if_false]
    omega
  · simp only [if_true]
    omega

theorem magnitude_fields (negative : Bool) (m : Nat) :
    (ofMagnitude negative m).exponentField = min m (2047 * 2 ^ 52) / 2 ^ 52 ∧
      (ofMagnitude negative m).fractionField = min m (2047 * 2 ^ 52) % 2 ^ 52 := by
  rw [exponentField, fractionField, bits_ofMagnitude]
  simp only [Nat.pow_eq, Nat.reducePow]
  cases negative <;> simp <;> omega

theorem negative_ofMagnitude (negative : Bool) (m : Nat) :
    (ofMagnitude negative m).negative = negative := by
  rw [Binary64.negative, bits_ofMagnitude]
  simp only [Nat.pow_eq, Nat.reducePow]
  cases negative with
  | false => simp
  | true => simp

theorem isFinite_ofMagnitude_iff (negative : Bool) (m : Nat) :
    (ofMagnitude negative m).isFinite = true ↔ m < 2047 * 2 ^ 52 := by
  rw [isFinite, decide_eq_true_iff, (magnitude_fields negative m).1]
  omega

theorem isNaN_ofMagnitude (negative : Bool) (m : Nat) : (ofMagnitude negative m).isNaN = false := by
  obtain ⟨exponent, fraction⟩ := magnitude_fields negative m
  rw [isNaN, exponent, fraction, Bool.and_eq_false_iff, decide_eq_false_iff_not, decide_eq_false_iff_not]
  omega

/-- What is past infinity makes no difference. -/
theorem ofMagnitude_congr {negative : Bool} {m n : Nat}
    (h : min m (2047 * 2 ^ 52) = min n (2047 * 2 ^ 52)) : ofMagnitude negative m = ofMagnitude negative n := by
  rw [ofMagnitude, ofMagnitude, Nat.pow_eq, Nat.pow_eq, h]

/-! ### Scaling -/

/-- The pair to divide stands for the quotient in units of a power of two. -/
theorem scaleTwo_quotient (num den : Nat) (unit : Int) :
    ((scaleTwo num den (-unit)).1 : ℚ) / (scaleTwo num den (-unit)).2 = num / den / 2 ^ unit := by
  obtain ⟨k, rfl | rfl⟩ := unit.eq_nat_or_neg
  · simp [scaleTwo]
    field_simp
  · simp [scaleTwo]
    field_simp

theorem scaleTwo_pos {den : Nat} (hd : 0 < den) (num : Nat) (power : Int) :
    0 < (scaleTwo num den power).2 :=
  Nat.mul_pos hd (Nat.two_pow_pos _)

/-- A quotient lies between two powers of two. -/
theorem binade_spec {num den : Nat} (hn : num ≠ 0) (hd : 0 < den) :
    (2 : ℚ) ^ binade num den ≤ num / den ∧ (num / den : ℚ) < 2 ^ (binade num den + 1) := by
  have den_pos : (0 : ℚ) < den := by exact_mod_cast hd
  have num_ge : (2 : ℚ) ^ num.log2 ≤ num := by exact_mod_cast Nat.log2_self_le hn
  have num_lt : (num : ℚ) < 2 ^ (num.log2 + 1) := by exact_mod_cast Nat.lt_log2_self
  have den_ge : (2 : ℚ) ^ den.log2 ≤ den := by exact_mod_cast Nat.log2_self_le hd.ne'
  have den_lt : (den : ℚ) < 2 ^ (den.log2 + 1) := by exact_mod_cast Nat.lt_log2_self
  have lower : (2 : ℚ) ^ ((num.log2 : ℤ) - den.log2 - 1) ≤ num / den := by
    rw [le_div_iff₀ den_pos]
    calc (2 : ℚ) ^ ((num.log2 : ℤ) - den.log2 - 1) * den
        ≤ 2 ^ ((num.log2 : ℤ) - den.log2 - 1) * 2 ^ (den.log2 + 1) := by gcongr
      _ = 2 ^ num.log2 := by
        rw [← zpow_natCast, ← zpow_natCast, ← zpow_add₀ two_ne_zero]
        congr 1
        push_cast
        ring
      _ ≤ num := num_ge
  have upper : (num / den : ℚ) < 2 ^ ((num.log2 : ℤ) - den.log2 + 1) := by
    rw [div_lt_iff₀ den_pos]
    calc (num : ℚ) < 2 ^ (num.log2 + 1) := num_lt
      _ = 2 ^ ((num.log2 : ℤ) - den.log2 + 1) * 2 ^ den.log2 := by
        rw [← zpow_natCast, ← zpow_natCast, ← zpow_add₀ two_ne_zero]
        congr 1
        push_cast
        ring
      _ ≤ 2 ^ ((num.log2 : ℤ) - den.log2 + 1) * den := by gcongr
  -- the guess from the lengths is right or one too great, and one comparison tells which
  have guess : (scaleTwo num den (-((num.log2 : ℤ) - den.log2))).2 ≤
      (scaleTwo num den (-((num.log2 : ℤ) - den.log2))).1 ↔
        (2 : ℚ) ^ ((num.log2 : ℤ) - den.log2) ≤ num / den := by
    have scaled : (0 : ℚ) < (scaleTwo num den (-((num.log2 : ℤ) - den.log2))).2 := by
      exact_mod_cast scaleTwo_pos hd num _
    rw [← @Nat.cast_le ℚ, ← one_le_div scaled, scaleTwo_quotient, one_le_div (by positivity)]
  rw [binade]
  dsimp only
  split
  · next h => exact ⟨guess.mp h, upper⟩
  · next h =>
    refine ⟨lower, ?_⟩
    rw [guess, not_le] at h
    rwa [sub_add_cancel]

/-! ### Rounding quotients -/

/-- A number is below `half`, or at it while `n` is even. If `half` lies midway between the `n`-th of some
numbers and the next, these are the numbers that are rounded to at most the `n`-th. -/
def RoundsDown (n : Nat) (half q : ℚ) : Prop := q < half ∨ q = half ∧ n % 2 = 0

theorem RoundsDown.le {n : Nat} {half q : ℚ} (h : RoundsDown n half q) : q ≤ half :=
  h.elim le_of_lt fun tie => tie.1.le

theorem roundsDown_div_iff {n : Nat} {half q unit : ℚ} (positive : 0 < unit) :
    RoundsDown n half (q / unit) ↔ RoundsDown n (half * unit) q := by
  rw [RoundsDown, RoundsDown, div_lt_iff₀ positive, div_eq_iff positive.ne']

/-- A quotient is rounded to the nearest natural. -/
theorem roundDiv_le_iff {num den : Nat} (positive : 0 < den) (k : Nat) :
    roundDiv num den ≤ k ↔ RoundsDown k (k + 1 / 2) (num / den) := by
  have den_pos : (0 : ℚ) < den := by exact_mod_cast positive
  have double : ((k : ℚ) + 1 / 2) * den = ((2 * k + 1) * den : ℕ) / 2 := by
    push_cast
    ring
  rw [roundsDown_div_iff den_pos, RoundsDown, double, lt_div_iff₀ two_pos, eq_div_iff two_ne_zero]
  norm_cast
  have division : den * (num / den) + num % den = num := Nat.div_add_mod num den
  have small : num % den < den := Nat.mod_lt _ positive
  rw [roundDiv]
  generalize num / den = q at division ⊢
  generalize num % den = r at division small ⊢
  rcases Nat.lt_trichotomy q k with less | same | more
  · have below : den * (q + 1) ≤ den * k := Nat.mul_le_mul_left den less
    refine iff_of_true ?_ (.inl (by linarith))
    split
    · omega
    · split <;> omega
  · subst same
    have scaled : num * 2 = (2 * q + 1) * den + 2 * r - den ∧ den ≤ (2 * q + 1) * den := by
      constructor
      · have : (2 * q + 1) * den = 2 * (den * q) + den := by ring
        omega
      · exact Nat.le_mul_of_pos_left den (by omega)
    split
    · omega
    · split <;> omega
  · have above : den * (k + 1) ≤ den * q := Nat.mul_le_mul_left den more
    refine iff_of_false ?_ ?_
    · split
      · omega
      · split <;> omega
    · rintro (less | ⟨same, -⟩)
      · linarith
      · linarith

/-! ### The doubles in order -/

/-- The significand of the `i`-th double upwards from zero. -/
def significandAt (i : Nat) : Nat := if i < 2 ^ 52 then i else 2 ^ 52 + i % 2 ^ 52

/-- The power of two of the last significand bit of the `i`-th double. -/
def exponentAt (i : Nat) : Int := max 1 ((i / 2 ^ 52 : Nat) : Int) - 1075

/-- Half way from the `i`-th double to the next. -/
def halfway (i : Nat) : ℚ := (significandAt i + 1 / 2) * 2 ^ exponentAt i

/-- A number is made up of the significand and the exponent that it stands for; only the least
significands have fewer than 53 bits. -/
theorem significandAt_spec (i : Nat) :
    (i : Int) = (exponentAt i + 1074) * 2 ^ 52 + significandAt i ∧ significandAt i < 2 ^ 53 ∧
      -1074 ≤ exponentAt i ∧ (-1074 < exponentAt i → 2 ^ 52 ≤ significandAt i) := by
  rw [significandAt, exponentAt]
  split
  · omega
  · omega

theorem halfway_pos (i : Nat) : 0 < halfway i := by
  rw [halfway]
  positivity

/-- Below infinity every half way is below the next power of two. -/
theorem halfway_lt {i : Nat} (h : i < 2047 * 2 ^ 52) : halfway i < 2 ^ (1024 : ℤ) := by
  obtain ⟨-, digits, -⟩ := significandAt_spec i
  have power : exponentAt i ≤ 971 := by
    rw [exponentAt]
    omega
  have bound : (significandAt i : ℚ) + 1 / 2 < 2 ^ (53 : ℤ) := by
    have whole : (significandAt i : ℚ) + 1 ≤ 2 ^ 53 := by exact_mod_cast digits
    norm_num at whole ⊢
    linarith
  calc halfway i < 2 ^ (53 : ℤ) * 2 ^ exponentAt i := mul_lt_mul_of_pos_right bound (by positivity)
    _ ≤ 2 ^ (53 : ℤ) * 2 ^ (971 : ℤ) :=
      mul_le_mul_of_nonneg_left (zpow_le_zpow_right₀ one_le_two power) (by positivity)
    _ = 2 ^ (1024 : ℤ) := (zpow_add₀ two_ne_zero _ _).symm

/-- A quotient is counted in units that leave it at most 53 bits, and all of these unless the unit is the
least one. The count is rounded to a natural. -/
theorem exists_units (negative : Bool) {num den : Nat} (hn : num ≠ 0) (hd : 0 < den) :
    ∃ (unit : Int) (count : Nat),
      ofRatio negative num den = ofMagnitude negative ((unit + 1074).toNat * 2 ^ 52 + count) ∧
      -1074 ≤ unit ∧ (num / den : ℚ) < 2 ^ 53 * 2 ^ unit ∧
      (-1074 < unit → 2 ^ 52 * 2 ^ unit ≤ (num / den : ℚ)) ∧
      ∀ k, count ≤ k ↔ RoundsDown k ((k + 1 / 2) * 2 ^ unit) (num / den) := by
  obtain ⟨least, greatest⟩ := binade_spec hn hd
  let unit : Int := max (-1074) (binade num den - 52)
  refine ⟨unit, roundDiv (scaleTwo num den (-unit)).1 (scaleTwo num den (-unit)).2, ?_, ?_, ?_, ?_, ?_⟩
  · rw [ofRatio, if_neg hn]
    rfl
  · exact le_max_left _ _
  · calc (num / den : ℚ) < 2 ^ (binade num den + 1) := greatest
      _ ≤ 2 ^ (53 + unit) := zpow_le_zpow_right₀ one_le_two (by omega)
      _ = 2 ^ 53 * 2 ^ unit := by rw [zpow_add₀ two_ne_zero]; norm_num
  · intro normal
    calc (2 : ℚ) ^ 52 * 2 ^ unit = 2 ^ (52 + unit) := by rw [zpow_add₀ two_ne_zero]; norm_num
      _ = 2 ^ binade num den := by congr 1; omega
      _ ≤ num / den := least
  · intro k
    rw [roundDiv_le_iff (scaleTwo_pos hd num (-unit)), scaleTwo_quotient,
      roundsDown_div_iff (by positivity)]

/-- A quotient is rounded to a double by comparing it with the numbers half way between two doubles. -/
theorem exists_ofRatio_eq (negative : Bool) (num : Nat) {den : Nat} (hd : 0 < den) :
    ∃ m, ofRatio negative num den = ofMagnitude negative m ∧
      ∀ i, m ≤ i ↔ RoundsDown i (halfway i) (num / den) := by
  by_cases hn : num = 0
  · refine ⟨0, by rw [ofRatio, if_pos hn]; rfl, fun i => iff_of_true (Nat.zero_le i) (.inl ?_)⟩
    rw [hn, Nat.cast_zero, zero_div]
    exact halfway_pos i
  obtain ⟨unit, count, rounded, lowest, short, long, counted⟩ := exists_units negative hn hd
  refine ⟨_, rounded, fun i => ?_⟩
  obtain ⟨number, digits, least, normal⟩ := significandAt_spec i
  generalize (num / den : ℚ) = q at short long counted ⊢
  have unit_pos : (0 : ℚ) < 2 ^ unit := by positivity
  have power_pos : (0 : ℚ) < 2 ^ exponentAt i := by positivity
  rcases lt_trichotomy unit (exponentAt i) with less | same | more
  · -- the quotient lies in a lower binade
    have few : count ≤ 2 ^ 53 := by
      refine (counted _).mpr (.inl ?_)
      push_cast
      linarith
    have wide : 2 ^ 52 ≤ significandAt i := normal (by omega)
    have bits : (2 : ℚ) ^ 52 ≤ significandAt i := by exact_mod_cast wide
    refine iff_of_true (by omega) (.inl ?_)
    calc q < 2 ^ 53 * 2 ^ unit := short
      _ = 2 ^ 52 * 2 ^ (unit + 1) := by rw [zpow_add_one₀ two_ne_zero]; ring
      _ ≤ 2 ^ 52 * 2 ^ exponentAt i :=
        mul_le_mul_of_nonneg_left (zpow_le_zpow_right₀ one_le_two less) (by positivity)
      _ ≤ (significandAt i + 1 / 2) * 2 ^ exponentAt i :=
        mul_le_mul_of_nonneg_right (by linarith) power_pos.le
  · -- in the same binade it is a matter of the bits
    subst same
    have parity : significandAt i % 2 = i % 2 := by omega
    have bits := counted (significandAt i)
    rw [RoundsDown, parity] at bits
    rw [halfway, RoundsDown, ← bits]
    omega
  · -- the quotient lies in a higher binade, so it has all its bits
    have long := long (by omega)
    have many : 2 ^ 52 ≤ count := by
      refine Nat.le_of_not_lt fun few => ?_
      have below := ((counted (2 ^ 52 - 1)).mp (by omega)).le
      norm_num at below long
      linarith
    have bits : (significandAt i : ℚ) + 1 ≤ 2 ^ 53 := by exact_mod_cast digits
    refine iff_of_false (by omega) fun down => not_le.mpr ?_ down.le
    calc halfway i < 2 ^ 53 * 2 ^ exponentAt i := mul_lt_mul_of_pos_right (by linarith) power_pos
      _ = 2 ^ 52 * 2 ^ (exponentAt i + 1) := by rw [zpow_add_one₀ two_ne_zero]; ring
      _ ≤ 2 ^ 52 * 2 ^ unit :=
        mul_le_mul_of_nonneg_left (zpow_le_zpow_right₀ one_le_two more) (by positivity)
      _ ≤ q := long

end Binary64

/-! ### Decimal numbers -/

namespace Decimal

/-- The value of a decimal number, sign apart. -/
def magnitude (d : Decimal) : ℚ := d.coefficient * 10 ^ d.exponent

/-- The digits of a number and its power of ten bound its value. -/
theorem magnitude_bounds {d : Decimal} (nonzero : d.coefficient ≠ 0) :
    (10 : ℚ) ^ (d.exponent + (Digits.ofNat d.coefficient).length - 1) ≤ d.magnitude ∧
      d.magnitude < 10 ^ (d.exponent + (Digits.ofNat d.coefficient).length) := by
  have some : 0 < (Digits.ofNat d.coefficient).length := List.length_pos_of_ne_nil (Digits.ofNat_ne_nil _)
  obtain ⟨k, length⟩ : ∃ k, (Digits.ofNat d.coefficient).length = k + 1 :=
    Nat.exists_eq_add_of_lt some |>.imp fun k same => by omega
  have upper : (d.coefficient : ℚ) < 10 ^ (k + 1) := by
    exact_mod_cast (Nat.length_toDigits_le_iff (by decide) (Nat.succ_pos k)).mp (Nat.le_of_eq length)
  have lower : (10 : ℚ) ^ k ≤ d.coefficient := by
    by_contra less
    have less : d.coefficient < 10 ^ k := by exact_mod_cast not_le.mp less
    rcases Nat.eq_zero_or_pos k with rfl | positive
    · omega
    · have short := (Nat.length_toDigits_le_iff (by decide) positive).mpr less
      rw [Digits.ofNat] at length
      omega
  have power_pos : (0 : ℚ) < 10 ^ d.exponent := by positivity
  have ten : (10 : ℚ) ≠ 0 := by norm_num
  rw [length, magnitude]
  constructor
  · calc (10 : ℚ) ^ (d.exponent + ((k + 1 : ℕ) : ℤ) - 1) = 10 ^ k * 10 ^ d.exponent := by
          rw [← zpow_natCast, ← zpow_add₀ ten]
          congr 1
          omega
      _ ≤ d.coefficient * 10 ^ d.exponent := mul_le_mul_of_nonneg_right lower power_pos.le
  · calc (d.coefficient : ℚ) * 10 ^ d.exponent < 10 ^ (k + 1) * 10 ^ d.exponent :=
          mul_lt_mul_of_pos_right upper power_pos
      _ = 10 ^ (d.exponent + ((k + 1 : ℕ) : ℤ)) := by
          rw [← zpow_natCast, ← zpow_add₀ ten, add_comm]

theorem magnitude_eq_ratio (d : Decimal) :
    d.magnitude = (d.coefficient * Nat.pow 10 d.exponent.toNat : ℕ) /
      (Nat.pow 10 (-d.exponent).toNat : ℕ) := by
  rw [magnitude]
  obtain ⟨k, power | power⟩ := d.exponent.eq_nat_or_neg
  · simp [power]
  · simp [power, div_eq_mul_inv]

/-- A power of ten that is rounded to zero. -/
theorem ten_zpow_le_two_zpow {k : Int} (h : k ≤ -324) : (10 : ℚ) ^ k ≤ 2 ^ (-1075 : ℤ) := by
  have bound : (2 : ℚ) ^ 1075 ≤ 10 ^ 324 := by
    exact_mod_cast (show 2 ^ 1075 ≤ 10 ^ 324 by decide +kernel)
  calc (10 : ℚ) ^ k ≤ 10 ^ (-324 : ℤ) := zpow_le_zpow_right₀ (by norm_num) h
    _ = (10 ^ 324)⁻¹ := by rw [zpow_neg]; rfl
    _ ≤ (2 ^ 1075)⁻¹ := inv_anti₀ (by positivity) bound
    _ = 2 ^ (-1075 : ℤ) := by rw [zpow_neg]; rfl

/-- A power of ten that is past all finite doubles. -/
theorem two_zpow_le_ten_zpow {k : Int} (h : 311 ≤ k) : (2 : ℚ) ^ (1024 : ℤ) ≤ 10 ^ k := by
  have bound : (2 : ℚ) ^ 1024 ≤ 10 ^ 311 := by
    exact_mod_cast (show 2 ^ 1024 ≤ 10 ^ 311 by decide +kernel)
  calc (2 : ℚ) ^ (1024 : ℤ) ≤ 10 ^ (311 : ℤ) := bound
    _ ≤ 10 ^ k := zpow_le_zpow_right₀ (by norm_num) h

/-- A decimal number is read as the nearest double, however great or small it is. -/
theorem exists_toBinary64_eq (d : Decimal) :
    ∃ m, d.toBinary64 = .ofMagnitude d.negative m ∧
      ∀ i, m ≤ i ↔ Binary64.RoundsDown i (Binary64.halfway i) d.magnitude := by
  have positive : 0 < Nat.pow 10 (-d.exponent).toNat := Nat.pow_pos (by decide)
  obtain ⟨m, rounded, number⟩ := Binary64.exists_ofRatio_eq d.negative
    (d.coefficient * Nat.pow 10 d.exponent.toNat) positive
  rw [← magnitude_eq_ratio] at number
  refine ⟨m, ?_, number⟩
  rw [toBinary64]
  split
  · next small =>
    -- so small a number is below the first half way
    have below : d.magnitude < Binary64.halfway 0 := by
      by_cases zero : d.coefficient = 0
      · rw [magnitude, zero, Nat.cast_zero, zero_mul]
        exact Binary64.halfway_pos 0
      · have size := small.resolve_left zero
        calc d.magnitude
            < 10 ^ (d.exponent + (Digits.ofNat d.coefficient).length) := (magnitude_bounds zero).2
          _ ≤ 2 ^ (-1075 : ℤ) := ten_zpow_le_two_zpow (by omega)
          _ = Binary64.halfway 0 := by
            rw [Binary64.halfway, show Binary64.significandAt 0 = 0 from rfl,
              show Binary64.exponentAt 0 = -1075 + 1 from rfl, zpow_add_one₀ two_ne_zero]
            generalize (2 : ℚ) ^ (-1075 : ℤ) = unit
            push_cast
            ring
    have none : m = 0 := Nat.le_zero.mp ((number 0).mpr (.inl below))
    rw [none]
    rfl
  next large =>
  split
  · next great =>
    have above : Binary64.halfway (2047 * 2 ^ 52 - 1) < d.magnitude := by
      calc Binary64.halfway (2047 * 2 ^ 52 - 1) < 2 ^ (1024 : ℤ) := Binary64.halfway_lt (by decide)
        _ ≤ 10 ^ (d.exponent + (Digits.ofNat d.coefficient).length - 1) := two_zpow_le_ten_zpow (by omega)
        _ ≤ d.magnitude := (magnitude_bounds (not_or.mp large).1).1
    have infinite : ¬m ≤ 2047 * 2 ^ 52 - 1 := fun few => absurd ((number _).mp few).le (not_le.mpr above)
    rw [Binary64.infinity, Nat.pow_eq]
    exact Binary64.ofMagnitude_congr (by omega)
  · exact rounded

/-- Decimal numbers of one sign and value are read as one double. -/
theorem toBinary64_congr {c d : Decimal} (sign : c.negative = d.negative)
    (value : c.magnitude = d.magnitude) : c.toBinary64 = d.toBinary64 := by
  obtain ⟨m, left, hm⟩ := c.exists_toBinary64_eq
  obtain ⟨n, right, hn⟩ := d.exists_toBinary64_eq
  have same : m = n := by
    apply Nat.le_antisymm
    · rw [hm, value, ← hn]
    · rw [hn, ← value, ← hm]
  rw [left, right, sign, same]

end Decimal

end SearchFilter
