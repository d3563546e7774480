import Mathlib.Algebra.Group.Nat.Defs
import SearchFilter.Proofs.Numerals

/-!
# Whole numbers of 64 bits in JSON

A whole number of 64 bits is read back from its digits as the same number. It could be read as a double
too, since no rounding of so small a number is infinite; so it may stand anywhere in a JSON text.
-/

namespace SearchFilter

/-! ### Sizes of doubles -/

namespace Binary64

theorem roundDiv_le {num den q : Nat} (h : num < q * den) : roundDiv num den ≤ q := by
  have quotient : num / den < q := Nat.div_lt_of_lt_mul (by rwa [Nat.mul_comm] at h)
  rw [roundDiv]
  split
  · omega
  · split <;> omega

theorem exponentField_ofMagnitude_le (negative : Bool) (magnitude : Nat) :
    (ofMagnitude negative magnitude).exponentField ≤ magnitude / 2 ^ 52 := by
  have bits : ((if negative then Nat.pow 2 63 else 0) + min magnitude (2047 * Nat.pow 2 52)) %
      2 ^ 64 / Nat.pow 2 52 % Nat.pow 2 11 ≤ magnitude / 2 ^ 52 := by
    simp only [Nat.pow_eq, Nat.reducePow]
    cases negative <;> simp <;> omega
  exact bits

theorem binade_bounds (num den : Nat) :
    (num.log2 : Int) - den.log2 - 1 ≤ binade num den ∧ binade num den ≤ (num.log2 : Int) - den.log2 := by
  rw [binade]
  dsimp only
  split <;> omega

/-- In units that are not too small for it, a quotient has at most 54 binary digits. -/
theorem roundDiv_scaled_le {num den : Nat} (positive : den ≠ 0) {unit : Int}
    (h : (num.log2 : Int) - den.log2 - 53 ≤ unit) :
    roundDiv (num * 2 ^ (-unit).toNat) (den * 2 ^ (- -unit).toNat) ≤ 2 ^ 54 := by
  refine roundDiv_le ?_
  have upper : num < 2 ^ (num.log2 + 1) := Nat.lt_log2_self
  have lower : 2 ^ den.log2 ≤ den := Nat.log2_self_le positive
  calc num * 2 ^ (-unit).toNat
      < 2 ^ (num.log2 + 1) * 2 ^ (-unit).toNat := Nat.mul_lt_mul_of_pos_right upper (Nat.two_pow_pos _)
    _ = 2 ^ (num.log2 + 1 + (-unit).toNat) := (Nat.pow_add ..).symm
    _ ≤ 2 ^ (54 + (den.log2 + (- -unit).toNat)) := Nat.pow_le_pow_right (by decide) (by omega)
    _ = 2 ^ 54 * (2 ^ den.log2 * 2 ^ (- -unit).toNat) := by rw [Nat.pow_add, Nat.pow_add]
    _ ≤ 2 ^ 54 * (den * 2 ^ (- -unit).toNat) :=
      Nat.mul_le_mul_left _ (Nat.mul_le_mul_right _ lower)

/-- A quotient is rounded to a double whose exponent is not much greater than the length of the
numerator. -/
theorem exponentField_ofRatio_le {num den k : Nat} (small : num < 2 ^ k) (positive : den ≠ 0)
    (negative : Bool) : (ofRatio negative num den).exponentField ≤ k + 1025 := by
  rw [ofRatio]
  by_cases zero : num = 0
  · rw [if_pos zero]
    exact Nat.le_trans (exponentField_ofMagnitude_le negative 0) (Nat.zero_le _)
  · rw [if_neg zero]
    obtain ⟨least, greatest⟩ := binade_bounds num den
    have length : num.log2 < k := (Nat.log2_lt zero).mpr small
    -- the quotient takes up four binades at most, however it was scaled
    have rounded := @roundDiv_scaled_le num den positive (max (-1074) (binade num den - 52)) (by omega)
    refine Nat.le_trans (exponentField_ofMagnitude_le ..) ?_
    simp only [Nat.pow_eq, Nat.reducePow] at rounded ⊢
    omega

theorem significand_lt (x : Binary64) : x.significand < 2 ^ 53 := by
  have fraction : x.fractionField < 2 ^ 52 := Nat.mod_lt _ (by decide)
  rw [significand]
  simp only [Nat.pow_eq, Nat.reducePow] at fraction ⊢
  split <;> omega

/-- The numerator of a double that is not great. -/
theorem ratio_fst_lt {x : Binary64} {k : Nat} (h : x.exponentField ≤ k + 1075) :
    x.ratio.1 < 2 ^ (53 + k) := by
  have power : x.exponent.toNat ≤ k := by
    rw [exponent]
    omega
  show x.significand * 2 ^ x.exponent.toNat < 2 ^ (53 + k)
  rw [Nat.pow_add]
  exact Nat.mul_lt_mul_of_lt_of_le x.significand_lt (Nat.pow_le_pow_right (by decide) power)
    (Nat.two_pow_pos k)

theorem ratio_snd_ne_zero (x : Binary64) : x.ratio.2 ≠ 0 := by
  show 1 * 2 ^ (-x.exponent).toNat ≠ 0
  rw [Nat.one_mul]
  exact Nat.ne_of_gt (Nat.two_pow_pos _)

/-- The product of two whole numbers of 64 bits, each rounded to a double, is finite. -/
theorem isFinite_mul_ofNat {m n : Nat} (hm : m < 2 ^ 64) (hn : n < 2 ^ 64) :
    ((ofNat m).mul (ofNat n)).isFinite = true := by
  have num : (ofNat m).ratio.1 * (ofNat n).ratio.1 < 2 ^ 134 := by
    have left := @ratio_fst_lt (ofNat m) 14 (exponentField_ofRatio_le hm Nat.one_ne_zero false)
    have right := @ratio_fst_lt (ofNat n) 14 (exponentField_ofRatio_le hn Nat.one_ne_zero false)
    have product := Nat.mul_lt_mul'' left right
    rwa [← Nat.pow_add] at product
  have den : (ofNat m).ratio.2 * (ofNat n).ratio.2 ≠ 0 :=
    Nat.mul_ne_zero (ratio_snd_ne_zero _) (ratio_snd_ne_zero _)
  have field := exponentField_ofRatio_le num den ((ofNat m).negative != (ofNat n).negative)
  refine decide_eq_true ?_
  rw [mul]
  omega

end Binary64

/-! ### Whole numbers -/

namespace Json.Numeral

theorem isWhole_ofInt (k : Int) : (ofInt k).isWhole = true := rfl

/-- A 64-bit integer is read back from its numeral. -/
theorem toInt64?_ofInt (n : Int64) : (ofInt n.toInt).toInt64? = some n := by
  have least : -2 ^ 63 ≤ n.toInt := n.le_toInt
  have greatest : n.toInt < 2 ^ 63 := n.toInt_lt
  have value : Digits.toNat (ofInt n.toInt).whole = n.toInt.natAbs := Digits.toNat_ofNat _
  rw [toInt64?, value, isWhole_ofInt]
  by_cases h : n.toInt < 0
  · have sign : (ofInt n.toInt).negative = true := decide_eq_true h
    have size : 0 < n.toInt.natAbs ∧ n.toInt.natAbs ≤ Nat.pow 2 63 := by
      simp only [Nat.pow_eq, Nat.reducePow]
      omega
    have same : -(n.toInt.natAbs : Int) = n.toInt := by omega
    simp only [Bool.not_true, sign, if_pos size, same, Int64.ofInt_toInt]
    rfl
  · have sign : (ofInt n.toInt).negative = false := decide_eq_false h
    have size : n.toInt.natAbs < Nat.pow 2 63 := by
      simp only [Nat.pow_eq, Nat.reducePow]
      omega
    have same : (n.toInt.natAbs : Int) = n.toInt := by omega
    simp only [Bool.not_true, sign, if_pos size, same, Int64.ofInt_toInt]
    rfl

theorem le_foldl (ds : List Char) : ∀ start, start ≤ ds.foldl (fun n d => 10 * n + Digits.value d) start := by
  induction ds with
  | nil => exact fun _ => Nat.le_refl _
  | cons d ds ih =>
    intro start
    exact Nat.le_trans (by omega) (ih (10 * start + Digits.value d))

/-- Digits of a number below `2 ^ 64` are all taken. -/
theorem significand_eq (ds : List Char) : ∀ start,
    ds.foldl (fun n d => 10 * n + Digits.value d) start < UInt64.size →
      significand start ds = (ds.foldl (fun n d => 10 * n + Digits.value d) start, 0) := by
  induction ds with
  | nil => exact fun _ _ => rfl
  | cons d ds ih =>
    intro start small
    have next : 10 * start + Digits.value d < UInt64.size := Nat.lt_of_le_of_lt (le_foldl ds _) small
    rw [significand, if_pos next]
    exact ih _ small

/-- A whole number of 64 bits stands for a double too. -/
theorem isSome_toBinary64?_ofInt (n : Int64) : (ofInt n.toInt).toBinary64?.isSome = true := by
  have size : n.toInt.natAbs < 2 ^ 64 := by
    have least : -2 ^ 63 ≤ n.toInt := n.le_toInt
    have greatest : n.toInt < 2 ^ 63 := n.toInt_lt
    omega
  have digits : significand 0 (ofInt n.toInt).whole = (n.toInt.natAbs, 0) := by
    have value := Digits.toNat_ofNat n.toInt.natAbs
    rw [Digits.toNat] at value
    rw [significand_eq _ 0 (by rw [ofInt, value]; exact size), ofInt, value]
  have finite : ((Binary64.ofNat n.toInt.natAbs).mul (.ofNat 1)).isFinite = true :=
    Binary64.isFinite_mul_ofNat size (by decide)
  have scaled : scaleTen? (.ofNat n.toInt.natAbs) 0 =
      some ((Binary64.ofNat n.toInt.natAbs).mul (.ofNat 1)) := by
    rw [scaleTen?, if_neg (by decide), if_pos (by decide)]
    exact if_pos finite
  rw [toBinary64?, digits]
  show ((scaleTen? (.ofNat n.toInt.natAbs) 0).map _).isSome = true
  rw [scaled]
  rfl

end Json.Numeral

end SearchFilter
