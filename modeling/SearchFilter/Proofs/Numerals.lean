import Mathlib.Data.List.Basic
import SearchFilter.Json.Source

/-!
# Numbers in JSON text

A number is read back as it is spelt, whatever may follow it in a JSON text. Whole numbers are spelt by
their digits alone; a finite double has a point or a power of ten, so that the two are never taken for
each other.
-/

namespace SearchFilter

/-! ### Digits -/

namespace Digits

theorem isDigit_of_mem_ofNat {n : Nat} : ∀ d ∈ ofNat n, d.isDigit = true :=
  fun _ hd => Nat.isDigit_of_mem_toDigits (by decide) (by decide) hd

theorem ofNat_ne_nil (n : Nat) : ofNat n ≠ [] := Nat.toDigits_ne_nil

theorem toNat_ofNat (n : Nat) : toNat (ofNat n) = n := Nat.ofDigitChars_ten_toDigits

/-- No needless zero stands in front of the digits of a natural. -/
theorem head?_ofNat {n : Nat} (h : n ≠ 0) : (ofNat n).head? ≠ some '0' := by
  induction n using Nat.strongRecOn with
  | ind n ih =>
    rcases Nat.lt_or_ge n 10 with small | large
    · have digit : ∀ d < 10, d ≠ 0 → [Nat.digitChar d].head? ≠ some '0' := by decide
      rw [ofNat, Nat.toDigits_of_lt_base small]
      exact digit n small h
    · rw [ofNat, Nat.toDigits_of_base_le (by decide) large,
        List.head?_append_of_ne_nil _ Nat.toDigits_ne_nil]
      exact ih (n / 10) (by omega) (by omega)

/-- Before the digits of a natural no zero stands, unless it is the only digit. -/
theorem length_of_head?_ofNat {n : Nat} (h : (ofNat n).head? = some '0') : (ofNat n).length = 1 := by
  by_cases zero : n = 0
  · rw [zero]
    rfl
  · exact absurd h (head?_ofNat zero)

theorem isDigit_of_mem_replicate {k : Nat} : ∀ d ∈ List.replicate k '0', d.isDigit = true := by
  intro d hd
  rw [List.eq_of_mem_replicate hd]
  rfl

/-- Digits are taken up to the first character that is none. -/
theorem span_append {ds rest : List Char} (digits : ∀ d ∈ ds, d.isDigit = true)
    (stop : ∀ c ∈ rest.head?, c.isDigit = false) : span (ds ++ rest) = (ds, rest) := by
  rw [span, List.takeWhile_append_of_pos digits, List.dropWhile_append_of_pos digits]
  cases rest with
  | nil => simp
  | cons c rest => simp [stop c rfl]

end Digits

namespace Json

/-- What may follow a value in a JSON text. -/
inductive Follows : List Char → Prop where
  /-- The end of the text. -/
  | nothing : Follows []
  /-- A further item or field. -/
  | comma (cs : List Char) : Follows (',' :: cs)
  /-- The end of a list. -/
  | bracket (cs : List Char) : Follows (']' :: cs)
  /-- The end of an object. -/
  | brace (cs : List Char) : Follows ('\x7d' :: cs)

theorem Follows.isDigit_eq_false {rest : List Char} (h : Follows rest) :
    ∀ c ∈ rest.head?, c.isDigit = false := by
  cases h <;> simp

namespace Numeral

/-! ### Spelling -/

/-- Digits after a point, if there are any. -/
def fractionChars : List Char → List Char
  | [] => []
  | ds => '.' :: ds

/-- A power of ten with its sign, if there is one. -/
def powerChars : Option Int → List Char
  | none => []
  | some k => 'e' :: (if k < 0 then '-' else '+') :: Digits.ofNat k.natAbs

/-- A numeral as it is spelt. -/
def chars (n : Numeral) : List Char :=
  Decimal.signText n.negative ++ (n.whole ++ (fractionChars n.fraction ++ powerChars n.power))

/-- A numeral that can be read: digits without a needless zero in front. -/
structure WellFormed (n : Numeral) : Prop where
  /-- There is a digit before the point. -/
  nonempty : n.whole ≠ []
  /-- Only digits stand before the point. -/
  whole : ∀ d ∈ n.whole, d.isDigit = true
  /-- A zero in front stands alone. -/
  lead : n.whole.head? = some '0' → n.whole.length = 1
  /-- Only digits stand after the point. -/
  fraction : ∀ d ∈ n.fraction, d.isDigit = true

/-! ### Reading -/

theorem fraction?_append {ds rest : List Char} (digits : ∀ d ∈ ds, d.isDigit = true)
    (stop : ∀ c ∈ rest.head?, c.isDigit = false ∧ c ≠ '.') :
    Source.fraction? (fractionChars ds ++ rest) = some (ds, rest) := by
  cases ds with
  | nil =>
    unfold Source.fraction?
    split
    · next cs h => exact absurd rfl (stop '.' (by rw [show rest = '.' :: cs from h]; rfl)).2
    · rfl
  | cons d ds =>
    have read := Digits.span_append digits fun c hc => (stop c hc).1
    show Source.fraction? ('.' :: (d :: ds ++ rest)) = _
    rw [Source.fraction?, read]

theorem power?_append (power : Option Int) {rest : List Char} (follows : Follows rest) :
    Source.power? (powerChars power ++ rest) = some (power, rest) := by
  cases power with
  | none => cases follows <;> rfl
  | some k =>
    have digits := Digits.span_append (@Digits.isDigit_of_mem_ofNat k.natAbs) follows.isDigit_eq_false
    have sign : readSign ((if k < 0 then '-' else '+') :: (Digits.ofNat k.natAbs ++ rest)) =
        (decide (k < 0), Digits.ofNat k.natAbs ++ rest) := by
      by_cases h : k < 0
      · rw [if_pos h, decide_eq_true h]
        rfl
      · rw [if_neg h, decide_eq_false h]
        rfl
    show Source.power? ('e' :: (if k < 0 then '-' else '+') :: (Digits.ofNat k.natAbs ++ rest)) = _
    rw [Source.power?, if_pos (.inl rfl), sign]
    simp only [digits]
    split
    · next none => exact absurd (Prod.mk.inj none).1 (Digits.ofNat_ne_nil _)
    · next ds tail _ found =>
      obtain ⟨rfl, rfl⟩ := Prod.mk.inj found
      rw [Digits.toNat_ofNat]
      by_cases h : k < 0
      · rw [decide_eq_true h, if_pos rfl]
        congr 3
        omega
      · rw [decide_eq_false h, if_neg Bool.false_ne_true]
        congr 3
        omega

/-- What stands after the digits in front of a numeral is neither a digit nor, without a fraction, a
point. -/
theorem head?_powerChars_append (power : Option Int) {rest : List Char} (follows : Follows rest) :
    ∀ c ∈ (powerChars power ++ rest).head?, c.isDigit = false ∧ c ≠ '.' := by
  cases power with
  | none => cases follows <;> simp [powerChars]
  | some k => simp [powerChars]

/-- A numeral is read back as it is spelt. -/
theorem numeral?_chars_append {n : Numeral} (h : n.WellFormed) {rest : List Char}
    (follows : Follows rest) : Source.numeral? (n.chars ++ rest) = some (n, rest) := by
  obtain ⟨negative, whole, fraction, power⟩ := n
  let tail := fractionChars fraction ++ (powerChars power ++ rest)
  have stop : ∀ c ∈ tail.head?, c.isDigit = false := by
    cases fraction with
    | nil => exact fun c hc => (head?_powerChars_append power follows c hc).1
    | cons d ds => simp [tail, fractionChars]
  have digits : Digits.span (whole ++ tail) = (whole, tail) := Digits.span_append h.whole stop
  have lead : ¬ (whole = [] ∨ (whole.head? = some '0' ∧ whole.length ≠ 1)) := by
    rintro (empty | ⟨zero, long⟩)
    · exact h.nonempty empty
    · exact long (h.lead zero)
  have unsigned : ∀ cs, whole ++ tail = '-' :: cs → False := by
    intro cs minus
    have first : '-' ∈ whole.head? := by
      rw [← List.head?_append_of_ne_nil whole h.nonempty, minus]
      rfl
    exact absurd (h.whole '-' (List.mem_of_mem_head? first)) (by decide)
  have text : chars ⟨negative, whole, fraction, power⟩ ++ rest =
      Decimal.signText negative ++ (whole ++ tail) := by
    simp [chars, tail]
  have fractionRead := fraction?_append h.fraction (head?_powerChars_append power follows)
  have powerRead := power?_append power follows
  rw [text]
  cases negative with
  | true =>
    show Source.numeral? ('-' :: (whole ++ tail)) = _
    rw [Source.numeral?]
    simp only [digits, if_neg lead, tail, fractionRead, powerRead, Option.bind_eq_bind, Option.bind_some]
    rfl
  | false =>
    show Source.numeral? (whole ++ tail) = _
    rw [Source.numeral?.eq_2 _ unsigned]
    simp only [digits, if_neg lead, tail, fractionRead, powerRead, Option.bind_eq_bind, Option.bind_some]
    rfl

/-- A numeral begins with a minus sign or a digit. -/
theorem WellFormed.exists_chars_eq {n : Numeral} (h : n.WellFormed) :
    ∃ c cs, n.chars = c :: cs ∧ (c = '-' ∨ c.isDigit = true) := by
  cases negative : n.negative with
  | true =>
    rw [chars, negative]
    exact ⟨_, _, rfl, .inl rfl⟩
  | false =>
    obtain ⟨d, ds, whole⟩ := List.exists_cons_of_ne_nil h.nonempty
    rw [chars, negative, whole]
    exact ⟨_, _, rfl, .inr (h.whole d (whole ▸ List.mem_cons_self))⟩

/-! ### Whole numbers -/

/-- The numeral of an integer. -/
def ofInt (k : Int) : Numeral := ⟨k < 0, Digits.ofNat k.natAbs, [], none⟩

theorem chars_ofInt (k : Int) : (ofInt k).chars = Digits.ofInt k := by
  cases k with
  | ofNat n => simp [chars, ofInt, Digits.ofInt, Decimal.signText, fractionChars, powerChars]
  | negSucc n =>
    simp [chars, ofInt, Digits.ofInt, Decimal.signText, fractionChars, powerChars, Int.negSucc_lt_zero]

theorem wellFormed_ofInt (k : Int) : (ofInt k).WellFormed where
  nonempty := Digits.ofNat_ne_nil _
  whole := Digits.isDigit_of_mem_ofNat
  lead := Digits.length_of_head?_ofNat
  fraction := nofun

/-! ### Decimal numbers -/

/-- The numeral of a decimal number with a point among or around its digits. -/
def positional (d : Decimal) : Numeral :=
  let ds := Digits.ofNat d.coefficient
  let places := (-d.exponent).toNat
  if 0 ≤ d.exponent then ⟨d.negative, ds ++ List.replicate d.exponent.toNat '0', ['0'], none⟩
  else if places < ds.length then
    ⟨d.negative, ds.take (ds.length - places), ds.drop (ds.length - places), none⟩
  else ⟨d.negative, ['0'], List.replicate (places - ds.length) '0' ++ ds, none⟩

/-- The numeral of a decimal number with one digit before the point and a power of ten. -/
def scientific (d : Decimal) : Numeral :=
  let ds := Digits.ofNat d.coefficient
  ⟨d.negative, ds.take 1, ds.drop 1, some (d.exponent + ds.length - 1)⟩

theorem fractionChars_of_ne_nil {ds : List Char} (h : ds ≠ []) : fractionChars ds = '.' :: ds := by
  cases ds with
  | nil => exact absurd rfl h
  | cons d ds => rfl

/-- A digit stands after the point. -/
theorem fraction_positional_ne_nil (d : Decimal) : (positional d).fraction ≠ [] := by
  rw [positional]
  split
  · exact List.cons_ne_nil _ _
  · split
    · next short =>
      rw [ne_eq, List.drop_eq_nil_iff]
      omega
    · exact List.append_ne_nil_of_right_ne_nil _ (Digits.ofNat_ne_nil _)

theorem chars_positional (d : Decimal) : (positional d).chars = d.positional ['.', '0'] := by
  rw [chars, fractionChars_of_ne_nil (fraction_positional_ne_nil d), positional, Decimal.positional]
  split
  · simp [powerChars]
  · split
    · simp [powerChars]
    · simp [powerChars]

theorem chars_scientific (d : Decimal) : (scientific d).chars = d.scientific := by
  rw [scientific, Decimal.scientific, chars]
  dsimp only
  split
  · next single => simp [List.drop_eq_nil_of_le single, fractionChars, powerChars]
  · next several =>
    have rest : (Digits.ofNat d.coefficient).drop 1 ≠ [] := by
      rw [ne_eq, List.drop_eq_nil_iff]
      exact several
    simp only [fractionChars_of_ne_nil rest, powerChars, List.append_assoc, List.cons_append]

theorem wellFormed_positional {d : Decimal} (h : 0 < d.exponent → d.coefficient ≠ 0) :
    (positional d).WellFormed := by
  have digits := @Digits.isDigit_of_mem_ofNat d.coefficient
  have nonempty := Digits.ofNat_ne_nil d.coefficient
  have lead := @Digits.length_of_head?_ofNat d.coefficient
  rw [positional]
  split
  · refine ⟨?_, ?_, ?_, ?_⟩
    · exact List.append_ne_nil_of_left_ne_nil nonempty _
    · exact List.forall_mem_append.mpr ⟨digits, Digits.isDigit_of_mem_replicate⟩
    · -- zeros are written after the digits of a number that is not zero
      intro zero
      rw [List.head?_append_of_ne_nil _ nonempty] at zero
      have whole : ¬ 0 < d.exponent := fun positive => Digits.head?_ofNat (h positive) zero
      rw [List.length_append, lead zero, List.length_replicate]
      omega
    · simp
  · split
    · next short =>
      refine ⟨?_, ?_, ?_, ?_⟩
      · rw [ne_eq, List.take_eq_nil_iff]
        rintro (none | empty)
        · omega
        · exact nonempty empty
      · exact fun c hc => digits c (List.mem_of_mem_take hc)
      · intro zero
        rw [List.head?_take, if_neg (by omega)] at zero
        have := lead zero
        omega
      · exact fun c hc => digits c (List.mem_of_mem_drop hc)
    · refine ⟨List.cons_ne_nil _ _, ?_, fun _ => rfl, ?_⟩
      · simp
      · exact List.forall_mem_append.mpr ⟨Digits.isDigit_of_mem_replicate, digits⟩

theorem wellFormed_scientific (d : Decimal) : (scientific d).WellFormed := by
  have digits := @Digits.isDigit_of_mem_ofNat d.coefficient
  have nonempty := Digits.ofNat_ne_nil d.coefficient
  have length : ((Digits.ofNat d.coefficient).take 1).length = 1 := by
    rw [List.length_take]
    have := List.length_pos_of_ne_nil nonempty
    omega
  refine ⟨?_, ?_, fun _ => length, ?_⟩
  · intro empty
    rw [show (Digits.ofNat d.coefficient).take 1 = [] from empty] at length
    cases length
  · exact fun c hc => digits c (List.mem_of_mem_take hc)
  · exact fun c hc => digits c (List.mem_of_mem_drop hc)

end Numeral

end Json

/-! ### Doubles -/

namespace Binary64

theorem Rounding.contains_pos {r : Rounding} {step c : Nat} (low : 0 < r.low)
    (h : r.contains step c = true) : 0 < c := by
  refine Nat.pos_of_ne_zero fun zero => ?_
  rw [Rounding.contains, zero] at h
  split at h
  · simp at h
    omega
  · simp at h

/-- What rounds to a double that is not zero is not zero. -/
theorem Rounding.nearest?_pos {r : Rounding} {tie : Tie} {power : Int} {c : Nat} (low : 0 < r.low)
    (h : r.nearest? tie power = some c) : 0 < c := by
  have least : 0 < (r.onGrid power).low := Nat.mul_pos low (Nat.pow_pos (by decide))
  unfold Rounding.nearest? at h
  dsimp only at h
  split at h
  · cases h
  · next inside _ =>
    cases h
    exact contains_pos least inside
  · cases h
    exact Nat.succ_pos _
  · next inside _ =>
    have positive := contains_pos least inside
    split at h
    · cases h
      exact positive
    · split at h
      · cases h
        exact Nat.succ_pos _
      · cases tie with
        | up =>
          cases h
          exact Nat.succ_pos _
        | even =>
          cases h
          exact Nat.add_pos_left positive _

theorem Rounding.coarsest_pos {r : Rounding} {tie : Tie} (low : 0 < r.low) (steps : Nat)
    (h : 0 < (r.coarsest tie steps).2) : 0 < (r.coarsest tie steps).1 := by
  induction steps with
  | zero => exact absurd (show 0 < leastPower from h) (by decide)
  | succ steps ih =>
    rw [Rounding.coarsest] at h ⊢
    cases found : r.nearest? tie (leastPower + (steps + 1 : Nat)) with
    | some c => exact nearest?_pos low found
    | none =>
      rw [found] at h
      exact ih h

theorem rounding_low_pos {x : Binary64} (h : x.isZero = false) : 0 < x.rounding.low := by
  have significand : 0 < x.significand := by
    rw [Binary64.significand]
    split
    · next least =>
      rw [isZero, least] at h
      simp at h
      omega
    · exact Nat.add_pos_left (Nat.pow_pos (by decide)) _
  have unit : 0 < (scaleTwo 1 1 (x.exponent - 2)).1 :=
    Nat.mul_pos Nat.one_pos (Nat.pow_pos (by decide))
  refine Nat.mul_pos ?_ unit
  split <;> omega

/-- The digits of a double that is not zero are not all zero. -/
theorem shortest_coefficient_ne_zero {tie : Tie} {x : Binary64} (h : 0 < (x.shortest tie).exponent) :
    (x.shortest tie).coefficient ≠ 0 := by
  rw [shortest] at h ⊢
  cases zero : x.isZero with
  | true =>
    rw [zero, if_pos rfl] at h
    exact absurd (show (0 : Int) < 0 from h) (by decide)
  | false =>
    rw [zero, if_neg Bool.false_ne_true] at h
    rw [if_neg Bool.false_ne_true]
    exact Nat.ne_of_gt (Rounding.coarsest_pos (rounding_low_pos zero) 655 h)

/-- The numeral that a finite double is written as. -/
def numeral (x : Binary64) : Json.Numeral :=
  let d := x.shortest .even
  let power : Int := d.exponent + (Digits.ofNat d.coefficient).length - 1
  if -5 ≤ power ∧ power < 16 then .positional d else .scientific d

theorem chars_numeral (x : Binary64) : x.numeral.chars = x.toJsonText := by
  rw [numeral, toJsonText]
  split
  · exact Json.Numeral.chars_positional _
  · exact Json.Numeral.chars_scientific _

theorem wellFormed_numeral (x : Binary64) : x.numeral.WellFormed := by
  rw [numeral]
  split
  · exact Json.Numeral.wellFormed_positional shortest_coefficient_ne_zero
  · exact Json.Numeral.wellFormed_scientific _

/-- A double is never spelt like a whole number. -/
theorem isWhole_numeral (x : Binary64) : x.numeral.isWhole = false := by
  rw [numeral]
  split
  · simp [Json.Numeral.isWhole, Json.Numeral.fraction_positional_ne_nil]
  · simp [Json.Numeral.scientific, Json.Numeral.isWhole]

end Binary64

end SearchFilter
