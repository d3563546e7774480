import SearchFilter.Proofs.BareWords
import SearchFilter.Proofs.Emission
import SearchFilter.Proofs.Grammar
import SearchFilter.Proofs.JsonText
import SearchFilter.Proofs.Rounding
import SearchFilter.Query.JsonForm

/-!
# Numbers that are too great

A decimal number is read as the nearest double, and from `Binary64.overflow` on that is an infinity. A
query may hold such a number, of any length and with any power of ten. So a value of a query that was
read is never a NaN, and it is infinite exactly if its word is written as a number past that bound
(`Group.read_valueFrom`). JSON has no infinite numbers: such a value is written as `null`, and searched
for as `null` in a JSON array, as if the term had no value.
-/

namespace SearchFilter

namespace Binary64

/-! ### The bound -/

/-- The least number that is rounded to infinity, midway between the greatest double and the next power
of two. -/
def overflow : ℚ := (2 ^ 54 - 1) * 2 ^ (970 : ℤ)

theorem zpow_le_overflow {k : Int} (h : k ≤ 1023) : (2 : ℚ) ^ k ≤ overflow := by
  calc (2 : ℚ) ^ k ≤ 2 ^ (53 + 970 : ℤ) := zpow_le_zpow_right₀ one_le_two h
    _ = 2 ^ (53 : ℤ) * 2 ^ (970 : ℤ) := zpow_add₀ two_ne_zero _ _
    _ ≤ (2 ^ 54 - 1) * 2 ^ (970 : ℤ) := mul_le_mul_of_nonneg_right (by norm_num) (by positivity)

/-- The last half way, past which there is no finite double. -/
theorem halfway_last : halfway (2047 * 2 ^ 52 - 1) = overflow := by
  rw [halfway, overflow, show significandAt (2047 * 2 ^ 52 - 1) = 2 ^ 53 - 1 from rfl,
    show exponentAt (2047 * 2 ^ 52 - 1) = 970 + 1 from rfl, zpow_add_one₀ two_ne_zero]
  generalize (2 : ℚ) ^ (970 : ℤ) = unit
  norm_num
  ring

end Binary64

namespace Decimal

/-- A decimal number is read as a finite double if it is below the overflow. -/
theorem isFinite_toBinary64_iff (d : Decimal) :
    d.toBinary64.isFinite = true ↔ d.magnitude < Binary64.overflow := by
  obtain ⟨m, rounded, number⟩ := d.exists_toBinary64_eq
  -- the last finite double has an odd number, so a tie is infinite
  have last := number (2047 * 2 ^ 52 - 1)
  rw [Binary64.RoundsDown, Binary64.halfway_last,
    or_iff_left fun tie => absurd tie.2 (by decide)] at last
  rw [rounded, Binary64.isFinite_ofMagnitude_iff, ← last]
  omega

theorem isNaN_toBinary64 (d : Decimal) : d.toBinary64.isNaN = false := by
  obtain ⟨m, rounded, -⟩ := d.exists_toBinary64_eq
  rw [rounded, Binary64.isNaN_ofMagnitude]

end Decimal

/-! ### Words -/

/-- A word that is written as a decimal number which is rounded to infinity. -/
def Overflows (w : List Char) : Prop := ∃ d, DecimalText d w ∧ Binary64.overflow ≤ d.magnitude

/-- A whole number of 64 bits does not overflow. -/
theorem IntegerText.not_overflows {n : Int64} {w : List Char} (h : IntegerText n.toInt w) :
    ¬Overflows w := by
  rintro ⟨d, text, great⟩
  generalize value : n.toInt = k at h
  cases h with
  | @intro negative sign ds signed digits =>
    have whole := DecimalText.intro signed (.whole digits) .none
    rw [List.append_nil, ← Decimal.read?_eq_some_iff,
      Decimal.read?_eq_some_iff.mpr text] at whole
    cases whole
    have least : -2 ^ 63 ≤ n.toInt := n.le_toInt
    have greatest : n.toInt < 2 ^ 63 := n.toInt_lt
    have small : Digits.toNat ds ≤ 2 ^ 63 := by
      split at value
      · omega
      · omega
    refine not_lt.mpr great ?_
    calc (Digits.toNat ds : ℚ) * 10 ^ (0 - (0 : ℤ))
        = Digits.toNat ds := by rw [sub_zero, zpow_zero, mul_one]
      _ ≤ 2 ^ 63 := by exact_mod_cast small
      _ < 2 ^ (64 : ℤ) := by norm_num
      _ ≤ Binary64.overflow := Binary64.zpow_le_overflow (by decide)

namespace Literal

/-- A float that is infinite or a NaN, for which JSON has no number. -/
def IsNonFinite (v : Literal) : Prop := ∃ x, v = .float x ∧ x.isFinite = false

/-- A bare word is read as a number that is not finite if it overflows. -/
theorem isNonFinite_ofBare_iff (w : List Char) : (ofBare w).IsNonFinite ↔ Overflows w := by
  constructor
  · rintro ⟨x, same, infinite⟩
    cases ofBare_eq_iff.mp same with
    | @float d _ _ text =>
      refine ⟨d, text, not_lt.mp fun less => ?_⟩
      rw [d.isFinite_toBinary64_iff.mpr less] at infinite
      cases infinite
  · rintro ⟨d, text, great⟩
    have large : ∀ n : Int64, ¬IntegerText n.toInt w :=
      fun n whole => whole.not_overflows ⟨d, text, great⟩
    refine ⟨d.toBinary64, ofBare_eq_iff.mpr (.float large text), Bool.eq_false_iff.mpr fun finite => ?_⟩
    exact not_lt.mpr great (d.isFinite_toBinary64_iff.mp finite)

theorem isNaN_of_ofBare {w : List Char} {x : Binary64} (h : ofBare w = .float x) : x.isNaN = false := by
  cases ofBare_eq_iff.mp h with
  | float _ _ => exact Decimal.isNaN_toBinary64 _

end Literal

/-! ### JSON -/

/-- The values whose JSON text is `null`. -/
theorem Json.compact_eq_null_iff (j : Json) :
    j.compact = "null" ↔ j = .null ∨ ∃ x, j = .float x ∧ x.isFinite = false := by
  constructor
  · intro h
    have source : j.source = .null :=
      Option.some.inj ((read?_compact j).symm.trans ((congrArg Source.read? h).trans (read?_compact .null)))
    cases j with
    | null => exact .inl rfl
    | float x =>
      rw [Json.source] at source
      split at source
      · cases source
      · next infinite => exact .inr ⟨x, rfl, Bool.eq_false_iff.mpr infinite⟩
    | bool b => cases source
    | int n => cases source
    | string s => cases source
    | array items => cases source
    | object fields => cases source
  · rintro (rfl | ⟨x, rfl, infinite⟩)
    · rfl
    · rw [compact, chars, floatChars, infinite]
      rfl

theorem Literal.compact_toJson_eq_null_iff (v : Literal) :
    v.toJson.compact = "null" ↔ v = .null ∨ v.IsNonFinite := by
  rw [Json.compact_eq_null_iff, IsNonFinite]
  cases v <;> simp [toJson]

theorem Value.compact_toJson_ofLiteral_eq_null_iff (v : Literal) :
    (Value.ofLiteral v).toJson.compact = "null" ↔ v = .null ∨ v.IsNonFinite := by
  rw [Json.compact_eq_null_iff, Literal.IsNonFinite]
  cases v with
  | float x =>
    cases h : x.isFinite with
    | true => simp [ofLiteral, toJson, h]
    | false => simp [ofLiteral, toJson, h]
  | string s => simp [ofLiteral, toJson]
  | integer n => simp [ofLiteral, toJson]
  | boolean b => simp [ofLiteral, toJson]
  | null => simp [ofLiteral, toJson]

/-! ### Terms -/

/-- What is known of the value of a term that is written as `w`. -/
structure Term.ValueFrom (t : Term) (w : List Char) : Prop where
  /-- It is read as any value is. -/
  written : ValueText t.value w
  /-- It is never a NaN. -/
  number : ∀ x, t.value = .float x → x.isNaN = false
  /-- It is infinite if it overflows. -/
  infinite : t.value.IsNonFinite ↔ Overflows w
  /-- A value that overflows, but no other, is written as JSON as if the term had none. -/
  json : t.value ≠ .null → (t.value.toJson.compact = "null" ↔ Overflows w)
  /-- Such a value, but no other, is searched for in JSON arrays as `null`. -/
  bound : t.comparator = .eq → ∀ tableAlias column n,
    ((t.predicate tableAlias column .jsonArray n).bindings.map Binding.value = [.string "null"] ↔
      Overflows w)

theorem ValueText.isNonFinite_iff {v : Literal} {w : List Char} (h : ValueText v w) :
    v.IsNonFinite ↔ Overflows w := by
  cases h with
  | quoted _ =>
    refine iff_of_false ?_ ?_
    · rintro ⟨x, same, -⟩
      cases same
    · rintro ⟨d, text, -⟩
      exact absurd ((Literal.isDecimal_of_decimalText text).2 '"' List.mem_cons_self) (by decide)
  | bare _ _ => exact Literal.isNonFinite_ofBare_iff w

theorem ValueText.isNaN_eq_false {x : Binary64} {w : List Char} (h : ValueText (.float x) w) :
    x.isNaN = false := by
  generalize same : Literal.float x = v at h
  cases h with
  | quoted _ => cases same
  | bare _ _ => exact Literal.isNaN_of_ofBare same.symm

/-- What is known of a value follows from how it is written. -/
theorem ValueText.valueFrom {t : Term} {w : List Char} (h : ValueText t.value w) : t.ValueFrom w where
  written := h
  number x float := (float ▸ h).isNaN_eq_false
  infinite := h.isNonFinite_iff
  json present := by
    rw [Literal.compact_toJson_eq_null_iff, or_iff_right present, h.isNonFinite_iff]
  bound equality tableAlias column n := by
    have value : t.boundValue .jsonArray = .string (Value.ofLiteral t.value).toJson.compact := by
      simp only [Term.boundValue, equality]
    rw [bindings_predicate, value, ← h.isNonFinite_iff]
    by_cases null : t.value = .null
    · rw [null]
      simp [Literal.isNull, Literal.IsNonFinite]
    · have present : t.value.isNull = false := by
        cases hv : t.value with
        | null => exact absurd hv null
        | _ => rfl
      rw [present, ← or_iff_right (b := t.value.IsNonFinite) null,
        ← Value.compact_toJson_ofLiteral_eq_null_iff]
      simp

/-- The values of the terms that were read from a text. -/
theorem Group.read_valueFrom {text : String} {g : Group} {t : Term} (h : Group.read text = .ok g)
    (ht : t ∈ g.terms) : ∃ w, w <:+: text.toList ∧ t.ValueFrom w := by
  obtain ⟨ls, split, made⟩ := Option.bind_eq_some_iff.mp (Group.read_eq_ok_iff.mp h)
  rw [(ofLexemes?_spec made).1] at ht
  obtain ⟨before, inside, after, whole, written, -⟩ := (Laid.of_all? split).exists_place t ht
  cases written with
  | @intro _ negation value _ _ valued _ =>
    refine ⟨value, ⟨before ++ (negation ++ (t.field.text.toList ++ ':' :: t.comparator.mark)), after,
      ?_⟩, valued.valueFrom⟩
    rw [whole]
    simp only [List.append_assoc, List.cons_append]

/-- What a test finds out about a text that was read. -/
theorem Group.exists_read {text : String} {p : Group → Bool}
    (h : (Group.read text).toOption.any p = true) : ∃ g, Group.read text = .ok g ∧ p g = true := by
  cases read : Group.read text with
  | error e =>
    rw [read] at h
    cases h
  | ok g =>
    rw [read] at h
    exact ⟨g, rfl, h⟩

/-- Numbers on both sides of the overflow, also next to it, and texts that are spelt like numbers. -/
theorem Group.read_valueFrom_mixed :
    let text := "a:1e308 or (b:179769313486231580793e288 c:-179769313486231580794e288) d:\"1e999\" e:inf"
    let values := ["1e+308", "1.7976931348623157e+308", "null", "\"1e999\"", "\"inf\""]
    ∃ g, Group.read text = .ok g ∧ g.terms.map (fun t => t.value.toJson.compact) = values ∧
      ∀ t ∈ g.terms, ∃ w, w <:+: text.toList ∧ t.ValueFrom w := by
  intro text values
  have written : (Group.read text).toOption.any
      (fun g => g.terms.map (fun t => t.value.toJson.compact) = values) = true := by
    decide +kernel
  obtain ⟨g, read, found⟩ := exists_read written
  exact ⟨g, read, of_decide_eq_true found, fun t ht => read_valueFrom read ht⟩

/-- The value of a term may be infinite, and is then written, and searched for, as `null`. -/
theorem Group.read_infinite :
    ∃ g, Group.read "a:1e999" = .ok g ∧
      g.terms.map Term.value = [.float (.infinity false)] ∧
      g.terms.map (fun t => t.value.toJson.compact) = ["null"] ∧
      g.terms.flatMap (fun t => (t.predicate "r" "a" .jsonArray 0).bindings.map Binding.value) =
        [.string "null"] := by
  have values : (Group.read "a:1e999").toOption.any (fun g =>
      g.terms.map Term.value = [.float (.infinity false)] ∧
      g.terms.map (fun t => t.value.toJson.compact) = ["null"] ∧
      g.terms.flatMap (fun t => (t.predicate "r" "a" .jsonArray 0).bindings.map Binding.value) =
        [.string "null"]) = true := by
    decide +kernel
  obtain ⟨g, read, found⟩ := exists_read values
  exact ⟨g, read, of_decide_eq_true found⟩

end SearchFilter
