import SearchFilter.Proofs.Overflow
import SearchFilter.Proofs.ShortestDecimals
import SearchFilter.Proofs.TextSearch

/-!
# Words in text columns

On a text column a bare word is searched for between two `%`. It is not searched for as it was typed if it
is spelt like a number, since it is a number by then: what is searched for is the text of that number
(`Searched`). This is the word itself for just those numbers that are spelt as numbers are written
(`Unchanged`): whole numbers of 64 bits by their digits, others as the shortest decimal of a double.
-/

namespace SearchFilter

/-! ### Written numbers are numbers -/

namespace Digits

theorem toNat_append_zeros (ds : List Char) (k : Nat) :
    toNat (ds ++ List.replicate k '0') = toNat ds * 10 ^ k := by
  induction k with
  | zero => simp
  | succ k ih =>
    rw [toNat] at ih
    rw [List.replicate_succ', ← List.append_assoc, toNat, List.foldl_append, ih, Nat.pow_succ,
      ← Nat.mul_assoc]
    exact Nat.mul_comm ..

theorem toNat_zeros_append (ds : List Char) (k : Nat) : toNat (List.replicate k '0' ++ ds) = toNat ds := by
  induction k with
  | zero => rfl
  | succ k ih => exact ih

theorem isRun_ofNat (n : Nat) : IsRun (ofNat n) := ⟨ofNat_ne_nil n, isDigit_of_mem_ofNat⟩

end Digits

theorem Decimal.signText_signText (negative : Bool) : SignText negative (signText negative) := by
  cases negative with
  | false => exact .none
  | true => exact .minus

/-- A decimal number is written with as many digits after the point as it has places. -/
theorem DecimalText.of_pointed {s : Decimal} {whole fraction : List Char} (run : Digits.IsRun whole)
    (digits : ∀ d ∈ fraction, d.isDigit = true) (value : Digits.toNat (whole ++ fraction) = s.coefficient)
    (places : s.exponent = -(fraction.length : Int)) :
    DecimalText s (Decimal.signText s.negative ++ (whole ++ '.' :: fraction)) := by
  have text := intro (Decimal.signText_signText s.negative) (.pointed run digits) .none
  rwa [List.append_nil, value, Int.zero_sub, ← places] at text

/-- What is written without a power of ten is a decimal number of the same value. -/
theorem Decimal.exists_decimalText_positional (s : Decimal) :
    ∃ d, DecimalText d (s.positional []) ∧ d.negative = s.negative ∧ d.magnitude = s.magnitude := by
  have run := Digits.isRun_ofNat s.coefficient
  have value := Digits.toNat_ofNat s.coefficient
  rw [positional]
  generalize Digits.ofNat s.coefficient = ds at run value ⊢
  split
  · next whole =>
    have digits : Digits.IsRun (ds ++ List.replicate s.exponent.toNat '0') :=
      ⟨List.append_ne_nil_of_left_ne_nil run.1 _,
        List.forall_mem_append.mpr ⟨run.2, Digits.isDigit_of_mem_replicate⟩⟩
    refine ⟨_, .intro (signText_signText s.negative) (.whole digits) .none, rfl, ?_⟩
    obtain ⟨k, power⟩ := Int.eq_ofNat_of_zero_le whole
    rw [magnitude, magnitude, List.append_nil, Digits.toNat_append_zeros, value, power]
    simp
  next fractional =>
  refine ⟨s, ?_, rfl, rfl⟩
  split
  · next short =>
    refine .of_pointed ⟨?_, fun d hd => run.2 d (List.mem_of_mem_take hd)⟩
      (fun d hd => run.2 d (List.mem_of_mem_drop hd)) ?_ ?_
    · rw [ne_eq, List.take_eq_nil_iff, not_or]
      exact ⟨by omega, run.1⟩
    · rw [List.take_append_drop, value]
    · rw [List.length_drop]
      omega
  · next long =>
    have digits : ∀ d ∈ List.replicate ((-s.exponent).toNat - ds.length) '0' ++ ds, d.isDigit = true :=
      List.forall_mem_append.mpr ⟨Digits.isDigit_of_mem_replicate, run.2⟩
    refine .of_pointed ⟨List.cons_ne_nil '0' [], by simp⟩ digits ?_ ?_
    · exact (Digits.toNat_zeros_append ds (_ + 1)).trans value
    · rw [List.append_eq, List.length_append, List.length_replicate]
      omega

/-! ### What is searched for -/

/-- What a bare word is searched for on a text column. -/
inductive Searched : List Char → List Char → Prop where
  /-- A word that is not spelt like a number, as it stands. -/
  | word {w : List Char} : (∀ d, ¬DecimalText d w) → Searched w w
  /-- A whole number of 64 bits, by its digits. -/
  | integer {n : Int64} {w : List Char} : IntegerText n.toInt w → Searched w (Digits.ofInt n.toInt)
  /-- Any other decimal number, as the shortest decimal of the nearest double. -/
  | decimal {d s : Decimal} {w : List Char} : (∀ n : Int64, ¬IntegerText n.toInt w) → DecimalText d w →
      s.IsShortest d.toBinary64 → Searched w (s.positional [])

/-- The words that are searched for as they stand. -/
inductive Unchanged : List Char → Prop where
  /-- A word that is not spelt like a number. -/
  | word {w : List Char} : (∀ d, ¬DecimalText d w) → Unchanged w
  /-- The digits of a whole number of 64 bits. -/
  | integer (n : Int64) : Unchanged (Digits.ofInt n.toInt)
  /-- The shortest decimal of a double, without a power of ten. -/
  | decimal {s : Decimal} {x : Binary64} : s.IsShortest x →
      (∀ n : Int64, ¬IntegerText n.toInt (s.positional [])) → Unchanged (s.positional [])

theorem IntegerText.ofInt (n : Int) : IntegerText n (Digits.ofInt n) :=
  readInteger?_eq_some_iff.mp (readInteger?_ofInt n)

theorem IntegerText.unique {k l : Int} {w : List Char} (h : IntegerText k w) (h' : IntegerText l w) : k = l :=
  Option.some.inj ((readInteger?_eq_some_iff.mpr h).symm.trans (readInteger?_eq_some_iff.mpr h'))

theorem DecimalText.unique {c d : Decimal} {w : List Char} (h : DecimalText c w) (h' : DecimalText d w) :
    c = d :=
  Option.some.inj ((Decimal.read?_eq_some_iff.mpr h).symm.trans (Decimal.read?_eq_some_iff.mpr h'))

namespace Searched

variable {w text text' : List Char}

/-- A word is searched for in one way. -/
theorem unique (h : Searched w text) (h' : Searched w text') : text = text' := by
  cases h with
  | word plain =>
    cases h' with
    | word _ => rfl
    | integer whole =>
      obtain ⟨d, decimal⟩ := whole.exists_decimalText
      exact absurd decimal (plain d)
    | decimal _ decimal _ => exact absurd decimal (plain _)
  | integer whole =>
    cases h' with
    | word plain =>
      obtain ⟨d, decimal⟩ := whole.exists_decimalText
      exact absurd decimal (plain d)
    | integer whole' => rw [whole.unique whole']
    | decimal large _ _ => exact absurd whole (large _)
  | decimal large decimal short =>
    cases h' with
    | word plain => exact absurd decimal (plain _)
    | integer whole => exact absurd whole (large _)
    | decimal _ decimal' short' =>
      obtain rfl := decimal.unique decimal'
      rw [short.unique short']

/-- The words that are searched for as they stand. -/
theorem self_iff : Searched w w ↔ Unchanged w := by
  constructor
  · intro h
    generalize same : w = text at h
    cases h with
    | word plain => exact .word plain
    | integer _ => exact same ▸ .integer _
    | decimal large _ short =>
      subst same
      exact .decimal short large
  · intro h
    cases h with
    | word plain => exact .word plain
    | integer n => exact .integer (.ofInt _)
    | @decimal s _ short large =>
      obtain ⟨d, text, sign, value⟩ := s.exists_decimalText_positional
      refine .decimal large text ?_
      rwa [Decimal.toBinary64_congr sign value, short.toBinary64_eq]

/-- What is searched for is the word itself for just the words that stay as they are. -/
theorem eq_iff (h : Searched w text) : text = w ↔ Unchanged w := by
  rw [← self_iff]
  exact ⟨fun same => same ▸ h, fun self => h.unique self⟩

end Searched

/-! ### Conditions -/

/-- A word for a value is searched for by the text of the value, if it does not overflow. -/
theorem BareText.searched {v : Literal} {w : List Char} (h : BareText v w)
    (notNull : w.map Char.toLower ≠ "null".toList) (notTrue : w.map Char.toLower ≠ "true".toList)
    (notFalse : w.map Char.toLower ≠ "false".toList) :
    ∃ text, (Value.ofLiteral v).text? = some (String.ofList text) ∧ (¬Overflows w → Searched w text) := by
  cases h with
  | null same => exact absurd same notNull
  | true same => exact absurd same notTrue
  | false same => exact absurd same notFalse
  | integer whole => exact ⟨_, rfl, fun _ => .integer whole⟩
  | @float d _ large decimal =>
    refine ⟨_, rfl, fun finite => ?_⟩
    have bound : d.toBinary64.isFinite = Bool.true :=
      d.isFinite_toBinary64_iff.mpr (not_le.mp fun great => finite ⟨d, decimal, great⟩)
    rw [Binary64.toText, d.isNaN_toBinary64, bound]
    exact .decimal large decimal (Binary64.isShortest_shortest bound)
  | string _ _ _ plain => exact ⟨w, rfl, fun _ => .word plain⟩

/-- Signs, powers of ten, and digits past 64 bits are lost, but no digit of a whole number of 64 bits is. -/
example : ["+5", "-0", "-0.0", "1e3", "9007199254740993", "12345678901234567891", "1.2.3"].map
    (fun w => (Value.ofLiteral (.ofBare w.toList)).text?) =
      ["5", "0", "-0", "1000", "9007199254740993", "12345678901234567000", "1.2.3"].map some := by
  decide +kernel

namespace Term

/-- On a text column, equality with a bare word other than `null`, `true` and `false` is a search between
two `%`. What is searched for is the word itself for just the words that stay as they are. (The numbers
that are too great for a double are left open.) -/
theorem predicate_bare {w : List Char} (notNull : w.map Char.toLower ≠ "null".toList)
    (notTrue : w.map Char.toLower ≠ "true".toList) (notFalse : w.map Char.toLower ≠ "false".toList)
    (field : FieldPath) (span : Span) (tableAlias column : String) (issued : Nat) :
    ∃ text,
      (mk field .eq (.ofBare w) false span).predicate tableAlias column (.scalar .text) issued =
        .like (lowered (.columnOf tableAlias column)) (lowered (.param ⟨parameterKey (issued + 1),
          .string ("%" ++ String.ofList text ++ "%")⟩)) ∧
      (¬Overflows w → Searched w text ∧ (text = w ↔ Unchanged w)) := by
  obtain ⟨text, found, searched⟩ := (Literal.bareText_ofBare w).searched notNull notTrue notFalse
  refine ⟨text, ?_, fun finite => ⟨searched finite, (searched finite).eq_iff⟩⟩
  have present : (Literal.ofBare w).isNull = false := by
    cases value : Literal.ofBare w with
    | null =>
      rw [value] at found
      cases found
    | _ => rfl
  rw [predicate_text rfl present rfl, found]
  rfl

/-- A price with a zero at the end is searched for without it. -/
theorem predicate_bare_price :
    let w := "1.50".toList
    let t : Term := ⟨⟨["price"]⟩, .eq, .ofBare w, false, .nowhere⟩
    w.map Char.toLower ≠ "null".toList ∧ w.map Char.toLower ≠ "true".toList ∧
      w.map Char.toLower ≠ "false".toList ∧ ¬Overflows w ∧
      t.predicate "items" "price" (.scalar .text) 0 =
        .like (lowered (.columnOf "items" "price")) (lowered (.param ⟨"p1", .string "%1.5%"⟩)) ∧
      Searched w "1.5".toList ∧ ¬Unchanged w := by
  intro w t
  have notNull : w.map Char.toLower ≠ "null".toList := by decide
  have notTrue : w.map Char.toLower ≠ "true".toList := by decide
  have notFalse : w.map Char.toLower ≠ "false".toList := by decide
  have finite : ¬Overflows w := by
    rw [← Literal.isNonFinite_ofBare_iff]
    rintro ⟨x, value, infinite⟩
    have read : Literal.ofBare w = .float ⟨0x3FF8000000000000⟩ := by decide +kernel
    cases read.symm.trans value
    cases infinite
  obtain ⟨text, predicate, searched⟩ :=
    predicate_bare notNull notTrue notFalse ⟨["price"]⟩ .nowhere "items" "price" 0
  have shown : (Value.ofLiteral (.ofBare w)).text? = some "1.5" := by decide +kernel
  have pattern := predicate_text (t := t) rfl (by decide +kernel) rfl "items" "price" 0
  rw [show t.value = .ofBare w from rfl, shown] at pattern
  have same : text = "1.5".toList := by
    have bound : "%" ++ String.ofList text ++ "%" = "%1.5%" := by
      simpa [lowered] using predicate.symm.trans pattern
    have ends : text ++ ['%'] = "1.5".toList ++ ['%'] := by
      simpa using congrArg String.toList bound
    exact List.append_cancel_right ends
  subst same
  obtain ⟨searched, unchanged⟩ := searched finite
  refine ⟨notNull, notTrue, notFalse, finite, pattern, searched, fun stays => ?_⟩
  exact absurd (unchanged.mpr stays) (by decide)

/-- Zeros in front of a number are not searched for. -/
theorem predicate_bare_zeros :
    let w := "007".toList
    let t : Term := ⟨⟨["zip"]⟩, .eq, .ofBare w, false, .nowhere⟩
    let search (text : String) : Expr :=
      .like (lowered (.columnOf "shops" "zip")) (lowered (.param ⟨"p1", .string ("%" ++ text ++ "%")⟩))
    w ≠ [] ∧ w.all Lexeme.isBareChar = true ∧ w.map Char.toLower ≠ "null".toList ∧
      w.map Char.toLower ≠ "true".toList ∧ w.map Char.toLower ≠ "false".toList ∧
      t.predicate "shops" "zip" (.scalar .text) 0 = search "7" ∧
      t.predicate "shops" "zip" (.scalar .text) 0 ≠ search (String.ofList w) := by
  intro w t search
  have value : (Value.ofLiteral t.value).text? = some "7" := by decide +kernel
  have found : t.predicate "shops" "zip" (.scalar .text) 0 = search "7" := by
    rw [predicate_text rfl (by decide +kernel) rfl, value]
    rfl
  refine ⟨by decide, by decide, by decide, by decide, by decide, found, ?_⟩
  rw [found]
  simp [search, lowered, w]

end Term

end SearchFilter
