import SearchFilter.Proofs.Printing

/-!
# What bare words stand for

A word without quotes is `null`, a truth value, a whole number of 64 bits, a decimal number or a text.
Which of these it is follows from how it is spelt. The rules here say so with no reader in them
(`IntegerText`, `DecimalText`, `BareText`). The readers of numbers find just the numbers that are
written so, and the order in which the readers are tried is of no account: each word has one reading
(`Literal.ofBare_eq_iff`).
-/

namespace SearchFilter

open Lexeme Text

/-! ### How numbers are written -/

/-- How a sign is written: `+` is the same as none. -/
inductive SignText : Bool → List Char → Prop where
  /-- No sign. -/
  | none : SignText false []
  /-- A plus sign. -/
  | plus : SignText false ['+']
  /-- A minus sign. -/
  | minus : SignText true ['-']

/-- One or more decimal digits. -/
def Digits.IsRun (ds : List Char) : Prop := ds ≠ [] ∧ ∀ d ∈ ds, d.isDigit = true

/-- How a whole number is written: a sign and digits. -/
inductive IntegerText : Int → List Char → Prop where
  /-- The digits give the number, sign apart. -/
  | intro {negative : Bool} {sign ds : List Char} : SignText negative sign → Digits.IsRun ds →
      IntegerText (if negative then -(Digits.toNat ds : Int) else Digits.toNat ds) (sign ++ ds)

/-- How the digits before and after a decimal point are written. -/
inductive MantissaText : List Char → List Char → List Char → Prop where
  /-- Digits without a point. -/
  | whole {whole : List Char} : Digits.IsRun whole → MantissaText whole [] whole
  /-- Digits, a point, and any number of digits. -/
  | pointed {whole fraction : List Char} : Digits.IsRun whole → (∀ d ∈ fraction, d.isDigit = true) →
      MantissaText whole fraction (whole ++ '.' :: fraction)
  /-- A point and digits. -/
  | fraction {fraction : List Char} : Digits.IsRun fraction → MantissaText [] fraction ('.' :: fraction)

/-- How a power of ten is written. -/
inductive PowerText : Int → List Char → Prop where
  /-- None. -/
  | none : PowerText 0 []
  /-- A mark and a whole number. -/
  | marked {mark : Char} {k : Int} {text : List Char} : mark = 'e' ∨ mark = 'E' → IntegerText k text →
      PowerText k (mark :: text)

/-- How a decimal number is written: a sign, digits and a power of ten. -/
inductive DecimalText : Decimal → List Char → Prop where
  /-- Digits after the point lower the power of ten. -/
  | intro {negative : Bool} {sign whole fraction mantissa power : List Char} {k : Int} :
      SignText negative sign → MantissaText whole fraction mantissa → PowerText k power →
      DecimalText ⟨negative, Digits.toNat (whole ++ fraction), k - fraction.length⟩
        (sign ++ (mantissa ++ power))

/-! ### Reading signs and whole numbers -/

theorem Digits.ne_sign_of_isDigit {c : Char} (h : c.isDigit = true) : c ≠ '-' ∧ c ≠ '+' := by
  constructor
  · rintro rfl
    cases h
  · rintro rfl
    cases h

namespace SignText

variable {negative : Bool} {sign : List Char}

/-- A sign is read where one stands, if no second one follows. -/
theorem readSign (h : SignText negative sign) {rest : List Char}
    (unsigned : ∀ c ∈ rest.head?, c ≠ '-' ∧ c ≠ '+') :
    SearchFilter.readSign (sign ++ rest) = (negative, rest) := by
  cases h with
  | plus => rfl
  | minus => rfl
  | none =>
    rw [List.nil_append]
    unfold SearchFilter.readSign
    split
    · exact absurd rfl (unsigned '-' rfl).1
    · exact absurd rfl (unsigned '+' rfl).2
    · rfl

theorem isDecimalChar (h : SignText negative sign) : ∀ c ∈ sign, Literal.isDecimalChar c = true := by
  cases h with
  | none => exact nofun
  | plus => exact List.forall_mem_singleton.mpr rfl
  | minus => exact List.forall_mem_singleton.mpr rfl

end SignText

/-- What is read as a sign is written as one. -/
theorem exists_signText (cs : List Char) :
    ∃ sign, cs = sign ++ (readSign cs).2 ∧ SignText (readSign cs).1 sign := by
  unfold readSign
  split
  · exact ⟨['-'], rfl, .minus⟩
  · exact ⟨['+'], rfl, .plus⟩
  · exact ⟨[], rfl, .none⟩

theorem Digits.IsRun.unsigned {ds : List Char} (h : IsRun ds) (rest : List Char) :
    ∀ c ∈ (ds ++ rest).head?, c ≠ '-' ∧ c ≠ '+' := by
  intro c hc
  rw [List.head?_append_of_ne_nil ds h.1] at hc
  exact ne_sign_of_isDigit (h.2 c (List.mem_of_mem_head? hc))

/-- Whole numbers are read where they are written. -/
theorem readInteger?_eq_some_iff {cs : List Char} {k : Int} :
    readInteger? cs = some k ↔ IntegerText k cs := by
  constructor
  · intro h
    obtain ⟨sign, split, written⟩ := exists_signText cs
    unfold readInteger? at h
    dsimp only at h
    split at h
    · next digits =>
      cases h
      have text := IntegerText.intro written ⟨digits.1, List.all_eq_true.mp digits.2⟩
      rwa [← split] at text
    · cases h
  · rintro ⟨sign, digits⟩
    have unsigned := digits.unsigned []
    rw [List.append_nil] at unsigned
    rw [readInteger?, sign.readSign unsigned]
    exact if_pos ⟨digits.1, List.all_eq_true.mpr digits.2⟩

/-! ### Reading decimal numbers -/

namespace Decimal

/-- Digits after a point, if a point comes next, and what follows them. -/
def fractionSpan : List Char → List Char × List Char
  | '.' :: cs => Digits.span cs
  | cs => ([], cs)

/-- The parts of a decimal number are read one after another. -/
theorem read?_eq {cs body rest tail whole fraction : List Char} {negative : Bool}
    (sign : readSign cs = (negative, body)) (digits : Digits.span body = (whole, rest))
    (point : fractionSpan rest = (fraction, tail)) :
    read? cs = if whole ++ fraction = [] then none else (readExponent? tail).map fun k =>
      ⟨negative, Digits.toNat (whole ++ fraction), k - fraction.length⟩ := by
  have parts : read? cs = if whole ++ (fractionSpan rest).1 = [] then none
      else (readExponent? (fractionSpan rest).2).bind fun k =>
        some ⟨negative, Digits.toNat (whole ++ (fractionSpan rest).1),
          k - (fractionSpan rest).1.length⟩ := by
    unfold read?
    rw [sign]
    dsimp only
    rw [digits]
    rfl
  rw [parts, point, Option.map_eq_bind]
  rfl

theorem readExponent?_eq_some_iff {cs : List Char} {k : Int} :
    readExponent? cs = some k ↔ PowerText k cs := by
  cases cs with
  | nil =>
    constructor
    · intro h
      cases h
      exact .none
    · rintro ⟨⟩
      rfl
  | cons c cs =>
    rw [readExponent?]
    constructor
    · intro h
      split at h
      · next mark => exact .marked mark (readInteger?_eq_some_iff.mp h)
      · cases h
    · rintro (_ | ⟨mark, text⟩)
      rw [if_pos mark]
      exact readInteger?_eq_some_iff.mpr text

end Decimal

/-- No power of ten begins with a digit or a point. -/
theorem PowerText.head {k : Int} {power : List Char} (h : PowerText k power) :
    ∀ c ∈ power.head?, c.isDigit = false ∧ c ≠ '.' := by
  cases h with
  | none => exact nofun
  | marked mark _ =>
    rintro c ⟨⟩
    rcases mark with rfl | rfl
    · decide
    · decide

namespace MantissaText

variable {whole fraction mantissa : List Char}

theorem ne_nil (h : MantissaText whole fraction mantissa) : whole ++ fraction ≠ [] := by
  cases h with
  | whole digits => exact List.append_ne_nil_of_left_ne_nil digits.1 _
  | pointed digits _ => exact List.append_ne_nil_of_left_ne_nil digits.1 _
  | fraction digits => exact digits.1

theorem unsigned (h : MantissaText whole fraction mantissa) (rest : List Char) :
    ∀ c ∈ (mantissa ++ rest).head?, c ≠ '-' ∧ c ≠ '+' := by
  cases h with
  | whole digits => exact digits.unsigned rest
  | pointed digits _ =>
    rw [List.append_assoc]
    exact digits.unsigned _
  | fraction _ =>
    rintro c ⟨⟩
    decide

/-- The digits before a point are taken first, then those after it. -/
theorem spans (h : MantissaText whole fraction mantissa) {rest : List Char}
    (stop : ∀ c ∈ rest.head?, c.isDigit = false ∧ c ≠ '.') :
    ∃ tail, Digits.span (mantissa ++ rest) = (whole, tail) ∧
      Decimal.fractionSpan tail = (fraction, rest) := by
  have ends : ∀ c ∈ rest.head?, c.isDigit = false := fun c hc => (stop c hc).1
  cases h with
  | whole digits =>
    refine ⟨rest, Digits.span_append digits.2 ends, ?_⟩
    unfold Decimal.fractionSpan
    split
    · exact absurd rfl (stop '.' rfl).2
    · rfl
  | pointed digits more =>
    refine ⟨'.' :: (fraction ++ rest), ?_, Digits.span_append more ends⟩
    rw [List.append_assoc]
    refine Digits.span_append digits.2 ?_
    rintro c ⟨⟩
    rfl
  | fraction digits => exact ⟨'.' :: (fraction ++ rest), rfl, Digits.span_append digits.2 ends⟩

end MantissaText

/-- What is taken as digits around a point is written so. -/
theorem exists_mantissaText {body rest tail whole fraction : List Char}
    (digits : Digits.span body = (whole, rest)) (point : Decimal.fractionSpan rest = (fraction, tail))
    (nonempty : whole ++ fraction ≠ []) :
    ∃ mantissa, body = mantissa ++ tail ∧ MantissaText whole fraction mantissa := by
  have taken {cs ds after : List Char} (h : Digits.span cs = (ds, after)) :
      cs = ds ++ after ∧ ∀ d ∈ ds, d.isDigit = true := by
    cases h
    exact ⟨List.takeWhile_append_dropWhile.symm, List.all_eq_true.mp List.all_takeWhile⟩
  obtain ⟨rfl, before⟩ := taken digits
  unfold Decimal.fractionSpan at point
  split at point
  · next cs =>
    obtain ⟨rfl, after⟩ := taken point
    by_cases none : whole = []
    · subst none
      exact ⟨'.' :: fraction, rfl, .fraction ⟨nonempty, after⟩⟩
    · refine ⟨whole ++ '.' :: fraction, ?_, .pointed ⟨none, before⟩ after⟩
      simp only [List.append_assoc, List.cons_append]
  · cases point
    rw [List.append_nil] at nonempty
    exact ⟨whole, rfl, .whole ⟨nonempty, before⟩⟩

/-- Decimal numbers are read where they are written. -/
theorem Decimal.read?_eq_some_iff {cs : List Char} {d : Decimal} :
    read? cs = some d ↔ DecimalText d cs := by
  constructor
  · intro h
    obtain ⟨sign, signed, written⟩ := exists_signText cs
    rcases hs : readSign cs with ⟨negative, body⟩
    rcases hw : Digits.span body with ⟨whole, rest⟩
    rcases hf : fractionSpan rest with ⟨fraction, tail⟩
    rw [hs] at signed written
    rw [read?_eq hs hw hf] at h
    split at h
    · cases h
    · next nonempty =>
      obtain ⟨k, power, rfl⟩ := Option.map_eq_some_iff.mp h
      obtain ⟨mantissa, rfl, digits⟩ := exists_mantissaText hw hf nonempty
      rw [signed]
      exact .intro written digits (readExponent?_eq_some_iff.mp power)
  · rintro ⟨sign, digits, power⟩
    obtain ⟨tail, before, after⟩ := digits.spans power.head
    rw [read?_eq (sign.readSign (digits.unsigned _)) before after, if_neg digits.ne_nil,
      readExponent?_eq_some_iff.mpr power, Option.map_some]

/-! ### Numbers and other words -/

namespace Literal

theorem isDecimalChar_of_isDigit {c : Char} (h : c.isDigit = true) : isDecimalChar c = true := by
  simp only [isDecimalChar, h, Bool.true_or]

/-- Digits around a point hold a digit, and nothing but characters of decimal numbers. -/
theorem isDecimal_of_mantissaText {whole fraction mantissa : List Char}
    (h : MantissaText whole fraction mantissa) :
    (∃ c ∈ mantissa, c.isDigit = true) ∧ ∀ c ∈ mantissa, isDecimalChar c = true := by
  have first {ds : List Char} (run : Digits.IsRun ds) : ∃ c ∈ ds, c.isDigit = true := by
    obtain ⟨c, ds, rfl⟩ := List.exists_cons_of_ne_nil run.1
    exact ⟨c, List.mem_cons_self, run.2 c List.mem_cons_self⟩
  have all {ds : List Char} (digits : ∀ d ∈ ds, d.isDigit = true) : ∀ c ∈ ds, isDecimalChar c = true :=
    fun c hc => isDecimalChar_of_isDigit (digits c hc)
  cases h with
  | whole digits => exact ⟨first digits, all digits.2⟩
  | pointed digits more =>
    obtain ⟨c, hc, digit⟩ := first digits
    refine ⟨⟨c, List.mem_append_left _ hc, digit⟩, ?_⟩
    exact List.forall_mem_append.mpr ⟨all digits.2, List.forall_mem_cons.mpr ⟨rfl, all more⟩⟩
  | fraction digits =>
    obtain ⟨c, hc, digit⟩ := first digits
    exact ⟨⟨c, List.mem_cons_of_mem _ hc, digit⟩, List.forall_mem_cons.mpr ⟨rfl, all digits.2⟩⟩

theorem isDecimalChar_of_powerText {k : Int} {power : List Char} (h : PowerText k power) :
    ∀ c ∈ power, isDecimalChar c = true := by
  cases h with
  | none => exact nofun
  | marked mark text =>
    refine List.forall_mem_cons.mpr ⟨?_, ?_⟩
    · rcases mark with rfl | rfl
      · rfl
      · rfl
    · exact (isDecimal_of_readInteger? (readInteger?_eq_some_iff.mpr text)).2

/-- The test for words that may be numbers lets all decimal numbers pass. -/
theorem looksDecimal_of_decimalText {d : Decimal} {w : List Char} (h : DecimalText d w) :
    looksDecimal w = true := by
  obtain ⟨sign, digits, power⟩ := h
  obtain ⟨⟨c, hc, digit⟩, decimal⟩ := isDecimal_of_mantissaText digits
  rw [looksDecimal, Bool.and_eq_true, List.any_eq_true, List.all_eq_true]
  refine ⟨⟨c, List.mem_append_right _ (List.mem_append_left _ hc), digit⟩, ?_⟩
  refine List.forall_mem_append.mpr ⟨sign.isDecimalChar, List.forall_mem_append.mpr ⟨decimal, ?_⟩⟩
  exact isDecimalChar_of_powerText power

theorem isDecimal_of_decimalText {d : Decimal} {w : List Char} (h : DecimalText d w) : IsDecimal w := by
  obtain ⟨digit, all⟩ := Bool.and_eq_true_iff.mp (looksDecimal_of_decimalText h)
  refine ⟨?_, List.all_eq_true.mp all⟩
  rintro rfl
  cases digit

end Literal

/-- A whole number is a decimal number without point and power. -/
theorem IntegerText.exists_decimalText {k : Int} {w : List Char} (h : IntegerText k w) :
    ∃ d, DecimalText d w := by
  obtain ⟨sign, digits⟩ := h
  have text := DecimalText.intro sign (.whole digits) .none
  rw [List.append_nil] at text
  exact ⟨_, text⟩

/-- What a bare word stands for, by its spelling. -/
inductive BareText : Literal → List Char → Prop where
  /-- The word `null` in any letter case. -/
  | null {w : List Char} : w.map Char.toLower = "null".toList → BareText .null w
  /-- The word `true` in any letter case. -/
  | true {w : List Char} : w.map Char.toLower = "true".toList → BareText (.boolean true) w
  /-- The word `false` in any letter case. -/
  | false {w : List Char} : w.map Char.toLower = "false".toList → BareText (.boolean false) w
  /-- A whole number of 64 bits. -/
  | integer {n : Int64} {w : List Char} : IntegerText n.toInt w → BareText (.integer n) w
  /-- Any other decimal number. -/
  | float {d : Decimal} {w : List Char} : (∀ n : Int64, ¬IntegerText n.toInt w) → DecimalText d w →
      BareText (.float d.toBinary64) w
  /-- Any other word. -/
  | string {w : List Char} : w.map Char.toLower ≠ "null".toList → w.map Char.toLower ≠ "true".toList →
      w.map Char.toLower ≠ "false".toList → (∀ d, ¬DecimalText d w) →
      BareText (.string (String.ofList w)) w

namespace Literal

theorem int64?_eq_some_iff {k : Int} {n : Int64} : int64? k = some n ↔ k = n.toInt := by
  constructor
  · intro h
    unfold int64? at h
    split at h
    · next fits =>
      cases h
      exact (Int64.toInt_ofInt_of_le fits.1 (Int.lt_add_one_of_le fits.2)).symm
    · cases h
  · rintro rfl
    exact int64?_toInt n

/-- A whole number of 64 bits is read where one is written. -/
theorem readInteger64?_eq_some_iff {w : List Char} {n : Int64} :
    (readInteger? w).bind int64? = some n ↔ IntegerText n.toInt w := by
  simp only [Option.bind_eq_some_iff, readInteger?_eq_some_iff, int64?_eq_some_iff, exists_eq_right]

/-- A decimal number is read where one is written. -/
theorem readDecimal?_eq_some_iff {w : List Char} {d : Decimal} :
    (if looksDecimal w then Decimal.read? w else none) = some d ↔ DecimalText d w := by
  rw [← Decimal.read?_eq_some_iff]
  constructor
  · intro h
    split at h
    · exact h
    · cases h
  · intro h
    rw [if_pos (looksDecimal_of_decimalText (Decimal.read?_eq_some_iff.mp h))]
    exact h

theorem equalsIgnoringCase_iff (w : List Char) (s : String) (lower : s.toList.map Char.toLower = s.toList) :
    equalsIgnoringCase w s.toList = true ↔ w.map Char.toLower = s.toList := by
  rw [equalsIgnoringCase, beq_iff_eq, lower]

/-- A word is spelt as what it is read as. -/
theorem bareText_ofBare (w : List Char) : BareText (ofBare w) w := by
  unfold ofBare
  split
  · next same => exact .null ((equalsIgnoringCase_iff w "null" (by decide)).mp same)
  next notNull =>
  split
  · next same => exact .true ((equalsIgnoringCase_iff w "true" (by decide)).mp same)
  next notTrue =>
  split
  · next same => exact .false ((equalsIgnoringCase_iff w "false" (by decide)).mp same)
  next notFalse =>
  split
  · next n read => exact .integer (readInteger64?_eq_some_iff.mp read)
  next whole =>
  split
  · next d read =>
    refine .float (fun n text => ?_) (readDecimal?_eq_some_iff.mp read)
    rw [readInteger64?_eq_some_iff.mpr text] at whole
    cases whole
  next decimal =>
  rw [equalsIgnoringCase_iff w "null" (by decide)] at notNull
  rw [equalsIgnoringCase_iff w "true" (by decide)] at notTrue
  rw [equalsIgnoringCase_iff w "false" (by decide)] at notFalse
  refine .string notNull notTrue notFalse fun d text => ?_
  rw [readDecimal?_eq_some_iff.mpr text] at decimal
  cases decimal

end Literal

namespace BareText

variable {v : Literal} {w : List Char}

/-- A word is read as what it is spelt as. -/
theorem ofBare_eq (h : BareText v w) : Literal.ofBare w = v := by
  have absent {α : Type} {o : Option α} (h : ∀ x, o ≠ some x) : o = none :=
    Option.eq_none_iff_forall_ne_some.mpr h
  have spelt (s : String) (lower : s.toList.map Char.toLower = s.toList)
      (same : w.map Char.toLower = s.toList) : equalsIgnoringCase w s.toList = Bool.true :=
    (Literal.equalsIgnoringCase_iff w s lower).mpr same
  have other (s : String) (lower : s.toList.map Char.toLower = s.toList)
      (different : w.map Char.toLower ≠ s.toList) : ¬equalsIgnoringCase w s.toList = Bool.true :=
    fun same => different ((Literal.equalsIgnoringCase_iff w s lower).mp same)
  cases h with
  | null same => rw [Literal.ofBare, if_pos (spelt "null" (by decide) same)]
  | true same =>
    rw [Literal.ofBare, if_neg (other "null" (by decide) (by rw [same]; decide)),
      if_pos (spelt "true" (by decide) same)]
  | false same =>
    rw [Literal.ofBare, if_neg (other "null" (by decide) (by rw [same]; decide)),
      if_neg (other "true" (by decide) (by rw [same]; decide)), if_pos (spelt "false" (by decide) same)]
  | integer text =>
    obtain ⟨d, decimal⟩ := text.exists_decimalText
    rw [(Literal.isDecimal_of_decimalText decimal).ofBare_eq,
      Literal.readInteger64?_eq_some_iff.mpr text]
  | @float d _ large text =>
    have whole := absent fun n read => large n (Literal.readInteger64?_eq_some_iff.mp read)
    rw [(Literal.isDecimal_of_decimalText text).ofBare_eq, whole,
      Literal.readDecimal?_eq_some_iff.mpr text]
  | string notNull notTrue notFalse plain =>
    have whole := absent fun n read => by
      obtain ⟨d, decimal⟩ := (Literal.readInteger64?_eq_some_iff.mp read).exists_decimalText
      exact plain d decimal
    have decimal := absent fun d read => plain d (Literal.readDecimal?_eq_some_iff.mp read)
    rw [Literal.ofBare, if_neg (other "null" (by decide) notNull),
      if_neg (other "true" (by decide) notTrue), if_neg (other "false" (by decide) notFalse), whole,
      decimal]

end BareText

namespace Literal

/-- A word has one reading, which its spelling decides. -/
theorem ofBare_eq_iff {v : Literal} {w : List Char} : ofBare w = v ↔ BareText v w :=
  ⟨fun h => h ▸ bareText_ofBare w, BareText.ofBare_eq⟩

/-- A bare word is `null`, `true` or `false` if it is one of these words in any letter case, a whole
number if it is written as one that has 64 bits, a float if it is written as any other decimal number,
and in every other case a text, as it stands. -/
theorem ofBare_classifies (w : List Char) :
    (ofBare w = .null ↔ w.map Char.toLower = "null".toList) ∧
    (ofBare w = .boolean true ↔ w.map Char.toLower = "true".toList) ∧
    (ofBare w = .boolean false ↔ w.map Char.toLower = "false".toList) ∧
    (∀ n : Int64, ofBare w = .integer n ↔ IntegerText n.toInt w) ∧
    (∀ x, ofBare w = .float x ↔
      (∀ n : Int64, ¬IntegerText n.toInt w) ∧ ∃ d, DecimalText d w ∧ d.toBinary64 = x) ∧
    (∀ s, ofBare w = .string s ↔ s = String.ofList w ∧ w.map Char.toLower ≠ "null".toList ∧
      w.map Char.toLower ≠ "true".toList ∧ w.map Char.toLower ≠ "false".toList ∧
      ∀ d, ¬DecimalText d w) := by
  simp only [ofBare_eq_iff]
  refine ⟨⟨?_, .null⟩, ⟨?_, .true⟩, ⟨?_, .false⟩, fun n => ⟨?_, .integer⟩, fun x => ⟨?_, ?_⟩,
    fun s => ⟨?_, ?_⟩⟩
  · intro | .null same => exact same
  · intro | .true same => exact same
  · intro | .false same => exact same
  · intro | .integer text => exact text
  · intro | .float large text => exact ⟨large, _, text, rfl⟩
  · rintro ⟨large, d, text, rfl⟩
    exact .float large text
  · intro | .string notNull notTrue notFalse plain => exact ⟨rfl, notNull, notTrue, notFalse, plain⟩
  · rintro ⟨rfl, notNull, notTrue, notFalse, plain⟩
    exact .string notNull notTrue notFalse plain

/-- Words that fall between the rules: a number past 64 bits, a point at the end, a lone power, a date,
and a digit of another script. -/
example :
    ofBare "-9223372036854775808".toList = .integer Int64.minValue ∧
    ofBare "9223372036854775808".toList = .float ⟨0x43E0000000000000⟩ ∧
    ofBare "+5.".toList = .float ⟨0x4014000000000000⟩ ∧ ofBare "e5".toList = .string "e5" ∧
    ofBare "2024-01-01".toList = .string "2024-01-01" ∧ ofBare "٣".toList = .string "٣" ∧
    ofBare "NuLL".toList = .null := by
  decide +kernel

end Literal

end SearchFilter
