import SearchFilter.Proofs.Lexing

/-!
# How terms are written

A term is written as an optional negation, a path of names, a colon, a comparator and a value. The
rules here say which texts spell each of these, with no reader in them, and the reader is shown to find
just such texts (`TermText.term?`, `exists_termText`). Only the comparator needs a rule about what
follows it: it is as long as it can be, so that `<=5` is never `<` before the word `=5`.
-/

namespace SearchFilter

open Lexeme Text

/-! ### Paths of names -/

/-- A path of one or more names. -/
def FieldPath.IsNamed (p : FieldPath) : Prop :=
  p.segments ≠ [] ∧ ∀ s ∈ p.segments, isName s.toList = true

namespace FieldPath

theorem splitDots_eq (cs : List Char) : splitDots cs = cs.splitOn '.' := by
  induction cs with
  | nil => rfl
  | cons c cs ih =>
    rw [splitDots, List.splitOn_cons_eq_if_modifyHead, ih]
    by_cases dot : c = '.'
    · simp [dot]
    · have nonempty := List.splitOn_ne_nil '.' cs
      cases hs : cs.splitOn '.' with
      | nil => exact absurd hs nonempty
      | cons part parts => simp [dot]

theorem isPathChar_of_splitDots {cs : List Char}
    (h : ∀ part ∈ splitDots cs, ∀ c ∈ part, isNameChar c = true) : ∀ c ∈ cs, isPathChar c = true := by
  induction cs with
  | nil => exact nofun
  | cons c cs ih =>
    rw [splitDots_eq, List.splitOn_cons_eq_if_modifyHead, ← splitDots_eq] at h
    by_cases dot : c = '.'
    · subst dot
      rw [List.forall_mem_cons]
      exact ⟨rfl, ih fun part hp => h part (List.mem_cons_of_mem _ hp)⟩
    · rw [if_neg (by simpa using dot)] at h
      cases hs : splitDots cs with
      | nil => exact absurd (splitDots_eq cs ▸ hs) (List.splitOn_ne_nil '.' cs)
      | cons part parts =>
        simp only [hs, List.modifyHead_cons, List.forall_mem_cons] at h ih
        rw [List.forall_mem_cons]
        exact ⟨isPathChar_of_isNameChar c h.1.1, ih ⟨h.1.2, h.2⟩⟩

end FieldPath

theorem Lexeme.isNameChar_of_isName {cs : List Char} (h : isName cs = true) :
    ∀ c ∈ cs, isNameChar c = true := by
  cases cs with
  | nil => cases h
  | cons c cs =>
    rw [isName, Bool.and_eq_true, List.all_eq_true] at h
    exact List.forall_mem_cons.mpr ⟨isNameChar_of_isNameStart c h.1, h.2⟩

theorem Lexeme.dot_not_mem_of_isName {cs : List Char} (h : isName cs = true) : '.' ∉ cs :=
  fun dot => absurd (isNameChar_of_isName h '.' dot) (by decide)

namespace FieldPath.IsNamed

variable {p : FieldPath}

theorem splitDots_text (h : p.IsNamed) : splitDots p.text.toList = p.segments.map String.toList := by
  have dots : ∀ part ∈ p.segments.map String.toList, '.' ∉ part :=
    List.forall_mem_map.mpr fun s hs => dot_not_mem_of_isName (h.2 s hs)
  rw [splitDots_eq, text, String.toList_intercalate]
  exact List.splitOn_intercalate '.' dots fun empty => h.1 (List.map_eq_nil_iff.mp empty)

theorem all_isName (h : p.IsNamed) : (splitDots p.text.toList).all isName = true := by
  rw [h.splitDots_text, List.all_map, List.all_eq_true]
  exact h.2

theorem ofChars_text (h : p.IsNamed) : FieldPath.ofChars p.text.toList = p := by
  rw [ofChars, h.splitDots_text]
  simp [Function.comp_def]

theorem isPathChar (h : p.IsNamed) : ∀ c ∈ p.text.toList, isPathChar c = true :=
  isPathChar_of_splitDots fun part hp => isNameChar_of_isName (List.all_eq_true.mp h.all_isName part hp)

end FieldPath.IsNamed

/-- A field is read where a path of names and a colon stand. -/
theorem Lexeme.field?_eq_some_iff {cs rest : List Char} {p : FieldPath} :
    field? cs = some (p, rest) ↔ p.IsNamed ∧ cs = p.text.toList ++ ':' :: rest := by
  constructor
  · intro h
    unfold field? at h
    split at h
    · next colon =>
      dsimp only at h
      split at h
      · next names =>
        cases h
        have parts := List.all_eq_true.mp names
        have segments (qs : List (List Char)) : (qs.map String.ofList).map String.toList = qs := by
          simp [Function.comp_def]
        refine ⟨⟨?_, ?_⟩, ?_⟩
        · rw [FieldPath.splitDots_eq]
          exact fun empty => List.splitOn_ne_nil '.' _ (List.map_eq_nil_iff.mp empty)
        · exact List.forall_mem_map.mpr fun part hp => by
            rw [String.toList_ofList]
            exact parts part hp
        · rw [FieldPath.text, String.toList_intercalate, segments, FieldPath.splitDots_eq,
            show ".".toList = ['.'] from rfl, List.intercalate_splitOn, ← colon,
            List.takeWhile_append_dropWhile]
      · cases h
    · cases h
  · rintro ⟨named, rfl⟩
    unfold field?
    rw [List.dropWhile_append_of_pos named.isPathChar, List.takeWhile_append_of_pos named.isPathChar,
      List.dropWhile_cons_of_neg (by decide), List.takeWhile_cons_of_neg (by decide), List.append_nil]
    have names := named.all_isName
    rw [named.splitDots_text] at names
    simp only [named.splitDots_text, names, if_true, List.map_map, Function.comp_def,
      String.ofList_toList, List.map_id']

/-! ### Comparators -/

namespace Comparator

/-- A comparator as it stands before a value; equality has no symbol. -/
def mark (c : Comparator) : List Char := if c = .eq then [] else c.symbol.toList

theorem ofSymbol?_mark (c : Comparator) : ofSymbol? (String.ofList c.mark) = some c := by
  cases c <;> decide

/-- A character that would make a longer comparator of this one. -/
def goesOn : Comparator → Char → Bool
  | .eq, x => x = '<' || x = '>'
  | .lt, x => x = '='
  | .gt, x => x = '='
  | .le, _ => false
  | .ge, _ => false

end Comparator

theorem Lexeme.comparator_eq_iff {cs rest : List Char} {c : Comparator} :
    comparator cs = (c, rest) ↔ cs = c.mark ++ rest ∧ startsWith c.goesOn rest = false := by
  constructor
  · intro h
    fun_cases comparator cs with
    | case1 tail => cases h; exact ⟨rfl, by cases rest <;> rfl⟩
    | case2 tail => cases h; exact ⟨rfl, by cases rest <;> rfl⟩
    | case3 tail equal =>
      rw [comparator.eq_3 _ equal] at h
      cases h
      refine ⟨rfl, ?_⟩
      cases rest with
      | nil => rfl
      | cons x rest => exact decide_eq_false fun hx => equal rest (hx ▸ rfl)
    | case4 tail equal =>
      rw [comparator.eq_4 _ equal] at h
      cases h
      refine ⟨rfl, ?_⟩
      cases rest with
      | nil => rfl
      | cons x rest => exact decide_eq_false fun hx => equal rest (hx ▸ rfl)
    | case5 _ lessEqual greaterEqual less greater =>
      rw [comparator.eq_5 _ lessEqual greaterEqual less greater] at h
      cases h
      refine ⟨rfl, ?_⟩
      cases cs with
      | nil => rfl
      | cons x rest =>
        refine Bool.or_eq_false_iff.mpr ⟨decide_eq_false fun hx => ?_, decide_eq_false fun hx => ?_⟩
        · exact less rest (hx ▸ rfl)
        · exact greater rest (hx ▸ rfl)
  · rintro ⟨rfl, ends⟩
    cases c with
    | le => rfl
    | ge => rfl
    | lt =>
      refine comparator.eq_3 _ ?_
      rintro tail rfl
      cases ends
    | gt =>
      refine comparator.eq_4 _ ?_
      rintro tail rfl
      cases ends
    | eq =>
      refine comparator.eq_5 _ ?_ ?_ ?_ ?_ <;>
      · rintro tail rfl
        cases ends

/-! ### Negations -/

/-- How a negation is written: a hyphen with any blanks after it, or the word `not` in any letter case
with at least one. -/
inductive NegationText : Bool → List Char → Prop where
  /-- Nothing negates nothing. -/
  | none : NegationText false []
  /-- A hyphen. -/
  | hyphen {blanks : List Char} : blanks.all isSpace = true → NegationText true ('-' :: blanks)
  /-- The word `not`. -/
  | word {w blanks : List Char} : equalsIgnoringCase w "not".toList = true → blanks ≠ [] →
      blanks.all isSpace = true → NegationText true (w ++ blanks)

theorem Lexeme.isSpace_eq_false_of_isNameStart {c : Char} (h : isNameStart c = true) :
    isSpace c = false := by
  cases hs : isSpace c with
  | false => rfl
  | true =>
    simp only [isSpace, Bool.or_eq_true, decide_eq_true_eq] at hs
    rcases hs with ((rfl | rfl) | rfl) | rfl <;> cases h

theorem Text.skipSpaces_append {blanks body : List Char} (blank : blanks.all isSpace = true)
    (start : startsWith isNameStart body = true) : skipSpaces (blanks ++ body) = body := by
  rw [skipSpaces, List.dropWhile_append_of_pos (List.all_eq_true.mp blank)]
  cases body with
  | nil => rfl
  | cons c body =>
    exact List.dropWhile_cons_of_neg (Bool.eq_false_iff.mp (isSpace_eq_false_of_isNameStart start))

/-- Before a field a negation is read where one stands. -/
theorem NegationText.negation {negated : Bool} {text body rest : List Char} {p : FieldPath}
    (h : NegationText negated text) (field : field? body = some (p, rest)) :
    Lexeme.negation (text ++ body) = (negated, body) := by
  have start := field?_start field
  cases h with
  | none =>
    obtain ⟨named, rfl⟩ := field?_eq_some_iff.mp field
    have missing : negation? (p.text.toList ++ ':' :: rest) = Option.none := by
      rw [Option.eq_none_iff_forall_ne_some]
      intro tail found
      rcases negation?_eq_some_iff.mp found with ⟨after, blank⟩ | hyphen
      · obtain ⟨w, split, same⟩ := afterWord?_eq_some_iff.mp after
        -- the word lies within the path, and no blank follows it there
        have outside : ':' ∉ w := fun inside =>
          absurd (isNameStart_of_equalsIgnoringCase same rfl ':' inside) (by decide)
        rcases List.append_eq_append_iff.mp split with ⟨more, rfl, colon⟩ | ⟨more, path, rfl⟩
        · cases more with
          | nil =>
            cases colon
            cases blank
          | cons c more =>
            cases colon
            exact outside (List.mem_append_right _ List.mem_cons_self)
        · cases more with
          | nil => cases blank
          | cons c more =>
            have inside := named.isPathChar c (path ▸ List.mem_append_right _ List.mem_cons_self)
            have bare := isBareChar_of_isPathChar c inside
            have blank : isSpace c = true := blank
            rw [isBareChar, blank] at bare
            cases bare
      · rw [hyphen] at start
        cases start
    rw [Lexeme.negation, List.nil_append, missing]
  | hyphen blank =>
    rw [Lexeme.negation, List.cons_append, negation?_eq_some_iff.mpr (.inr rfl)]
    exact congrArg _ (skipSpaces_append blank start)
  | @word w blanks same nonempty blank =>
    have next : startsWith isSpace (blanks ++ body) = true := by
      cases blanks with
      | nil => exact absurd rfl nonempty
      | cons c blanks => exact List.all_eq_true.mp blank c List.mem_cons_self
    have after := afterWord?_eq_some_iff.mpr ⟨w, List.append_assoc w blanks body, same⟩
    rw [Lexeme.negation, negation?_eq_some_iff.mpr (.inl ⟨after, next⟩)]
    exact congrArg _ (skipSpaces_append blank start)

/-- What is read as a negation is written as one. -/
theorem exists_negationText (cs : List Char) :
    ∃ text, cs = text ++ (negation cs).2 ∧ NegationText (negation cs).1 text := by
  unfold negation
  split
  · next rest found =>
    have blank : (rest.takeWhile isSpace).all isSpace = true := List.all_takeWhile
    rcases negation?_eq_some_iff.mp found with ⟨after, next⟩ | rfl
    · obtain ⟨w, rfl, same⟩ := afterWord?_eq_some_iff.mp after
      refine ⟨w ++ rest.takeWhile isSpace, ?_, .word same ?_ blank⟩
      · rw [List.append_assoc, skipSpaces, List.takeWhile_append_dropWhile]
      · cases rest with
        | nil => cases next
        | cons c rest =>
          rw [List.takeWhile_cons_of_pos (show isSpace c = true from next)]
          exact List.cons_ne_nil _ _
    · refine ⟨'-' :: rest.takeWhile isSpace, ?_, .hyphen blank⟩
      rw [List.cons_append, skipSpaces, List.takeWhile_append_dropWhile]
  · exact ⟨[], rfl, .none⟩

/-! ### Values -/

/-- How the characters of a text are written between quotes. Any of them may stand after a backslash; a
quote and a backslash must. -/
inductive Escaped : List Char → List Char → Prop where
  /-- Nothing is written as nothing. -/
  | nil : Escaped [] []
  /-- A character as itself. -/
  | plain {c : Char} {body text : List Char} : c ≠ '"' → c ≠ '\\' → Escaped body text →
      Escaped (c :: body) (c :: text)
  /-- A character after a backslash. -/
  | backslash {c : Char} {body text : List Char} : Escaped body text →
      Escaped (c :: body) ('\\' :: c :: text)

/-- How a value is written: between quotes, or as a word that holds no blank, parenthesis or quote. -/
inductive ValueText : Literal → List Char → Prop where
  /-- A text between quotes. -/
  | quoted {body text : List Char} : Escaped body text →
      ValueText (.string (String.ofList body)) ('"' :: text ++ ['"'])
  /-- A word. -/
  | bare {w : List Char} : w ≠ [] → w.all isBareChar = true → ValueText (.ofBare w) w

theorem Escaped.quotedBody? {body text : List Char} (h : Escaped body text) (rest : List Char) :
    Lexeme.quotedBody? (text ++ '"' :: rest) = some (body, rest) := by
  induction h with
  | nil => rfl
  | plain quote backslash _ ih => simp [Lexeme.quotedBody?, backslash, ih]
  | backslash _ ih => simp [Lexeme.quotedBody?, ih]

theorem Escaped.unescape {body text : List Char} (h : Escaped body text) : unescape text = body := by
  induction h with
  | nil => rfl
  | plain _ backslash _ ih => simp [SearchFilter.unescape, backslash, ih]
  | backslash _ ih => simp [SearchFilter.unescape, ih]

theorem exists_escaped {cs body rest : List Char} (h : quotedBody? cs = some (body, rest)) :
    ∃ text, cs = text ++ '"' :: rest ∧ Escaped body text := by
  fun_induction quotedBody? cs generalizing body rest with
  | case1 => cases h
  | case2 => cases h; exact ⟨[], rfl, .nil⟩
  | case3 => cases h
  | case4 c cs ih =>
    obtain ⟨⟨inner, after⟩, found, same⟩ := Option.map_eq_some_iff.mp h
    cases same
    obtain ⟨text, rfl, escaped⟩ := ih found
    exact ⟨'\\' :: c :: text, rfl, .backslash escaped⟩
  | case5 c cs quote lone escape ih =>
    obtain ⟨⟨inner, after⟩, found, same⟩ := Option.map_eq_some_iff.mp h
    cases same
    obtain ⟨text, rfl, escaped⟩ := ih found
    refine ⟨c :: text, rfl, .plain quote ?_ escaped⟩
    rintro rfl
    cases text with
    | nil => exact escape _ _ rfl rfl
    | cons x text => exact escape _ _ rfl rfl

theorem ValueText.value? {v : Literal} {cs : List Char} (h : ValueText v cs) :
    Lexeme.value? cs = some (v, []) := by
  cases h with
  | quoted escaped => simp only [Lexeme.value?, List.cons_append, escaped.quotedBody?, Option.map_some]
  | bare nonempty bare =>
    have all := List.all_eq_true.mp bare
    have word : cs.takeWhile isBareChar = cs := by
      simpa using @List.takeWhile_append_of_pos _ isBareChar cs [] all
    have rest : cs.dropWhile isBareChar = [] := by
      simpa using @List.dropWhile_append_of_pos _ isBareChar cs [] all
    unfold Lexeme.value?
    split
    · exact absurd (all '"' List.mem_cons_self) (by decide)
    · rw [word, rest]
      split
      · exact absurd rfl nonempty
      · rfl

theorem exists_valueText {v : Literal} {cs rest : List Char} (h : value? cs = some (v, rest)) :
    ∃ text, cs = text ++ rest ∧ ValueText v text := by
  unfold value? at h
  split at h
  · obtain ⟨⟨body, after⟩, found, same⟩ := Option.map_eq_some_iff.mp h
    cases same
    obtain ⟨text, rfl, escaped⟩ := exists_escaped found
    exact ⟨'"' :: text ++ ['"'], by simp, .quoted escaped⟩
  · split at h
    · cases h
    · next nonempty =>
      cases h
      exact ⟨_, List.takeWhile_append_dropWhile.symm, .bare nonempty List.all_takeWhile⟩

/-! ### Terms -/

/-- How a term is written. -/
inductive TermText : List Char → Term → Prop where
  /-- A negation, the field, a colon, the comparator and the value. -/
  | intro {t : Term} {negation value : List Char} : NegationText t.negated negation →
      t.field.IsNamed → ValueText t.value value → startsWith t.comparator.goesOn value = false →
      TermText (negation ++ (t.field.text.toList ++ ':' :: (t.comparator.mark ++ value))) t

theorem TermText.isNamed {cs : List Char} {t : Term} (h : TermText cs t) : t.field.IsNamed := by
  cases h with
  | intro _ named _ _ => exact named

/-- Where a text stands that begins at a place. -/
def Position.span (p : Position) (cs : List Char) : Span :=
  ⟨p.offset, (p.after cs).offset, p.line, p.column⟩

theorem Lexeme.taken_append_left (cs rest : List Char) : taken (cs ++ rest) rest = cs := by
  rw [taken, List.length_append, Nat.add_sub_cancel, List.take_left]

/-- A term is read where one is written. -/
theorem TermText.term? {cs : List Char} {t : Term} (h : TermText cs t) (p : Position) :
    Lexeme.term? p cs = some ({ t with span := p.span cs }, []) := by
  cases h with
  | @intro _ negation value negated named written ends =>
    have field := field?_eq_some_iff.mpr
      ⟨named, Eq.refl (t.field.text.toList ++ ':' :: (t.comparator.mark ++ value))⟩
    have whole (cs : List Char) : taken cs [] = cs := by
      simpa using taken_append_left cs []
    rw [term?_eq, negated.negation field]
    simp only [field, comparator_eq_iff.mpr ⟨rfl, ends⟩, written.value?, Option.bind_some,
      Option.map_some, whole, Position.span]

theorem Lexeme.term?_parts {p : Position} {cs rest : List Char} {t : Term}
    (h : Lexeme.term? p cs = some (t, rest)) :
    ∃ body tail, negation cs = (t.negated, t.field.text.toList ++ ':' :: body) ∧ t.field.IsNamed ∧
      comparator body = (t.comparator, tail) ∧ value? tail = some (t.value, rest) ∧
      t.span = p.span (taken cs rest) := by
  rw [term?_eq] at h
  obtain ⟨⟨field, body⟩, hf, found⟩ := Option.bind_eq_some_iff.mp h
  obtain ⟨⟨value, after⟩, hv, same⟩ := Option.map_eq_some_iff.mp found
  cases same
  obtain ⟨named, path⟩ := field?_eq_some_iff.mp hf
  exact ⟨body, (comparator body).2, Prod.ext rfl path, named, rfl, hv, rfl⟩

/-- What is read as a term is written as one. -/
theorem exists_termText {p : Position} {cs rest : List Char} {t : Term}
    (h : term? p cs = some (t, rest)) :
    ∃ text, cs = text ++ rest ∧ TermText text t ∧ t.span = p.span text := by
  obtain ⟨body, tail, negated, named, compared, valued, place⟩ := term?_parts h
  obtain ⟨negation, split, negation_text⟩ := exists_negationText cs
  obtain ⟨rfl, ends⟩ := comparator_eq_iff.mp compared
  obtain ⟨value, rfl, written⟩ := exists_valueText valued
  rw [negated] at split negation_text
  have ends : startsWith t.comparator.goesOn value = false := by
    cases value with
    | nil => rfl
    | cons c value => exact ends
  have whole : cs =
      negation ++ (t.field.text.toList ++ ':' :: (t.comparator.mark ++ value)) ++ rest := by
    rw [split]
    simp only [List.append_assoc, List.cons_append]
  refine ⟨_, whole, .intro negation_text named written ends, ?_⟩
  rw [place, whole, taken_append_left]

/-- A text that is read as a term up to its end is written as one. -/
theorem TermText.of_term? {p : Position} {cs : List Char} {t : Term}
    (h : Lexeme.term? p cs = some (t, [])) : TermText cs t := by
  obtain ⟨text, rfl, written, -⟩ := exists_termText h
  rwa [List.append_nil]

/-! ### One term alone -/

namespace TermText

variable {cs : List Char} {t : Term}

theorem start (h : TermText cs t) : startsWith isSpace cs = false := by
  have start := term?_start (h.term? .start)
  cases cs with
  | nil => rfl
  | cons c cs =>
    rcases Bool.or_eq_true_iff.mp start with name | hyphen
    · exact isSpace_eq_false_of_isNameStart name
    · rw [startsWith, of_decide_eq_true hyphen]
      rfl

theorem ne_nil (h : TermText cs t) : cs ≠ [] := by
  rintro rfl
  cases term?_start (h.term? .start)

/-- The text of a term is one lexeme. -/
theorem all? (h : TermText cs t) (p : Position) :
    Lexeme.all? p cs = some [.term { t with span := p.span cs }] := by
  have blank := h.start
  have first := next?_term (h.term? p)
  cases cs with
  | nil => exact absurd rfl h.ne_nil
  | cons c cs =>
    have stop : ¬isSpace c = true := Bool.eq_false_iff.mp blank
    rw [all?_cons p (List.dropWhile_cons_of_neg stop), List.takeWhile_cons_of_neg stop]
    show (next? p (c :: cs)).bind _ = _
    have rest (q : Position) : Lexeme.all? q [] = some [] := all?_nil q rfl
    simp only [first, Option.bind_some, rest, Option.map_some]

end TermText

end SearchFilter
