import SearchFilter.Proofs.Lexemes
import SearchFilter.Proofs.TermChanges

/-!
# Lexemes in context

A text that splits into lexemes splits into the same lexemes when more text follows it, as long as
what follows cannot go on with an unquoted value (`words?_append`). One lexeme is not local by itself:
the keyword of `or:"a` would be the field of a term if the quote were closed further on. But then a
colon follows the keyword, where no lexeme starts, so a text that splits as a whole has no such
keyword. Where in a text its lexemes stand changes nothing but the places of the terms, which are left
out here.
-/

namespace SearchFilter

/-! ### Places left out -/

/-- A term without its place. -/
def Term.placeless (t : Term) : Term := { t with span := .nowhere }

/-- A lexeme with its term changed. -/
def Lexeme.mapTerm (f : Term → Term) : Lexeme → Lexeme
  | term t => term (f t)
  | l => l

namespace Lexeme

open Text

/-- The lexemes of a text without their places; none if some part of it is no lexeme. -/
def words? (cs : List Char) : Option (List Lexeme) :=
  (all? .start cs).map (List.map (mapTerm Term.placeless))

/-- A term is a field, a comparator and a value after an optional negation. -/
theorem term?_eq (p : Position) (cs : List Char) :
    term? p cs = (field? (negation cs).2).bind fun (field, body) =>
      (value? (comparator body).2).map fun (value, rest) =>
        (⟨field, (comparator body).1, value, (negation cs).1,
          ⟨p.offset, (p.after (taken cs rest)).offset, p.line, p.column⟩⟩, rest) := by
  unfold term?
  rcases negation cs with ⟨negated, body⟩
  dsimp only
  cases field? body with
  | none => rfl
  | some found =>
    dsimp only [Option.bind_eq_bind, Option.bind_some]
    cases value? (comparator found.2).2 <;> rfl

theorem term?_placeless (p q : Position) (cs : List Char) :
    (term? p cs).map (Prod.map Term.placeless id) = (term? q cs).map (Prod.map Term.placeless id) := by
  rw [term?_eq, term?_eq]
  cases field? (negation cs).2 with
  | none => rfl
  | some found =>
    dsimp only [Option.bind_some]
    cases value? (comparator found.2).2 <;> rfl

theorem next?_placeless (p q : Position) (cs : List Char) :
    (next? p cs).map (Prod.map (mapTerm Term.placeless) id) =
      (next? q cs).map (Prod.map (mapTerm Term.placeless) id) := by
  have same := term?_placeless p q cs
  unfold next?
  split
  · rfl
  · rfl
  · cases hp : term? p _ <;> cases hq : term? q _ <;>
      simp_all [mapTerm, Prod.ext_iff]

theorem all?_nil {cs : List Char} (p : Position) (h : skipSpaces cs = []) : all? p cs = some [] := by
  rw [all?]
  split
  · rfl
  · next found => rw [h] at found; cases found

theorem all?_cons {cs tail : List Char} {c : Char} (p : Position) (h : skipSpaces cs = c :: tail) :
    all? p cs =
      (next? (p.after (cs.takeWhile isSpace)) (c :: tail)).bind fun (l, rest) =>
        (all? ((p.after (cs.takeWhile isSpace)).after (taken (c :: tail) rest)) rest).map (l :: ·) := by
  rw [all?]
  split
  · next found => rw [h] at found; cases found
  · next found =>
    rw [h] at found
    cases found
    split
    · next missing => rw [missing]; rfl
    · next first => rw [first]; rfl

theorem length_next?_lt {cs tail rest : List Char} {c : Char} {p : Position} {l : Lexeme}
    (h : skipSpaces cs = c :: tail) (first : next? p (c :: tail) = some (l, rest)) :
    rest.length < cs.length := by
  have skipped : (skipSpaces cs).length ≤ cs.length := length_dropWhile_le _ _
  rw [h] at skipped
  exact Nat.lt_of_lt_of_le (length_next first) skipped

/-- The first lexeme of a text and those of the rest, if these do not depend on where the rest stands
but for the places of the terms. -/
theorem all?_cons_placeless {cs tail : List Char} {c : Char} (h : skipSpaces cs = c :: tail)
    (placeless : ∀ rest : List Char, rest.length < cs.length → ∀ p : Position,
      (all? p rest).map (List.map (mapTerm Term.placeless)) = words? rest) (p : Position) :
    (all? p cs).map (List.map (mapTerm Term.placeless)) =
      ((next? .start (c :: tail)).map (Prod.map (mapTerm Term.placeless) id)).bind
        fun (l, rest) => (words? rest).map (l :: ·) := by
  rw [all?_cons p h, ← next?_placeless (p.after (cs.takeWhile isSpace))]
  cases hn : next? (p.after (cs.takeWhile isSpace)) (c :: tail) with
  | none => rfl
  | some found =>
    obtain ⟨l, rest⟩ := found
    simp [← placeless rest (length_next?_lt h hn)
      ((p.after (cs.takeWhile isSpace)).after (taken (c :: tail) rest)), Function.comp_def]

/-- The lexemes of a text do not depend on where it stands, but for the places of the terms. -/
theorem all?_placeless (cs : List Char) : ∀ p : Position,
    (all? p cs).map (List.map (mapTerm Term.placeless)) = words? cs := by
  induction hl : cs.length using Nat.strongRecOn generalizing cs with
  | ind n ih =>
    subst hl
    intro p
    have shorter : ∀ rest : List Char, rest.length < cs.length → ∀ p : Position,
        (all? p rest).map (List.map (mapTerm Term.placeless)) = words? rest :=
      fun rest hl => ih rest.length hl rest rfl
    cases hs : skipSpaces cs with
    | nil => rw [words?, all?_nil p hs, all?_nil .start hs]
    | cons c tail =>
      rw [words?, all?_cons_placeless hs shorter p, all?_cons_placeless hs shorter .start]

theorem words?_nil {cs : List Char} (h : skipSpaces cs = []) : words? cs = some [] := by
  rw [words?, all?_nil .start h]
  rfl

theorem words?_cons {cs tail : List Char} {c : Char} (h : skipSpaces cs = c :: tail) :
    words? cs = ((next? .start (c :: tail)).map (Prod.map (mapTerm Term.placeless) id)).bind
      fun (l, rest) => (words? rest).map (l :: ·) :=
  all?_cons_placeless h (fun rest _ => all?_placeless rest) .start

/-- The lexemes of a text are its first one and those of the rest. -/
theorem words?_of_next? {cs tail rest : List Char} {c : Char} {l : Lexeme}
    (h : skipSpaces cs = c :: tail) (first : next? .start (c :: tail) = some (l, rest)) :
    words? cs = (words? rest).map (l.mapTerm Term.placeless :: ·) := by
  rw [words?_cons h, first]
  rfl

theorem exists_next?_of_words? {cs tail : List Char} {c : Char} {ls : List Lexeme}
    (h : skipSpaces cs = c :: tail) (split : words? cs = some ls) :
    ∃ l rest more, next? .start (c :: tail) = some (l, rest) ∧ words? rest = some more ∧
      ls = l.mapTerm Term.placeless :: more := by
  cases hn : next? .start (c :: tail) with
  | none =>
    rw [words?_cons h, hn] at split
    cases split
  | some found =>
    obtain ⟨l, rest⟩ := found
    rw [words?_of_next? h hn] at split
    obtain ⟨more, splitRest, same⟩ := Option.map_eq_some_iff.mp split
    exact ⟨l, rest, more, rfl, splitRest, same.symm⟩

theorem words?_congr {xs ys : List Char} (h : skipSpaces xs = skipSpaces ys) :
    words? xs = words? ys := by
  cases hy : skipSpaces ys with
  | nil => rw [words?_nil hy, words?_nil (h.trans hy)]
  | cons c tail => rw [words?_cons hy, words?_cons (h.trans hy)]

/-! ### What a word stops at -/

/-- A text that no unquoted value goes on with: it is empty, or starts with a blank, a parenthesis or
a quote. -/
def Apart (rest : List Char) : Prop := startsWith isBareChar rest = false

theorem apart_of_isSpace {cs : List Char} (h : startsWith isSpace cs = true) : Apart cs := by
  cases cs with
  | nil => rfl
  | cons c cs =>
    have blank : isSpace c = true := h
    show isBareChar c = false
    rw [isBareChar, blank]
    rfl

theorem startsWith_mono {kind wide : Char → Bool} {cs : List Char}
    (included : ∀ c, kind c = true → wide c = true) (h : startsWith wide cs = false) :
    startsWith kind cs = false := by
  cases cs with
  | nil => rfl
  | cons c cs => exact Bool.eq_false_iff.mpr fun hc => Bool.eq_false_iff.mp h (included c hc)

theorem takeWhile_append_of_stop {kind : Char → Bool} {rest : List Char}
    (h : startsWith kind rest = false) (cs : List Char) :
    (cs ++ rest).takeWhile kind = cs.takeWhile kind := by
  have stop : rest.takeWhile kind = [] := by
    cases rest with
    | nil => rfl
    | cons c rest => exact List.takeWhile_cons_of_neg (Bool.eq_false_iff.mp h)
  rw [List.takeWhile_append, stop, List.append_nil]
  split
  · next all => exact ((List.takeWhile_prefix kind).eq_of_length all).symm
  · rfl

theorem dropWhile_append_of_stop {kind : Char → Bool} {rest : List Char}
    (h : startsWith kind rest = false) (cs : List Char) :
    (cs ++ rest).dropWhile kind = cs.dropWhile kind ++ rest := by
  have stop : rest.dropWhile kind = rest := by
    cases rest with
    | nil => rfl
    | cons c rest => exact List.dropWhile_cons_of_neg (Bool.eq_false_iff.mp h)
  rw [List.dropWhile_append, stop]
  split
  · next empty => rw [List.isEmpty_iff.mp empty, List.nil_append]
  · rfl

theorem isBareChar_of_isPathChar (c : Char) (h : isPathChar c = true) : isBareChar c = true := by
  cases hb : isBareChar c with
  | true => rfl
  | false =>
    simp only [isBareChar, isSpace, Bool.not_eq_false', Bool.or_eq_true, decide_eq_true_eq] at hb
    rcases hb with (((((rfl | rfl) | rfl) | rfl) | rfl) | rfl) | rfl <;> exact absurd h (by decide)

theorem isPathChar_of_isNameChar (c : Char) (h : isNameChar c = true) : isPathChar c = true := by
  rw [isPathChar, h, Bool.true_or]

theorem isNameChar_of_isNameStart (c : Char) (h : isNameStart c = true) : isNameChar c = true := by
  rw [isNameStart, Bool.or_eq_true] at h
  rw [isNameChar, Char.isAlphanum, Bool.or_eq_true, Bool.or_eq_true]
  exact h.imp_left .inl

theorem isNameStart_of_toLower {c : Char} (h : isNameStart c.toLower = true) : isNameStart c = true := by
  unfold Char.toLower at h
  split at h
  · next upper =>
    have letter : c.isUpper = true := decide_eq_true upper
    show (c.isUpper || c.isLower || c = '_') = true
    rw [letter, Bool.true_or, Bool.true_or]
  · exact h

/-! ### Words in any letter case -/

theorem afterWord?_eq_some_iff {word cs tail : List Char} :
    afterWord? word cs = some tail ↔ ∃ w, cs = w ++ tail ∧ equalsIgnoringCase w word = true := by
  unfold afterWord?
  constructor
  · intro h
    split at h
    · next same =>
      cases h
      exact ⟨_, (List.take_append_drop word.length cs).symm, same⟩
    · cases h
  · rintro ⟨w, rfl, same⟩
    have length : w.length = word.length := by
      have maps := congrArg List.length (eq_of_beq same)
      rwa [List.length_map, List.length_map] at maps
    rw [← length, List.take_left, List.drop_left, if_pos same]

theorem isNameStart_of_equalsIgnoringCase {w word : List Char}
    (same : equalsIgnoringCase w word = true)
    (letters : (word.map Char.toLower).all isNameStart = true) : ∀ c ∈ w, isNameStart c = true := by
  intro c hc
  refine isNameStart_of_toLower (List.all_eq_true.mp letters _ ?_)
  rw [← eq_of_beq same]
  exact List.mem_map_of_mem hc

theorem afterWord?_cons_eq_none {x c : Char} (xs cs : List Char) (h : c.toLower ≠ x.toLower) :
    afterWord? (x :: xs) (c :: cs) = none := by
  rw [afterWord?, if_neg]
  intro same
  exact h (List.cons.inj (eq_of_beq same)).1

theorem keyword?_eq_some_iff {word cs tail : List Char} :
    keyword? word cs = some tail ↔
      afterWord? word cs = some tail ∧ startsWith isNameChar tail = false := by
  simp only [keyword?, Option.bind_eq_some_iff, Option.ite_none_left_eq_some, Bool.not_eq_true,
    Option.some.injEq]
  constructor
  · rintro ⟨tail, after, ends, rfl⟩
    exact ⟨after, ends⟩
  · rintro ⟨after, ends⟩
    exact ⟨tail, after, ends, rfl⟩

/-! ### One lexeme in context -/

section Context

variable {cs rest : List Char}

theorem startsWith_append {kind : Char → Bool} (h : startsWith kind cs = false)
    (stop : startsWith kind rest = false) : startsWith kind (cs ++ rest) = false := by
  cases cs with
  | nil => exact stop
  | cons c cs => exact h

theorem field?_append (apart : Apart rest) (cs : List Char) :
    field? (cs ++ rest) = (field? cs).map (Prod.map id (· ++ rest)) := by
  have stop : startsWith isPathChar rest = false := startsWith_mono isBareChar_of_isPathChar apart
  unfold field?
  rw [takeWhile_append_of_stop stop, dropWhile_append_of_stop stop]
  cases hd : cs.dropWhile isPathChar with
  | nil =>
    cases rest with
    | nil => rfl
    | cons c rest =>
      have colon : c ≠ ':' := by
        rintro rfl
        cases apart
      simp [colon]
  | cons c tail =>
    by_cases colon : c = ':'
    · subst colon
      simp only [List.cons_append]
      split <;> rfl
    · simp [colon]

theorem colon_mem_of_field? {field : FieldPath} {tail : List Char}
    (h : field? cs = some (field, tail)) : ':' ∈ cs := by
  unfold field? at h
  split at h
  · next after => exact (List.dropWhile_suffix isPathChar).subset (after ▸ List.mem_cons_self)
  · cases h

/-- No character of a value comes to stand at the front. -/
theorem append_ne_cons (apart : Apart rest) {c : Char} (bare : isBareChar c = true)
    (h : ∀ tail, cs ≠ c :: tail) (tail : List Char) : cs ++ rest ≠ c :: tail := by
  cases cs with
  | nil =>
    rintro rfl
    exact Bool.eq_false_iff.mp apart bare
  | cons a cs =>
    intro same
    exact h cs (congrArg (· :: cs) (List.cons.inj same).1)

theorem comparator_append (apart : Apart rest) (cs : List Char) :
    comparator (cs ++ rest) = Prod.map id (· ++ rest) (comparator cs) := by
  fun_cases comparator cs with
  | case1 tail => rfl
  | case2 tail => rfl
  | case3 tail h => exact comparator.eq_3 _ (append_ne_cons apart (by decide) h)
  | case4 tail h => exact comparator.eq_4 _ (append_ne_cons apart (by decide) h)
  | case5 _ _ _ lt gt =>
    have hlt := append_ne_cons apart (by decide) lt
    have hgt := append_ne_cons apart (by decide) gt
    exact comparator.eq_5 _ (fun _ => hlt _) (fun _ => hgt _) hlt hgt

theorem quotedBody?_append {body tail : List Char} (h : quotedBody? cs = some (body, tail))
    (rest : List Char) : quotedBody? (cs ++ rest) = some (body, tail ++ rest) := by
  fun_induction quotedBody? cs generalizing body tail with
  | case1 => cases h
  | case2 => cases h; rfl
  | case3 => cases h
  | case4 c cs ih =>
    obtain ⟨⟨inner, r⟩, found, same⟩ := Option.map_eq_some_iff.mp h
    cases same
    simp only [List.cons_append, quotedBody?, ih found, Option.map_some]
  | case5 c cs _ lone escape ih =>
    obtain ⟨⟨inner, r⟩, found, same⟩ := Option.map_eq_some_iff.mp h
    cases same
    have backslash : c ≠ '\\' := by
      intro hc
      cases cs with
      | nil => exact lone hc rfl
      | cons next cs => exact escape next cs hc rfl
    simp [quotedBody?, backslash, ih found]

theorem value?_append {v : Literal} {tail : List Char} (apart : Apart rest)
    (h : value? cs = some (v, tail)) : value? (cs ++ rest) = some (v, tail ++ rest) := by
  unfold value? at h
  split at h
  · next body =>
    obtain ⟨⟨inner, r⟩, found, same⟩ := Option.map_eq_some_iff.mp h
    cases same
    simp only [List.cons_append, value?, quotedBody?_append found, Option.map_some]
  · next quote =>
    split at h
    · cases h
    · next word nonempty =>
      cases h
      have unquoted : ∀ tail, cs ++ rest ≠ '"' :: tail := by
        cases cs with
        | nil => exact absurd rfl nonempty
        | cons c cs =>
          intro tail same
          exact quote cs (congrArg (· :: cs) (List.cons.inj same).1)
      unfold value?
      split
      · next same => exact absurd same (unquoted _)
      · rw [takeWhile_append_of_stop apart, dropWhile_append_of_stop apart]
        split
        · next empty => exact absurd empty nonempty
        · rfl

/-- A negation is the word `not` before a blank, or a hyphen. -/
theorem negation?_eq_some_iff {tail : List Char} :
    negation? cs = some tail ↔
      (afterWord? "not".toList cs = some tail ∧ startsWith isSpace tail = true) ∨ cs = '-' :: tail := by
  unfold negation?
  split
  · next found =>
    obtain ⟨after, blank⟩ := Option.filter_eq_some_iff.mp found
    constructor
    · rintro ⟨⟩
      exact .inl ⟨after, blank⟩
    · rintro (⟨same, -⟩ | rfl)
      · rw [← same, after]
      · cases after
  · next missing =>
    have word : ¬(afterWord? "not".toList cs = some tail ∧ startsWith isSpace tail = true) := by
      rw [← Option.filter_eq_some_iff, missing]
      exact nofun
    rw [or_iff_right word]
    split
    · simp
    · next hyphen => exact ⟨nofun, fun same => absurd same (hyphen tail)⟩

theorem negation?_append {tail : List Char} (h : negation? cs = some tail) (rest : List Char) :
    negation? (cs ++ rest) = some (tail ++ rest) := by
  rw [negation?_eq_some_iff] at h ⊢
  rcases h with ⟨after, blank⟩ | rfl
  · obtain ⟨w, rfl, same⟩ := afterWord?_eq_some_iff.mp after
    refine .inl ⟨afterWord?_eq_some_iff.mpr ⟨w, List.append_assoc .., same⟩, ?_⟩
    cases tail with
    | nil => cases blank
    | cons c tail => exact blank
  · exact .inr rfl

/-- The word `not` does not come about by what follows a text that holds a colon. -/
theorem negation?_append_eq_none (h : negation? cs = none) (colon : ':' ∈ cs) (rest : List Char) :
    negation? (cs ++ rest) = none := by
  rw [Option.eq_none_iff_forall_ne_some] at h ⊢
  intro tail found
  rcases negation?_eq_some_iff.mp found with ⟨after, blank⟩ | hyphen
  · obtain ⟨w, split, same⟩ := afterWord?_eq_some_iff.mp after
    have outside : ':' ∉ w := fun inside =>
      absurd (isNameStart_of_equalsIgnoringCase same rfl ':' inside) (by decide)
    rcases List.append_eq_append_iff.mp split with ⟨more, rfl, -⟩ | ⟨more, rfl, rfl⟩
    · exact outside (List.mem_append_left _ colon)
    · -- the word is whole already, and the blank after it is not from the rest
      refine h more (negation?_eq_some_iff.mpr (.inl ⟨afterWord?_eq_some_iff.mpr ⟨w, rfl, same⟩, ?_⟩))
      cases more with
      | nil => exact absurd (by simpa using colon) outside
      | cons c more => exact blank
  · cases cs with
    | nil => cases colon
    | cons c cs => exact h cs (negation?_eq_some_iff.mpr (.inr (by rw [(List.cons.inj hyphen).1])))

theorem negation_append (colon : ':' ∈ (negation cs).2) (rest : List Char) :
    negation (cs ++ rest) = Prod.map id (· ++ rest) (negation cs) := by
  unfold negation at colon ⊢
  cases hn : negation? cs with
  | none =>
    rw [hn] at colon
    rw [negation?_append_eq_none hn colon]
    rfl
  | some tail =>
    rw [hn] at colon
    rw [negation?_append hn]
    have nonempty : ¬(tail.dropWhile isSpace).isEmpty = true :=
      fun empty => List.ne_nil_of_mem colon (List.isEmpty_iff.mp empty)
    simp only [skipSpaces, List.dropWhile_append, if_neg nonempty, Prod.map, id]

theorem taken_append (cs rest tail : List Char) :
    taken (cs ++ rest) (tail ++ rest) = taken cs tail := by
  rw [taken, taken, List.length_append, List.length_append, Nat.add_sub_add_right,
    List.take_append_of_le_length (Nat.sub_le _ _)]

theorem term?_append {p : Position} {t : Term} {tail : List Char} (apart : Apart rest)
    (h : term? p cs = some (t, tail)) : term? p (cs ++ rest) = some (t, tail ++ rest) := by
  rw [term?_eq] at h ⊢
  simp only [Option.bind_eq_some_iff, Option.map_eq_some_iff] at h
  obtain ⟨⟨field, body⟩, hf, ⟨value, r⟩, hv, same⟩ := h
  cases same
  rw [negation_append (colon_mem_of_field? hf)]
  simp only [Prod.map, id, field?_append apart, hf, Option.map_some, Option.bind_some,
    comparator_append apart, value?_append apart hv, taken_append]

/-! ### Where a lexeme starts -/

theorem splitDots_start (h : (FieldPath.splitDots cs).all isName = true) :
    startsWith isNameStart cs = true := by
  cases cs with
  | nil => cases h
  | cons c cs =>
    rw [FieldPath.splitDots] at h
    split at h
    · cases h
    · split at h <;> simp_all [isName, startsWith]

theorem field?_start {field : FieldPath} {tail : List Char} (h : field? cs = some (field, tail)) :
    startsWith isNameStart cs = true := by
  unfold field? at h
  split at h
  · dsimp only at h
    split at h
    · next names =>
      have start := splitDots_start names
      cases cs with
      | nil => cases start
      | cons c cs =>
        rw [List.takeWhile_cons] at start
        split at start
        · exact start
        · cases start
    · cases h
  · cases h

/-- A term starts with a name or a hyphen. -/
theorem term?_start {p : Position} {t : Term} {tail : List Char} (h : term? p cs = some (t, tail)) :
    startsWith (fun c => isNameStart c || c = '-') cs = true := by
  rw [term?_eq, Option.bind_eq_some_iff] at h
  obtain ⟨⟨field, body⟩, hf, -⟩ := h
  have name : startsWith isNameStart cs = true ∨ startsWith (· = '-') cs = true := by
    unfold negation at hf
    split at hf
    · next found =>
      rcases negation?_eq_some_iff.mp found with ⟨after, -⟩ | rfl
      · obtain ⟨w, rfl, same⟩ := afterWord?_eq_some_iff.mp after
        cases w with
        | nil => cases same
        | cons c w => exact .inl (isNameStart_of_equalsIgnoringCase same rfl c List.mem_cons_self)
      · exact .inr rfl
    · exact .inl (field?_start hf)
  cases cs with
  | nil => exact name.elim id id
  | cons c cs => exact Bool.or_eq_true_iff.mpr name

/-- The keyword of a connective in small letters. -/
def word : Connective → List Char
  | .and => "and".toList
  | .or => "or".toList

theorem isNameStart_word (c : Connective) : ((word c).map Char.toLower).all isNameStart = true := by
  cases c <;> rfl

/-- A keyword starts with the first letter of its word. -/
theorem keyword?_start {c : Connective} {tail : List Char} (h : keyword? (word c) cs = some tail) :
    ∃ x xs, cs = x :: xs ∧ isNameStart x = true ∧ (word c).head? = some x.toLower := by
  obtain ⟨w, rfl, same⟩ := afterWord?_eq_some_iff.mp (keyword?_eq_some_iff.mp h).1
  have letters := isNameStart_of_equalsIgnoringCase same (isNameStart_word c)
  cases w with
  | nil => cases c <;> cases same
  | cons x w =>
    refine ⟨x, w ++ tail, rfl, letters x List.mem_cons_self, ?_⟩
    cases c <;> exact congrArg some (List.cons.inj (eq_of_beq same)).1.symm

/-- What the next lexeme of a text can be. -/
theorem next?_cases {p : Position} {l : Lexeme} {tail : List Char} (h : next? p cs = some (l, tail)) :
    (l = opening ∧ cs = '(' :: tail) ∨ (l = closing ∧ cs = ')' :: tail) ∨
      (∃ t, l = term t ∧ term? p cs = some (t, tail)) ∨
      ∃ c, l = keyword c ∧ keyword? (word c) cs = some tail := by
  unfold next? at h
  split at h
  · cases h
    exact .inl ⟨rfl, rfl⟩
  · cases h
    exact .inr (.inl ⟨rfl, rfl⟩)
  · split at h
    · next found =>
      cases h
      exact .inr (.inr (.inl ⟨_, rfl, found⟩))
    · split at h
      · next found =>
        cases h
        exact .inr (.inr (.inr ⟨.and, rfl, found⟩))
      · obtain ⟨_, found, same⟩ := Option.map_eq_some_iff.mp h
        cases same
        exact .inr (.inr (.inr ⟨.or, rfl, found⟩))

theorem next?_term {p : Position} {t : Term} {tail : List Char} (h : term? p cs = some (t, tail)) :
    next? p cs = some (term t, tail) := by
  unfold next?
  split
  · cases term?_start h
  · cases term?_start h
  · rw [h]

theorem next?_keyword {p : Position} {c : Connective} {tail : List Char}
    (other : term? p cs = none) (h : keyword? (word c) cs = some tail) :
    next? p cs = some (keyword c, tail) := by
  obtain ⟨x, xs, rfl, name, first⟩ := keyword?_start h
  unfold next?
  split
  · next same =>
    cases same
    cases name
  · next same =>
    cases same
    cases name
  · rw [other]
    cases c with
    | and => simp only [show keyword? "and".toList (x :: xs) = some tail from h]
    | or =>
      have letter : x.toLower ≠ 'a'.toLower := by
        rw [← Option.some.inj first]
        decide
      have missing : keyword? "and".toList (x :: xs) = none := by
        rw [keyword?]
        exact congrArg (Option.bind · _) (afterWord?_cons_eq_none _ xs letter)
      simp only [missing, show keyword? "or".toList (x :: xs) = some tail from h, Option.map_some]

/-- A character that joins the name before it to a field. -/
def joinsField (c : Char) : Bool := c = ':' || c = '.'

theorem isBareChar_of_joinsField (c : Char) (h : joinsField c = true) : isBareChar c = true := by
  simp only [joinsField, Bool.or_eq_true, decide_eq_true_eq] at h
  rcases h with rfl | rfl <;> decide

/-- A keyword begins no term, unless the text after it joins it to a field. -/
theorem term?_eq_none_of_keyword {c : Connective} {tail : List Char}
    (h : keyword? (word c) cs = some tail) (ends : startsWith joinsField tail = false)
    (p : Position) : term? p cs = none := by
  obtain ⟨after, name⟩ := keyword?_eq_some_iff.mp h
  obtain ⟨w, rfl, same⟩ := afterWord?_eq_some_iff.mp after
  have negation : negation? (w ++ tail) = none := by
    obtain ⟨x, xs, split, letter, first⟩ := keyword?_start h
    rw [split, Option.eq_none_iff_forall_ne_some]
    intro tail found
    rcases negation?_eq_some_iff.mp found with ⟨not, -⟩ | hyphen
    · have other : x.toLower ≠ 'n'.toLower := by
        intro n
        rw [n] at first
        cases c <;> exact absurd first (by decide)
      cases (afterWord?_cons_eq_none ['o', 't'] xs other).symm.trans not
    · cases hyphen
      cases letter
  have field : field? (w ++ tail) = none := by
    have path : ∀ c ∈ w, isPathChar c = true := fun c hc => isPathChar_of_isNameChar c
      (isNameChar_of_isNameStart c (isNameStart_of_equalsIgnoringCase same (isNameStart_word _) c hc))
    unfold field?
    rw [List.dropWhile_append_of_pos path]
    cases tail with
    | nil => rfl
    | cons x tail =>
      simp only [startsWith, joinsField, Bool.or_eq_false_iff, decide_eq_false_iff_not] at name ends
      have stop : isPathChar x = false := by simp [isPathChar, name, ends.2]
      simp [stop, ends.1]
  rw [term?_eq, Lexeme.negation, negation]
  simp only [field, Option.bind_none]

theorem next?_append {p : Position} {l : Lexeme} {tail : List Char} (apart : Apart rest)
    (ends : startsWith joinsField tail = false) (h : next? p cs = some (l, tail)) :
    next? p (cs ++ rest) = some (l, tail ++ rest) := by
  rcases next?_cases h with ⟨rfl, rfl⟩ | ⟨rfl, rfl⟩ | ⟨t, rfl, found⟩ | ⟨c, rfl, found⟩
  · rfl
  · rfl
  · exact next?_term (term?_append apart found)
  · obtain ⟨after, name⟩ := keyword?_eq_some_iff.mp found
    obtain ⟨w, rfl, same⟩ := afterWord?_eq_some_iff.mp after
    have bare (c : Char) (hc : isNameChar c = true) : isBareChar c = true :=
      isBareChar_of_isPathChar c (isPathChar_of_isNameChar c hc)
    have here : keyword? (word c) (w ++ tail ++ rest) = some (tail ++ rest) :=
      keyword?_eq_some_iff.mpr ⟨afterWord?_eq_some_iff.mpr ⟨w, List.append_assoc .., same⟩,
        startsWith_append name (startsWith_mono bare apart)⟩
    exact next?_keyword (term?_eq_none_of_keyword here
      (startsWith_append ends (startsWith_mono isBareChar_of_joinsField apart)) p) here

theorem joinsField_eq_false {c : Char} (h : (isNameStart c || c = '-') = true) :
    joinsField c = false := by
  cases hj : joinsField c with
  | false => rfl
  | true =>
    simp only [joinsField, Bool.or_eq_true, decide_eq_true_eq] at hj
    rcases hj with rfl | rfl <;> cases h

/-- No lexeme starts with what would join a name to a field. -/
theorem next?_start {p : Position} {l : Lexeme} {tail : List Char} (h : next? p cs = some (l, tail)) :
    startsWith joinsField cs = false := by
  rcases next?_cases h with ⟨-, rfl⟩ | ⟨-, rfl⟩ | ⟨t, -, found⟩ | ⟨c, -, found⟩
  · rfl
  · rfl
  · have start := term?_start found
    cases cs with
    | nil => rfl
    | cons c cs => exact joinsField_eq_false start
  · obtain ⟨x, xs, rfl, name, -⟩ := keyword?_start found
    exact joinsField_eq_false (by rw [name, Bool.true_or])

end Context

/-! ### A whole text in context -/

theorem words?_start {cs : List Char} {ls : List Lexeme} (h : words? cs = some ls) :
    startsWith joinsField cs = false := by
  cases cs with
  | nil => rfl
  | cons c cs =>
    by_cases blank : isSpace c = true
    · simp only [isSpace, Bool.or_eq_true, decide_eq_true_eq] at blank
      rcases blank with ((rfl | rfl) | rfl) | rfl <;> rfl
    · obtain ⟨l, rest, more, first, -⟩ := exists_next?_of_words? (List.dropWhile_cons_of_neg blank) h
      exact next?_start first

/-- A text that splits into lexemes splits in the same way where more text follows. -/
theorem words?_append {cs rest : List Char} {ls : List Lexeme} (apart : Apart rest)
    (h : words? cs = some ls) : words? (cs ++ rest) = (words? rest).map (ls ++ ·) := by
  -- on the length of the text, since a lexeme may be of any length
  induction hl : cs.length using Nat.strongRecOn generalizing cs ls with
  | ind n ih =>
    subst hl
    cases hs : cs.dropWhile isSpace with
    | nil =>
      rw [words?_nil hs] at h
      cases h
      have skip : skipSpaces (cs ++ rest) = skipSpaces rest := by
        rw [skipSpaces, List.dropWhile_append, hs]
        rfl
      simp [words?_congr skip]
    | cons c tail =>
      have skip : skipSpaces (cs ++ rest) = c :: (tail ++ rest) := by
        rw [skipSpaces, List.dropWhile_append, hs]
        rfl
      obtain ⟨l, after, more, first, split, rfl⟩ := exists_next?_of_words? hs h
      have here := next?_append apart (words?_start split) first
      rw [words?_of_next? skip here, ih after.length (length_next?_lt hs first) split rfl,
        Option.map_map]
      rfl

end Lexeme

end SearchFilter
