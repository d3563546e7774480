import SearchFilter.Proofs.Layout

/-!
# What a matcher does

A run of a matcher is looked at without the attempts that failed before it: it gets from one place to
another with the constructs on the way (`Matched`), or it does not (`Failed`). Each way to put matchers
together has one lemma for either.

A term is matched just where one is read, and its derivation is built as the term that is read, with the
same place (`matched_term`, `term?_of_failed`). In particular each part of it is found where building
looks for it, and what is matched as a comparator is always the symbol of one.
-/

namespace SearchFilter

open Lexeme Text

/-! ### Places -/

namespace Cursor

/-- The place after the blanks. -/
def skip (c : Cursor) : Cursor := c.leaving (skipSpaces c.rest)

/-- Going on in a text leads from one place to another. -/
def Leads (c d : Cursor) : Prop := d.rest <:+ c.rest ∧ d = c.leaving d.rest

@[simp] theorem leaving_rest (c : Cursor) (rest : List Char) : (c.leaving rest).rest = rest := rfl

@[simp] theorem skip_rest (c : Cursor) : c.skip.rest = skipSpaces c.rest := rfl

theorem leaving_append {c : Cursor} {w rest : List Char} (h : c.rest = w ++ rest) :
    c.leaving rest = ⟨c.place + w.length, c.position.after w, rest⟩ := by
  simp [leaving, h, taken_append_left]

theorem leaving_self (c : Cursor) : c.leaving c.rest = c := leaving_append (w := []) rfl

namespace Leads

variable {c d e : Cursor}

theorem refl (c : Cursor) : Leads c c := ⟨List.suffix_refl _, c.leaving_self.symm⟩

theorem leaving {rest : List Char} (h : rest <:+ c.rest) : Leads c (c.leaving rest) := ⟨h, rfl⟩

theorem trans (first : Leads c d) (next : Leads d e) : Leads c e := by
  obtain ⟨⟨v, hv⟩, atD⟩ := first
  obtain ⟨⟨w, hw⟩, atE⟩ := next
  have whole : c.rest = v ++ w ++ e.rest := by rw [← hv, ← hw, List.append_assoc]
  refine ⟨⟨v ++ w, whole.symm⟩, ?_⟩
  rw [leaving_append hv.symm] at atD
  rw [leaving_append hw.symm] at atE
  rw [leaving_append whole, atE, atD, Position.after_append, List.length_append, Nat.add_assoc]

end Leads

end Cursor

theorem Lexeme.taken_dropWhile (kind : Char → Bool) (cs : List Char) :
    taken cs (cs.dropWhile kind) = cs.takeWhile kind := by
  have whole := taken_append_left (cs.takeWhile kind) (cs.dropWhile kind)
  rwa [List.takeWhile_append_dropWhile] at whole

/-! ### Runs of a matcher -/

namespace Matcher

/-- From one place a matcher gets to another, with these constructs on the way. -/
def Matched (m : Matcher) (c d : Cursor) (parts : List Derivation) : Prop :=
  ∃ a b, m c a = (some (d, parts), b)

/-- From a place a matcher does not get on. -/
def Failed (m : Matcher) (c : Cursor) : Prop := ∃ a b, m c a = (none, b)

section Combinators

variable {m n : Matcher} {c d : Cursor} {parts : List Derivation}

theorem matched_step {f : List Char → Option (List Char)} (h : Matched (step f) c d parts) :
    ∃ rest, f c.rest = some rest ∧ d = c.leaving rest ∧ parts = [] := by
  obtain ⟨a, b, run⟩ := h
  unfold step at run
  split at run
  · next rest found =>
    cases run
    exact ⟨rest, found, rfl, rfl⟩
  · cases run

theorem failed_step {f : List Char → Option (List Char)} (h : Failed (step f) c) : f c.rest = none := by
  obtain ⟨a, b, run⟩ := h
  unfold step at run
  split at run
  · cases run
  · next missing => exact missing

theorem matched_andThen (h : Matched (andThen m n) c d parts) : ∃ e first second,
    Matched m c e first ∧ Matched n e d second ∧ parts = first ++ second := by
  obtain ⟨a, b, run⟩ := h
  unfold andThen at run
  split at run
  · next first =>
    split at run
    · next second =>
      cases run
      exact ⟨_, _, _, ⟨_, _, first⟩, ⟨_, _, second⟩, rfl⟩
    · cases run
  · cases run

theorem failed_andThen (h : Failed (andThen m n) c) :
    Failed m c ∨ ∃ d parts, Matched m c d parts ∧ Failed n d := by
  obtain ⟨a, b, run⟩ := h
  unfold andThen at run
  split at run
  · next first =>
    split at run
    · cases run
    · next second => exact .inr ⟨_, _, ⟨_, _, first⟩, _, _, second⟩
  · next first => exact .inl ⟨_, _, first⟩

theorem matched_orElse (h : Matched (orElse m n) c d parts) :
    Matched m c d parts ∨ (Failed m c ∧ Matched n c d parts) := by
  obtain ⟨a, b, run⟩ := h
  unfold orElse at run
  split at run
  · next first =>
    cases run
    exact .inl ⟨_, _, first⟩
  · next first => exact .inr ⟨⟨_, _, first⟩, _, _, run⟩

theorem failed_orElse (h : Failed (orElse m n) c) : Failed m c ∧ Failed n c := by
  obtain ⟨a, b, run⟩ := h
  unfold orElse at run
  split at run
  · cases run
  · next first => exact ⟨⟨_, _, first⟩, _, _, run⟩

theorem matched_optional (h : Matched (optional m) c d parts) :
    Matched m c d parts ∨ (Failed m c ∧ d = c ∧ parts = []) := by
  obtain ⟨a, b, run⟩ := h
  unfold optional at run
  split at run
  · next first =>
    cases run
    exact .inl ⟨_, _, first⟩
  · next first =>
    cases run
    exact .inr ⟨⟨_, _, first⟩, rfl, rfl⟩

theorem not_failed_optional : ¬Failed (optional m) c := by
  rintro ⟨a, b, run⟩
  unfold optional at run
  split at run <;> cases run

theorem matched_construct {name : Construct} (h : Matched (construct name m) c d parts) :
    ∃ inside, Matched m c d inside ∧ parts = [⟨name, c.position, taken c.rest d.rest, inside⟩] := by
  obtain ⟨a, b, run⟩ := h
  unfold construct at run
  dsimp only at run
  split at run
  · next found =>
    cases run
    exact ⟨_, ⟨_, _, found⟩, rfl⟩
  · cases run

theorem failed_construct {name : Construct} (h : Failed (construct name m) c) : Failed m c := by
  obtain ⟨a, b, run⟩ := h
  unfold construct at run
  dsimp only at run
  split at run
  · cases run
  · next missing => exact ⟨_, _, missing⟩

theorem matched_token {name : Construct} {f : List Char → Option (List Char)}
    (h : Matched (construct name (step f)) c d parts) : ∃ rest, f c.rest = some rest ∧
      d = c.leaving rest ∧ parts = [⟨name, c.position, taken c.rest rest, []⟩] := by
  obtain ⟨_, matched, rfl⟩ := matched_construct h
  obtain ⟨rest, found, rfl, rfl⟩ := matched_step matched
  exact ⟨rest, found, rfl, rfl⟩

theorem failed_token {name : Construct} {f : List Char → Option (List Char)}
    (h : Failed (construct name (step f)) c) : f c.rest = none := failed_step (failed_construct h)

/-- What holds where a matcher is begun to be repeated, and is kept each time, holds where it ends; and
the matcher does not get on from there, if each time it takes something. -/
theorem repeated_induction {P : Cursor → List Derivation → Prop}
    (step : ∀ c d before parts, P c before → Matched m c d parts →
      d.rest.length < c.rest.length ∧ P d (before ++ parts)) :
    ∀ (fuel : Nat) (c : Cursor) (before : List Derivation), c.rest.length < fuel → P c before →
      Matched (repeated m fuel) c d parts → P d (before ++ parts) ∧ Failed m d := by
  intro fuel
  induction fuel generalizing parts with
  | zero => exact fun c before short => absurd short (Nat.not_lt_zero _)
  | succ fuel ih =>
    intro c before short start run
    rcases matched_optional run with again | ⟨stop, rfl, rfl⟩
    · obtain ⟨e, first, others, once, more, rfl⟩ := matched_andThen again
      obtain ⟨shorter, kept⟩ := step c e before first start once
      rw [← List.append_assoc]
      exact ih e (before ++ first) (by omega) kept more
    · rw [List.append_nil]
      refine ⟨start, ?_⟩
      rcases failed_andThen stop with failed | ⟨e, first, once, never⟩
      · exact failed
      · cases fuel with
        | zero =>
          obtain ⟨a, b, run⟩ := never
          cases run
        | succ fuel => exact absurd never not_failed_optional

end Combinators

/-! ### Blanks and characters -/

section Words

variable {c d e : Cursor} {parts first second : List Derivation}

theorem skipSpaces_suffix (cs : List Char) : skipSpaces cs <:+ cs := List.dropWhile_suffix _

theorem matched_spaces (h : Matched spaces c d parts) : d = c.skip ∧ parts = [] := by
  obtain ⟨rest, same, rfl, rfl⟩ := matched_step h
  cases same
  exact ⟨rfl, rfl⟩

theorem not_failed_spaces : ¬Failed spaces c := by
  intro h
  cases failed_step h

theorem matched_spaced {m : Matcher} (h : Matched (andThen spaces m) c d parts) : Matched m c.skip d parts := by
  obtain ⟨_, _, _, blanks, more, rfl⟩ := matched_andThen h
  obtain ⟨rfl, rfl⟩ := matched_spaces blanks
  exact more

theorem failed_spaced {m : Matcher} (h : Failed (andThen spaces m) c) : Failed m c.skip := by
  rcases failed_andThen h with never | ⟨_, _, blanks, failed⟩
  · exact absurd never not_failed_spaces
  · obtain ⟨rfl, -⟩ := matched_spaces blanks
    exact failed

theorem matched_char {x : Char} (h : Matched (char x) c d parts) :
    c.rest = x :: d.rest ∧ c.Leads d ∧ parts = [] := by
  obtain ⟨rest, found, rfl, rfl⟩ := matched_step h
  split at found
  · next y tail text =>
    split at found
    · next same =>
      cases found
      subst same
      exact ⟨text, .leaving (text ▸ List.suffix_cons _ _), rfl⟩
    · cases found
  · cases found

theorem failed_char {x : Char} (h : Failed (char x) c) (rest : List Char) : c.rest ≠ x :: rest := by
  intro text
  have missing := failed_step h
  rw [text] at missing
  simp at missing

/-! ### Negations -/

theorem negation?_suffix {cs rest : List Char} (h : negation? cs = some rest) : rest <:+ cs := by
  rcases negation?_eq_some_iff.mp h with ⟨after, -⟩ | rfl
  · obtain ⟨w, rfl, -⟩ := afterWord?_eq_some_iff.mp after
    exact List.suffix_append _ _
  · exact List.suffix_cons _ _

theorem matched_negation
    (h : Matched (optional (andThen (construct .negation (step negation?)) spaces)) c d parts) :
    d.rest = (negation c.rest).2 ∧ c.Leads d ∧
      parts.foldlM TermParts.add .start = .ok { TermParts.start with negated := (negation c.rest).1 } := by
  rcases matched_optional h with both | ⟨neither, rfl, rfl⟩
  · obtain ⟨e, first, second, word, blanks, rfl⟩ := matched_andThen both
    obtain ⟨rest, found, rfl, rfl⟩ := matched_token word
    obtain ⟨rfl, rfl⟩ := matched_spaces blanks
    have text : negation c.rest = (true, skipSpaces rest) := by rw [negation, found]
    rw [text]
    exact ⟨rfl, (Cursor.Leads.leaving (negation?_suffix found)).trans (.leaving (skipSpaces_suffix _)), rfl⟩
  · have missing : negation? d.rest = none := by
      rcases failed_andThen neither with word | ⟨e, first, -, blanks⟩
      · exact failed_token word
      · exact absurd blanks not_failed_spaces
    have text : negation d.rest = (false, d.rest) := by rw [negation, missing]
    rw [text]
    exact ⟨rfl, .refl d, rfl⟩

/-! ### Fields -/

/-- What follows a given character. -/
def afterChar? (x : Char) (cs : List Char) : Option (List Char) :=
  if startsWith (· = x) cs then some cs.tail else none

theorem afterChar?_eq_some_iff {x : Char} {cs rest : List Char} :
    afterChar? x cs = some rest ↔ cs = x :: rest := by
  cases cs with
  | nil => simp [afterChar?, startsWith]
  | cons c cs => simp [afterChar?, startsWith]

theorem afterChar?_eq_none {x : Char} {cs : List Char} (h : ∀ rest, cs ≠ x :: rest) :
    afterChar? x cs = none := by
  cases cs with
  | nil => rfl
  | cons c cs => exact if_neg fun same => h cs (by rw [of_decide_eq_true same])

/-- What may go on with a name: more of it, and further names, each after a dot. -/
def isLinked : List Char → Bool
  | [] => true
  | c :: cs => (isNameChar c || (c = '.' && startsWith isNameStart cs)) && isLinked cs

theorem isName_eq (cs : List Char) : isName cs = (startsWith isNameStart cs && cs.all isNameChar) := by
  cases cs with
  | nil => rfl
  | cons c cs =>
    cases hc : isNameStart c with
    | false => simp [isName, startsWith, hc]
    | true => simp [isName, startsWith, hc, isNameChar_of_isNameStart c hc]

theorem splitDots_linked (cs : List Char) : ∃ part parts, FieldPath.splitDots cs = part :: parts ∧
    startsWith isNameStart part = startsWith isNameStart cs ∧
    isLinked cs = (part.all isNameChar && parts.all isName) := by
  induction cs with
  | nil => exact ⟨[], [], rfl, rfl, rfl⟩
  | cons c cs ih =>
    obtain ⟨part, parts, split, start, linked⟩ := ih
    by_cases dot : c = '.'
    · subst dot
      refine ⟨[], part :: parts, by simp [FieldPath.splitDots, split], rfl, ?_⟩
      rw [isLinked, ← start, linked, List.all_cons, isName_eq, Bool.and_assoc]
      rfl
    · refine ⟨c :: part, parts, by simp [FieldPath.splitDots, split, dot], rfl, ?_⟩
      rw [isLinked, linked]
      simp [dot, Bool.and_assoc]

/-- A path is names with dots between them if each dot is followed by a name. -/
theorem all_isName_splitDots (cs : List Char) :
    (FieldPath.splitDots cs).all isName = (startsWith isNameStart cs && isLinked cs) := by
  obtain ⟨part, parts, split, start, linked⟩ := splitDots_linked cs
  rw [split, List.all_cons, isName_eq, start, linked, Bool.and_assoc]

theorem startsWith_takeWhile {kind wide : Char → Bool} (included : ∀ c, kind c = true → wide c = true)
    (cs : List Char) : startsWith kind (cs.takeWhile wide) = startsWith kind cs := by
  cases cs with
  | nil => rfl
  | cons c cs =>
    cases hw : wide c with
    | true => rw [List.takeWhile_cons_of_pos hw]; rfl
    | false =>
      rw [List.takeWhile_cons_of_neg (Bool.eq_false_iff.mp hw)]
      exact (Bool.eq_false_iff.mpr fun hk => by rw [included c hk] at hw; cases hw).symm

theorem isPathChar_of_isNameStart (c : Char) (h : isNameStart c = true) : isPathChar c = true :=
  isPathChar_of_isNameChar c (isNameChar_of_isNameStart c h)

/-- A path is matched up to a colon if it goes on as a path does. -/
theorem afterChar?_afterPath (cs : List Char) : afterChar? ':' (afterPath cs) =
    if isLinked (cs.takeWhile isPathChar) then afterChar? ':' (cs.dropWhile isPathChar) else none := by
  induction cs with
  | nil => rfl
  | cons c cs ih =>
    rw [afterPath]
    by_cases name : isNameChar c = true
    · have path := isPathChar_of_isNameChar c name
      rw [if_pos name, ih, List.takeWhile_cons_of_pos path, List.dropWhile_cons_of_pos path, isLinked, name]
      rfl
    · by_cases dot : c = '.'
      · subst dot
        have path : isPathChar '.' = true := rfl
        rw [List.takeWhile_cons_of_pos path, List.dropWhile_cons_of_pos path, isLinked,
          startsWith_takeWhile isPathChar_of_isNameStart]
        cases startsWith isNameStart cs with
        | true => exact ih
        | false => rfl
      · have path : ¬isPathChar c = true := by simp [isPathChar, name, dot]
        rw [List.takeWhile_cons_of_neg path, List.dropWhile_cons_of_neg path]
        simp [name, dot, isLinked]

theorem map_field? (cs : List Char) : (field? cs).map Prod.snd =
    if (FieldPath.splitDots (cs.takeWhile isPathChar)).all isName then
      afterChar? ':' (cs.dropWhile isPathChar) else none := by
  unfold field?
  split
  · next rest colon =>
    rw [colon]
    dsimp only
    split <;> rfl
  · next other =>
    rw [afterChar?_eq_none other, ite_self]
    rfl

/-- A field is matched up to its colon where one is read. -/
theorem bind_afterPath (cs : List Char) :
    (if startsWith isNameStart cs then some (afterPath cs) else none).bind (afterChar? ':') =
      (field? cs).map Prod.snd := by
  rw [map_field?, all_isName_splitDots, startsWith_takeWhile isPathChar_of_isNameStart]
  cases startsWith isNameStart cs with
  | false => rfl
  | true => exact afterChar?_afterPath cs

/-- A field and its colon are matched where a field is read, and built as this. -/
theorem matched_field (path : Matched field c d first) (colon : Matched (char ':') d e second) :
    ∃ found, field? c.rest = some (found, e.rest) ∧ c.Leads e ∧
      ∀ p, (first ++ second).foldlM TermParts.add p = .ok { p with field := some found } := by
  obtain ⟨rest, goesOn, rfl, rfl⟩ := matched_token path
  obtain ⟨text, leads, rfl⟩ := matched_char colon
  have read : (field? c.rest).map Prod.snd = some e.rest := by
    rw [← bind_afterPath, goesOn]
    exact afterChar?_eq_some_iff.mpr text
  obtain ⟨⟨found, rest⟩, read, rfl⟩ := Option.map_eq_some_iff.mp read
  obtain ⟨named, whole⟩ := field?_eq_some_iff.mp read
  rw [← text, c.leaving_rest] at whole
  have suffix : rest <:+ c.rest := ⟨_, whole.symm⟩
  refine ⟨found, read, (Cursor.Leads.leaving suffix).trans leads, fun p => ?_⟩
  have spelled : FieldPath.ofChars (taken c.rest rest) = found := by
    rw [whole, taken_append_left, named.ofChars_text]
  simp only [TermParts.add, spelled, List.append_nil, List.foldlM_cons]
  rfl

theorem field?_of_failed (h : Failed field c ∨ ∃ d parts, Matched field c d parts ∧ Failed (char ':') d) :
    field? c.rest = none := by
  rw [← Option.map_eq_none_iff (f := Prod.snd), ← bind_afterPath]
  rcases h with path | ⟨d, parts, path, colon⟩
  · rw [failed_token path]
    rfl
  · obtain ⟨rest, goesOn, rfl, -⟩ := matched_token path
    rw [goesOn]
    exact afterChar?_eq_none (failed_char colon)

/-! ### Comparators -/

theorem afterComparator?_eq (cs : List Char) : afterComparator? cs =
    if (Lexeme.comparator cs).1 = .eq then none else some (Lexeme.comparator cs).2 := by
  fun_cases Lexeme.comparator cs with
  | case1 => rfl
  | case2 => rfl
  | case3 rest longer => exact afterComparator?.eq_3 rest longer
  | case4 rest longer => exact afterComparator?.eq_4 rest longer
  | case5 _ le ge lt gt => exact afterComparator?.eq_5 cs le ge lt gt

/-- What is matched as a comparator is the symbol of the one that is read. -/
theorem matched_comparator (h : Matched (optional comparator) c d parts) :
    d.rest = (Lexeme.comparator c.rest).2 ∧ c.Leads d ∧ ∀ p : TermParts, p.comparator = .eq →
      parts.foldlM TermParts.add p = .ok { p with comparator := (Lexeme.comparator c.rest).1 } := by
  rcases read : Lexeme.comparator c.rest with ⟨x, body⟩
  obtain ⟨text, -⟩ := comparator_eq_iff.mp read
  rcases matched_optional h with symbol | ⟨missing, rfl, rfl⟩
  · obtain ⟨rest, found, rfl, rfl⟩ := matched_token symbol
    rw [afterComparator?_eq, read] at found
    split at found
    · cases found
    · cases found
      refine ⟨rfl, .leaving ⟨_, text.symm⟩, fun p _ => ?_⟩
      have spelled : taken c.rest body = x.mark := by rw [text, taken_append_left]
      simp only [List.foldlM_cons, TermParts.add, spelled, Comparator.ofSymbol?_mark]
      rfl
  · have missing := failed_token missing
    rw [afterComparator?_eq, read] at missing
    split at missing
    · next equal =>
      cases equal
      exact ⟨text, .refl d, fun p same => by rw [← same]; rfl⟩
    · cases missing

/-! ### Values -/

theorem afterChar?_afterQuoted (cs : List Char) :
    afterChar? '"' (afterQuoted cs) = (quotedBody? cs).map Prod.snd := by
  fun_induction quotedBody? cs with
  | case1 => rfl
  | case2 => rfl
  | case3 => rfl
  | case4 c cs ih => simp [afterQuoted, ih, Function.comp_def]
  | case5 c cs quote lone escape ih =>
    rw [afterQuoted.eq_5 c cs quote lone escape, ih, Option.map_map]
    rfl

theorem takeWhile_eq_nil_iff {kind : Char → Bool} {cs : List Char} :
    cs.takeWhile kind = [] ↔ startsWith kind cs = false := by
  cases cs with
  | nil => simp [startsWith]
  | cons c cs => cases hc : kind c <;> simp [startsWith, hc]

theorem afterQuoted_suffix (cs : List Char) : afterQuoted cs <:+ cs := by
  fun_induction afterQuoted cs with
  | case1 => exact List.suffix_refl _
  | case2 => exact List.suffix_refl _
  | case3 => exact List.suffix_refl _
  | case4 c cs ih => exact ih.trans ⟨['\\', c], rfl⟩
  | case5 c cs _ _ _ ih => exact ih.trans (List.suffix_cons _ _)

/-- A quoted text is matched where one is read, and built as the text without its backslashes. -/
theorem matched_quoted (h : Matched quoted c d parts) :
    ∃ v, value? c.rest = some (v, d.rest) ∧ c.Leads d ∧
      ∀ p : TermParts, parts.foldlM TermParts.add p = .ok { p with value := some v } := by
  obtain ⟨inside, matched, rfl⟩ := matched_construct h
  obtain ⟨e, first, others, opened, more, rfl⟩ := matched_andThen matched
  obtain ⟨f, raw, last, between, closed, rfl⟩ := matched_andThen more
  obtain ⟨start, leads, rfl⟩ := matched_char opened
  obtain ⟨rest, same, rfl, rfl⟩ := matched_token between
  cases same
  obtain ⟨quote, finish, rfl⟩ := matched_char closed
  have read : (quotedBody? e.rest).map Prod.snd = some d.rest := by
    rw [← afterChar?_afterQuoted]
    exact afterChar?_eq_some_iff.mpr quote
  obtain ⟨⟨body, rest⟩, read, rfl⟩ := Option.map_eq_some_iff.mp read
  obtain ⟨text, whole, escaped⟩ := exists_escaped read
  refine ⟨.string (String.ofList body), ?_, ?_, fun p => ?_⟩
  · rw [start, value?, read]
    rfl
  · exact leads.trans ((Cursor.Leads.leaving (afterQuoted_suffix _)).trans finish)
  · have spelled : taken e.rest (afterQuoted e.rest) = text := by
      rw [← e.leaving_rest (afterQuoted e.rest), quote, whole, taken_append_left]
    simp only [List.nil_append, List.append_nil, List.foldlM_cons, TermParts.add, List.head?_cons,
      Option.map_some, Option.getD_some, spelled, escaped.unescape]
    rfl

theorem value?_of_start {cs : List Char} (h : startsWith isBareChar cs = true) :
    value? cs = some (.ofBare (cs.takeWhile isBareChar), cs.dropWhile isBareChar) := by
  fun_cases value? cs with
  | case1 rest => cases h
  | case2 _ other nothing =>
    rw [takeWhile_eq_nil_iff.mp nothing] at h
    cases h
  | case3 _ other something => rfl

/-- An unquoted word is matched where one is read, and built as what it stands for. -/
theorem matched_bare (h : Matched bare c d parts) :
    ∃ v, value? c.rest = some (v, d.rest) ∧ c.Leads d ∧
      ∀ p : TermParts, parts.foldlM TermParts.add p = .ok { p with value := some v } := by
  obtain ⟨rest, found, rfl, rfl⟩ := matched_token h
  obtain ⟨start, same⟩ := Option.ite_none_right_eq_some.mp found
  cases same
  refine ⟨_, value?_of_start start, .leaving (List.dropWhile_suffix _), fun p => ?_⟩
  simp only [List.foldlM_cons, TermParts.add, taken_dropWhile]
  rfl

theorem quotedBody?_of_failed (h : Failed quoted c) {rest : List Char} (text : c.rest = '"' :: rest) :
    quotedBody? rest = none := by
  rcases failed_andThen (failed_construct h) with missing | ⟨d, _, opened, more⟩
  · exact absurd text (failed_char missing rest)
  · obtain ⟨start, -, -⟩ := matched_char opened
    rw [text] at start
    cases start
    rcases failed_andThen more with inner | ⟨e, _, inner, missing⟩
    · cases failed_token inner
    · obtain ⟨_, same, rfl, -⟩ := matched_token inner
      cases same
      rw [← Option.map_eq_none_iff (f := Prod.snd), ← afterChar?_afterQuoted]
      exact afterChar?_eq_none (failed_char missing)

theorem value?_of_failed (h : Failed (orElse quoted bare) c) : value? c.rest = none := by
  obtain ⟨quoted, bare⟩ := failed_orElse h
  have stop := failed_token bare
  unfold value?
  split
  · next rest text =>
    rw [quotedBody?_of_failed quoted text]
    rfl
  · split
    · rfl
    · next something =>
      split at stop
      · cases stop
      · next other => exact absurd (takeWhile_eq_nil_iff.mpr (Bool.eq_false_iff.mpr other)) something

/-! ### Terms -/

/-- A term is matched where one is read, and built as this, with its place. -/
theorem matched_term (h : Matched term c d parts) : ∃ t, term? c.position c.rest = some (t, d.rest) ∧
    c.Leads d ∧ Node.ofDerivations parts = .ok [.term t] := by
  obtain ⟨inside, matched, rfl⟩ := matched_construct h
  obtain ⟨c₁, ps, _, negated, afterNegation, rfl⟩ := matched_andThen matched
  obtain ⟨c₂, qs, _, path, afterPath, rfl⟩ := matched_andThen afterNegation
  obtain ⟨c₃, rs, _, colon, afterColon, rfl⟩ := matched_andThen afterPath
  obtain ⟨c₄, ss, ts, symbol, value, rfl⟩ := matched_andThen afterColon
  obtain ⟨body, leads₁, built₁⟩ := matched_negation negated
  obtain ⟨found, field, leads₃, built₃⟩ := matched_field path colon
  obtain ⟨rest, leads₄, built₄⟩ := matched_comparator symbol
  obtain ⟨v, word, leads, built⟩ := (matched_orElse value).elim matched_quoted fun h => matched_bare h.2
  rw [rest] at word
  rw [body] at field
  refine ⟨⟨found, (Lexeme.comparator c₃.rest).1, v, (negation c.rest).1, c.position.span (taken c.rest d.rest)⟩,
    ?_, ((leads₁.trans leads₃).trans leads₄).trans leads, ?_⟩
  · rw [term?_eq, field, Option.bind_some]
    dsimp only
    rw [word]
    rfl
  · have parts : (ps ++ (qs ++ (rs ++ (ss ++ ts)))).foldlM TermParts.add .start =
        .ok ⟨(negation c.rest).1, some found, (Lexeme.comparator c₃.rest).1, some v⟩ := by
      rw [List.foldlM_append, built₁]
      show (qs ++ (rs ++ (ss ++ ts))).foldlM TermParts.add ⟨(negation c.rest).1, none, .eq, none⟩ = _
      rw [← List.append_assoc, List.foldlM_append, built₃]
      show (ss ++ ts).foldlM TermParts.add ⟨(negation c.rest).1, some found, .eq, none⟩ = _
      rw [List.foldlM_append, built₄ _ rfl]
      exact built _
    simp only [Node.ofDerivations, Node.ofDerivation, Term.ofDerivation, parts]
    rfl

/-- No term is read where none is matched. -/
theorem term?_of_failed (h : Failed term c) (p : Position) : term? p c.rest = none := by
  have fails {e : Cursor} (leads : (negation c.rest).2 = e.rest) (missing : field? e.rest = none) :
      term? p c.rest = none := by
    rw [term?_eq, leads, missing]
    rfl
  rcases failed_andThen (failed_construct h) with never | ⟨c₁, _, negated, more⟩
  · exact absurd never not_failed_optional
  · obtain ⟨body, -, -⟩ := matched_negation negated
    rcases failed_andThen more with path | ⟨c₂, _, path, more⟩
    · exact fails body.symm (field?_of_failed (.inl path))
    · rcases failed_andThen more with colon | ⟨c₃, _, colon, more⟩
      · exact fails body.symm (field?_of_failed (.inr ⟨c₂, _, path, colon⟩))
      · obtain ⟨found, field, -, -⟩ := matched_field path colon
        rcases failed_andThen more with never | ⟨c₄, _, symbol, value⟩
        · exact absurd never not_failed_optional
        · obtain ⟨rest, -, -⟩ := matched_comparator symbol
          have word := value?_of_failed value
          rw [rest] at word
          rw [body] at field
          rw [term?_eq, field, Option.bind_some]
          dsimp only
          rw [word]
          rfl

end Words

end Matcher

end SearchFilter
