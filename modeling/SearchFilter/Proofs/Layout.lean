import SearchFilter.Proofs.TermText

/-!
# Where the lexemes of a text stand

A text that splits into lexemes is made of their texts in order, with nothing but blanks between them
(`Laid`). The places that are counted along the way are those of the terms, so what a place says can be
read off the text: a term's place is the number of bytes before it and the number up to its end.
-/

namespace SearchFilter

open Lexeme Text

/-! ### Places -/

namespace Position

theorem after_append (p : Position) (xs ys : List Char) : p.after (xs ++ ys) = (p.after xs).after ys :=
  List.foldl_append

theorem offset_next (p : Position) (c : Char) : (p.next c).offset = p.offset + c.utf8Size := by
  unfold next
  split <;> rfl

/-- A place moves on by the bytes of the text that is passed. -/
theorem offset_after (p : Position) (cs : List Char) :
    (p.after cs).offset = p.offset + (String.ofList cs).utf8ByteSize := by
  induction cs generalizing p with
  | nil => rfl
  | cons c cs ih =>
    rw [after, List.foldl_cons, ← after, ih, offset_next, String.ofList_cons,
      String.utf8ByteSize_append, String.utf8ByteSize_singleton, Nat.add_assoc]

end Position

/-! ### Layouts -/

/-- From a place on, a text holds some lexemes, with nothing but blanks between them. -/
inductive Laid : Position → List Char → List Lexeme → Prop where
  /-- An empty text holds none. -/
  | nil {p : Position} : Laid p [] []
  /-- A blank is passed over. -/
  | blank {p : Position} {c : Char} {cs : List Char} {ls : List Lexeme} : isSpace c = true →
      Laid (p.next c) cs ls → Laid p (c :: cs) ls
  /-- An opening parenthesis. -/
  | opening {p : Position} {cs : List Char} {ls : List Lexeme} : Laid (p.next '(') cs ls →
      Laid p ('(' :: cs) (.opening :: ls)
  /-- A closing parenthesis. -/
  | closing {p : Position} {cs : List Char} {ls : List Lexeme} : Laid (p.next ')') cs ls →
      Laid p (')' :: cs) (.closing :: ls)
  /-- A keyword in any letter case, which no name goes on with. -/
  | keyword {p : Position} {c : Connective} {w cs : List Char} {ls : List Lexeme} :
      equalsIgnoringCase w (word c) = true → startsWith isNameChar cs = false →
      Laid (p.after w) cs ls → Laid p (w ++ cs) (.keyword c :: ls)
  /-- A term, with its place. -/
  | term {p : Position} {t : Term} {w cs : List Char} {ls : List Lexeme} : TermText w t →
      t.span = p.span w → Laid (p.after w) cs ls → Laid p (w ++ cs) (.term t :: ls)

/-- The term of a lexeme, if it is one. -/
def Lexeme.terms : Lexeme → List Term
  | .term t => [t]
  | _ => []

namespace Laid

variable {p : Position} {cs : List Char} {ls : List Lexeme}

theorem blanks {bs : List Char} (h : bs.all isSpace = true) (rest : Laid (p.after bs) cs ls) :
    Laid p (bs ++ cs) ls := by
  induction bs generalizing p with
  | nil => exact rest
  | cons b bs ih =>
    rw [List.all_cons, Bool.and_eq_true] at h
    exact .blank h.1 (ih h.2 rest)

/-- The next lexeme, and what follows it. -/
theorem next {l : Lexeme} {rest : List Char} (first : next? p cs = some (l, rest))
    (more : Laid (p.after (taken cs rest)) rest ls) : Laid p cs (l :: ls) := by
  rcases next?_cases first with ⟨rfl, rfl⟩ | ⟨rfl, rfl⟩ | ⟨t, rfl, found⟩ | ⟨c, rfl, found⟩
  · have text : taken ('(' :: rest) rest = ['('] := taken_append_left ['('] rest
    rw [text] at more
    exact .opening more
  · have text : taken (')' :: rest) rest = [')'] := taken_append_left [')'] rest
    rw [text] at more
    exact .closing more
  · obtain ⟨w, rfl, written, place⟩ := exists_termText found
    rw [taken_append_left] at more
    exact .term written place more
  · obtain ⟨after, ends⟩ := keyword?_eq_some_iff.mp found
    obtain ⟨w, rfl, same⟩ := afterWord?_eq_some_iff.mp after
    rw [taken_append_left] at more
    exact .keyword same ends more

/-- A text that splits into lexemes is laid out as these. -/
theorem of_all? (h : all? p cs = some ls) : Laid p cs ls := by
  -- on the length of the text, since a lexeme may be of any length
  induction hl : cs.length using Nat.strongRecOn generalizing p cs ls with
  | ind n ih =>
    subst hl
    have blank : (cs.takeWhile isSpace).all isSpace = true := List.all_takeWhile
    rw [← List.takeWhile_append_dropWhile (p := isSpace) (l := cs)]
    refine blanks blank ?_
    cases hs : cs.dropWhile isSpace with
    | nil =>
      rw [all?_nil p hs] at h
      cases h
      exact .nil
    | cons c tail =>
      rw [all?_cons p hs] at h
      obtain ⟨⟨l, rest⟩, first, others⟩ := Option.bind_eq_some_iff.mp h
      obtain ⟨more, split, rfl⟩ := Option.map_eq_some_iff.mp others
      exact next first (ih rest.length (length_next?_lt hs first) split rfl)

/-- A text without lexemes is blank. -/
theorem isSpace_of_nil (h : Laid p cs []) : ∀ c ∈ cs, isSpace c = true := by
  generalize hn : ([] : List Lexeme) = ls at h
  induction h with
  | nil => exact nofun
  | blank space _ ih => exact List.forall_mem_cons.mpr ⟨space, ih hn⟩
  | opening => cases hn
  | closing => cases hn
  | keyword => cases hn
  | term => cases hn

/-- Each term stands somewhere in the text, at its place. -/
theorem exists_place (h : Laid p cs ls) : ∀ t ∈ ls.flatMap Lexeme.terms, ∃ before inside after,
    cs = before ++ inside ++ after ∧ TermText inside t ∧ t.span = (p.after before).span inside := by
  induction h with
  | nil => exact nofun
  | @blank p c cs ls space _ ih =>
    intro t ht
    obtain ⟨before, inside, after, rfl, written, place⟩ := ih t ht
    exact ⟨c :: before, inside, after, rfl, written, place⟩
  | @opening p cs ls _ ih =>
    intro t ht
    obtain ⟨before, inside, after, rfl, written, place⟩ := ih t ht
    exact ⟨'(' :: before, inside, after, rfl, written, place⟩
  | @closing p cs ls _ ih =>
    intro t ht
    obtain ⟨before, inside, after, rfl, written, place⟩ := ih t ht
    exact ⟨')' :: before, inside, after, rfl, written, place⟩
  | @keyword p c w cs ls _ _ _ ih =>
    intro t ht
    obtain ⟨before, inside, after, rfl, written, place⟩ := ih t ht
    rw [← Position.after_append] at place
    exact ⟨w ++ before, inside, after, by simp only [List.append_assoc], written, place⟩
  | @term p u w cs ls text at_place _ ih =>
    intro t ht
    rcases List.mem_cons.mp ht with rfl | ht
    · exact ⟨[], w, cs, rfl, text, at_place⟩
    · obtain ⟨before, inside, after, rfl, written, place⟩ := ih t ht
      rw [← Position.after_append] at place
      exact ⟨w ++ before, inside, after, by simp only [List.append_assoc], written, place⟩

/-- Later terms stand after earlier ones. -/
theorem pairwise (h : Laid p cs ls) :
    (ls.flatMap Lexeme.terms).Pairwise fun s t => s.span.stop ≤ t.span.start := by
  induction h with
  | nil => exact .nil
  | blank _ _ ih => exact ih
  | opening _ ih => exact ih
  | closing _ ih => exact ih
  | keyword _ _ _ ih => exact ih
  | @term p u w cs ls _ place rest ih =>
    refine .cons (fun t ht => ?_) ih
    obtain ⟨before, inside, after, -, -, later⟩ := rest.exists_place t ht
    rw [place, later]
    show (p.after w).offset ≤ ((p.after w).after before).offset
    rw [(p.after w).offset_after]
    exact Nat.le_add_right _ _

end Laid

end SearchFilter
