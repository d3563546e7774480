import SearchFilter.Proofs.Grammar

/-!
# Every part of a text is accounted for

The terms of a query stand in its text in the order in which the tree has them, each at its place, and a
term that is cut out of the text is read alone as the same term. What is left of the text is blanks,
keywords and parentheses that match. So reading neither loses a part of a text nor uses one twice.
-/

namespace SearchFilter

open Lexeme Text

/-- The text of a term is read as that term. -/
theorem TermText.ofChars? {cs : List Char} {t : Term} (h : TermText cs t) :
    Group.ofChars? cs = some ⟨.and, [.term { t with span := Position.start.span cs }]⟩ := by
  rw [Group.ofChars?, h.all?]
  rfl

/-- The terms of a query are what a text holds, but for blanks, keywords and parentheses. -/
structure Group.Covers (g : Group) (text : String) : Prop where
  /-- The place of a term is a part of the text, not empty and between characters, that is read alone
  as the same term. -/
  places : ∀ t ∈ g.terms, ∃ before inside after : String, text = before ++ inside ++ after ∧
    t.span.start = before.utf8ByteSize ∧ t.span.stop = (before ++ inside).utf8ByteSize ∧
    t.span.start < t.span.stop ∧
    ∃ alone, Group.read inside = .ok ⟨.and, [.term alone]⟩ ∧ alone.placeless = t.placeless
  /-- The terms stand in the order of the tree, and none begins before the one before it has ended. -/
  ordered : g.terms.Pairwise fun s t => s.span.stop ≤ t.span.start
  /-- The text around them is blanks, keywords and parentheses that match. -/
  around : ∃ ls, Laid .start text.toList ls ∧ ls.flatMap Lexeme.terms = g.terms ∧
    ls.foldlM depth? 0 = some 0

/-- A query that was read has all that its text holds, once and in order. -/
theorem Group.read_covers {text : String} {g : Group} (h : Group.read text = .ok g) : g.Covers text := by
  obtain ⟨ls, split, made⟩ := Option.bind_eq_some_iff.mp (Group.read_eq_ok_iff.mp h)
  obtain ⟨terms, balanced, -⟩ := ofLexemes?_spec made
  have laid := Laid.of_all? split
  refine ⟨fun t ht => ?_, terms ▸ laid.pairwise, ls, laid, terms.symm, balanced⟩
  rw [terms] at ht
  obtain ⟨before, inside, after, whole, written, place⟩ := laid.exists_place t ht
  have start : t.span.start = (String.ofList before).utf8ByteSize := by
    rw [place]
    exact (Position.start.offset_after before).trans (Nat.zero_add _)
  have stop : t.span.stop = t.span.start + (String.ofList inside).utf8ByteSize := by
    rw [place]
    exact (Position.start.after before).offset_after inside
  have nonempty : 0 < (String.ofList inside).utf8ByteSize := by
    refine Nat.pos_of_ne_zero fun zero => written.ne_nil (String.ofList_injective ?_)
    exact String.utf8ByteSize_eq_zero_iff.mp zero
  refine ⟨.ofList before, .ofList inside, .ofList after, ?_, start, ?_, by omega, ?_⟩
  · rw [← String.ofList_append, ← String.ofList_append, ← whole, String.ofList_toList]
  · rw [String.utf8ByteSize_append, stop, start]
  · refine ⟨{ t with span := Position.start.span inside }, Group.read_eq_ok_iff.mpr ?_, rfl⟩
    rw [String.toList_ofList]
    exact written.ofChars?

/-- A negation with blanks in it, a quoted value with parentheses and a keyword, a field that spells a
keyword, and characters of two bytes. -/
theorem Group.read_covers_mixed :
    let text := "(NOT  a:\"é) OR (\" or b.c:>=1)aNd -and:ü"
    ∃ g, Group.read text = .ok g ∧
      g.terms.map (fun t => (t.span.start, t.span.stop)) = [(1, 18), (22, 29), (34, 41)] ∧
      g.Covers text := by
  intro text
  have spans : (Group.read text).toOption.any (fun g =>
      g.terms.map (fun t => (t.span.start, t.span.stop)) = [(1, 18), (22, 29), (34, 41)]) = true := by
    decide +kernel
  cases read : Group.read text with
  | error e =>
    rw [read] at spans
    cases spans
  | ok g =>
    rw [read] at spans
    exact ⟨g, rfl, of_decide_eq_true spans, read_covers read⟩

end SearchFilter
