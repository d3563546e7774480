import SearchFilter.Query.Derivation

/-!
# What is built from a derivation

Building goes through the parts of a construct in order, so parts that are built are built also where
more parts follow them. Where it fails, the error is about a construct inside the derivation: that it is
misplaced, or that it is the symbol of no comparator (`Group.ofDerivations_error`). It is never reported
that the text cannot be read, which is for the grammar to say.
-/

namespace SearchFilter

/-! ### Parts in order -/

namespace Node

variable {d : Derivation} {ds : List Derivation}

theorem ofDerivations_keyword (h : d.construct = .andKeyword ∨ d.construct = .orKeyword) :
    ofDerivations (d :: ds) = ofDerivations ds := by
  rw [ofDerivations.eq_def]
  rcases h with same | same
  · simp only [same]
  · simp only [same]

theorem ofDerivations_cons (h : ¬(d.construct = .andKeyword ∨ d.construct = .orKeyword)) :
    ofDerivations (d :: ds) = ofDerivation d >>= fun node =>
      ofDerivations ds >>= fun nodes => pure (node :: nodes) := by
  rw [ofDerivations.eq_def]
  dsimp only
  split
  · next same => exact absurd (.inl same) h
  · next same => exact absurd (.inr same) h
  · rfl

theorem ofDerivations_append {xs ys : List Derivation} {first second : List Node}
    (hx : ofDerivations xs = .ok first) (hy : ofDerivations ys = .ok second) :
    ofDerivations (xs ++ ys) = .ok (first ++ second) := by
  induction xs generalizing first with
  | nil =>
    cases hx
    exact hy
  | cons x xs ih =>
    rw [List.cons_append]
    by_cases keyword : x.construct = .andKeyword ∨ x.construct = .orKeyword
    · rw [ofDerivations_keyword keyword] at hx ⊢
      exact ih hx
    · rw [ofDerivations_cons keyword] at hx ⊢
      cases hn : ofDerivation x with
      | error e =>
        rw [hn] at hx
        cases hx
      | ok node =>
        cases hxs : ofDerivations xs with
        | error e =>
          rw [hn, hxs] at hx
          cases hx
        | ok nodes =>
          rw [hn, hxs] at hx
          cases hx
          rw [ih hxs]
          rfl

theorem ofDerivation_of_singleton {node : Node}
    (keyword : ¬(d.construct = .andKeyword ∨ d.construct = .orKeyword))
    (h : ofDerivations [d] = .ok [node]) : ofDerivation d = .ok node := by
  rw [ofDerivations_cons keyword] at h
  cases built : ofDerivation d with
  | error e =>
    rw [built] at h
    cases h
  | ok found =>
    rw [built] at h
    cases h
    rfl

end Node

/-! ### Errors -/

/-- A construct is a derivation or stands somewhere inside it. -/
inductive Derivation.Within : Derivation → Derivation → Prop where
  /-- A derivation itself. -/
  | self {d : Derivation} : Within d d
  /-- What stands inside a part. -/
  | part {x p d : Derivation} : p ∈ d.parts → Within x p → Within x d

/-- An error that building may report: a construct inside is misplaced, or no comparator. -/
def Derivation.Reports (d : Derivation) (e : SyntaxError) : Prop :=
  ∃ x : Derivation, x.Within d ∧ (e = x.misplaced ∨
    x.construct = .comparator ∧ Comparator.ofSymbol? (String.ofList x.text) = none ∧
      e = .invalidComparator (String.ofList x.text))

namespace Derivation

theorem reports_misplaced (d : Derivation) : d.Reports d.misplaced := ⟨d, .self, .inl rfl⟩

theorem Reports.part {p d : Derivation} {e : SyntaxError} (h : p.Reports e) (member : p ∈ d.parts) :
    d.Reports e := by
  obtain ⟨x, within, error⟩ := h
  exact ⟨x, .part member within, error⟩

end Derivation

theorem TermParts.add_error {p : TermParts} {d : Derivation} {e : SyntaxError} (h : p.add d = .error e) :
    d.Reports e := by
  unfold add at h
  split at h
  · cases h
  · cases h
  · next comparator =>
    split at h
    · cases h
    · next symbol =>
      cases h
      exact ⟨d, .self, .inr ⟨comparator, symbol, rfl⟩⟩
  · cases h
  · cases h
  · cases h
    exact d.reports_misplaced

theorem Term.ofDerivation_error {d : Derivation} {e : SyntaxError} (h : Term.ofDerivation d = .error e) :
    d.Reports e := by
  have parts : ∀ (ds : List Derivation) (p : TermParts), ds.foldlM TermParts.add p = .error e →
      ∃ part ∈ ds, part.Reports e := by
    intro ds
    induction ds with
    | nil => exact fun p h => nomatch h
    | cons part ds ih =>
      intro p h
      rw [List.foldlM_cons] at h
      cases added : p.add part with
      | error found =>
        rw [added] at h
        cases h
        exact ⟨part, List.mem_cons_self, TermParts.add_error added⟩
      | ok next =>
        rw [added] at h
        obtain ⟨other, member, error⟩ := ih next h
        exact ⟨other, List.mem_cons_of_mem _ member, error⟩
  unfold ofDerivation at h
  cases gone : d.parts.foldlM TermParts.add .start with
  | error found =>
    rw [gone] at h
    cases h
    obtain ⟨part, member, error⟩ := parts d.parts .start gone
    exact error.part member
  | ok found =>
    rw [gone] at h
    dsimp only [bind, Except.bind] at h
    split at h
    · cases h
    · cases h
      exact d.reports_misplaced

theorem Node.combine_error {d : Derivation} {c : Connective} {e : SyntaxError}
    (parts : ∀ e, Node.ofDerivations d.parts = .error e → ∃ part ∈ d.parts, part.Reports e)
    (h : Node.combine c <$> Node.ofDerivations d.parts = .error e) : d.Reports e := by
  cases built : Node.ofDerivations d.parts with
  | error found =>
    obtain ⟨part, member, error⟩ := parts found built
    rw [built] at h
    cases h
    exact error.part member
  | ok nodes =>
    rw [built] at h
    cases h

theorem Node.ofDerivation_error : ∀ (d : Derivation) (e : SyntaxError),
    Node.ofDerivation d = .error e → d.Reports e := by
  refine Node.ofDerivation.induct (fun d => ∀ e, Node.ofDerivation d = .error e → d.Reports e)
    (fun ds => ∀ e, Node.ofDerivations ds = .error e → ∃ d ∈ ds, d.Reports e)
    ?alternatives ?operands ?group ?term ?other ?nil ?andKeyword ?orKeyword ?cons
  case alternatives =>
    intro position text parts ih e h
    rw [Node.ofDerivation] at h
    exact Node.combine_error ih h
  case operands =>
    intro position text parts ih e h
    rw [Node.ofDerivation] at h
    exact Node.combine_error ih h
  case group =>
    intro position text inner rest ih e h
    rw [Node.ofDerivation] at h
    exact (ih e h).part List.mem_cons_self
  case term =>
    intro position text parts e h
    rw [Node.ofDerivation] at h
    cases built : Term.ofDerivation ⟨.term, position, text, parts⟩ with
    | error found =>
      rw [built] at h
      cases h
      exact Term.ofDerivation_error built
    | ok t =>
      rw [built] at h
      cases h
  case other =>
    intro d alternatives operands group term e h
    rw [Node.ofDerivation.eq_5 d alternatives operands group term] at h
    cases h
    exact d.reports_misplaced
  case nil => exact fun e h => nomatch h
  case andKeyword =>
    intro d ds keyword ih e h
    rw [Node.ofDerivations_keyword (.inl keyword)] at h
    obtain ⟨part, member, error⟩ := ih e h
    exact ⟨part, List.mem_cons_of_mem _ member, error⟩
  case orKeyword =>
    intro d ds keyword ih e h
    rw [Node.ofDerivations_keyword (.inr keyword)] at h
    obtain ⟨part, member, error⟩ := ih e h
    exact ⟨part, List.mem_cons_of_mem _ member, error⟩
  case cons =>
    intro d ds notAnd notOr first others e h
    rw [Node.ofDerivations_cons (not_or.mpr ⟨notAnd, notOr⟩)] at h
    cases built : Node.ofDerivation d with
    | error found =>
      rw [built] at h
      cases h
      exact ⟨d, List.mem_cons_self, first e built⟩
    | ok node =>
      cases more : Node.ofDerivations ds with
      | error found =>
        obtain ⟨part, member, error⟩ := others found more
        rw [built, more] at h
        cases h
        exact ⟨part, List.mem_cons_of_mem _ member, error⟩
      | ok nodes =>
        rw [built, more] at h
        cases h

/-- Where no query is built from what was matched, the error is about a construct in it. -/
theorem Group.ofDerivations_error {ds : List Derivation} {e : SyntaxError}
    (h : Group.ofDerivations ds = .error e) : ∃ d ∈ ds, d.Reports e := by
  cases ds with
  | nil => cases h
  | cons query ds =>
    unfold ofDerivations at h
    dsimp only at h
    split at h
    · cases h
    · next d found =>
      cases built : Node.ofDerivation d with
      | error reported =>
        rw [built] at h
        cases h
        exact ⟨query, List.mem_cons_self,
          (Node.ofDerivation_error d _ built).part (List.mem_of_find?_eq_some found)⟩
      | ok node =>
        rw [built] at h
        cases h

example : Node.ofDerivation ⟨.term, .start, "a:=>1".toList, [⟨.field, .start, ['a'], []⟩,
    ⟨.comparator, ⟨2, 1, 3⟩, "=>".toList, []⟩]⟩ = .error (.invalidComparator "=>") := rfl

end SearchFilter
