import SearchFilter.Proofs.Lexing

/-!
# Queries inside queries

A query that stands in parentheses is read as it is read alone: the groups around it are neither
looked at nor changed until its own parenthesis closes. Nor does reading look into the terms, so that
what is read is known up to the places of the terms from the lexemes without them.
-/

namespace SearchFilter

/-! ### Parts as queries -/

theorem Group.terms_ofNode (node : Node) : (Group.ofNode node).terms = node.terms := by
  cases node with
  | term t => rfl
  | group c children => rw [ofNode, terms, Node.terms]

theorem Node.terms_combine (c : Connective) (nodes : List Node) :
    (Node.combine c nodes).terms = Node.allTerms nodes := by
  rcases nodes with _ | ⟨x, _ | ⟨y, nodes⟩⟩ <;> simp [combine, terms, allTerms]

theorem Node.allTerms_append (xs ys : List Node) :
    Node.allTerms (xs ++ ys) = Node.allTerms xs ++ Node.allTerms ys := by
  induction xs with
  | nil => rw [allTerms]; rfl
  | cons x xs ih => rw [List.cons_append, allTerms, allTerms, ih, List.append_assoc]

theorem Node.allTerms_singleton (node : Node) : Node.allTerms [node] = node.terms := by
  rw [allTerms, allTerms, List.append_nil]

theorem Node.termCounts_mapAllTerms (f : Term → Term) (nodes : List Node) :
    Node.termCounts (Node.mapAllTerms f nodes) = Node.termCounts nodes := by
  induction nodes using Node.induction with
  | nil => rfl
  | term t nodes ih => rw [mapAllTerms, mapTerms, termCounts, termCounts, ih, termCount, termCount]
  | group c children nodes ihChildren ih =>
    rw [mapAllTerms, mapTerms, termCounts, termCounts, ih, termCount, termCount, ihChildren]

/-! ### Changed terms -/

theorem Node.mapAllTerms_append (f : Term → Term) (xs ys : List Node) :
    Node.mapAllTerms f (xs ++ ys) = Node.mapAllTerms f xs ++ Node.mapAllTerms f ys := by
  induction xs with
  | nil => rfl
  | cons x xs ih => rw [List.cons_append, mapAllTerms, mapAllTerms, ih, List.cons_append]

theorem Node.mapTerms_combine (f : Term → Term) (c : Connective) (nodes : List Node) :
    (Node.combine c nodes).mapTerms f = Node.combine c (Node.mapAllTerms f nodes) := by
  rcases nodes with _ | ⟨x, _ | ⟨y, nodes⟩⟩ <;> simp [combine, mapTerms, mapAllTerms]

theorem Group.mapTerms_ofNode (f : Term → Term) (node : Node) :
    (Group.ofNode node).mapTerms f = Group.ofNode (node.mapTerms f) := by
  cases node <;> simp [ofNode, mapTerms, Node.mapTerms, Node.mapAllTerms]

/-- A group that is being read, with each term changed. -/
def Frame.mapTerms (f : Term → Term) (frame : Frame) : Frame :=
  ⟨Node.mapAllTerms f frame.alternatives, Node.mapAllTerms f frame.operands⟩

namespace Frame

variable (f : Term → Term) (frame : Frame)

theorem mapTerms_push (node : Node) :
    (frame.push node).mapTerms f = (frame.mapTerms f).push (node.mapTerms f) := by
  simp [push, mapTerms, Node.mapAllTerms_append, Node.mapAllTerms]

theorem mapTerms_split : frame.split.mapTerms f = (frame.mapTerms f).split := by
  simp [split, mapTerms, Node.mapAllTerms_append, Node.mapAllTerms, Node.mapTerms_combine]

theorem mapTerms_close : frame.close.mapTerms f = (frame.mapTerms f).close := by
  rw [close, Node.mapTerms_combine, close, ← mapTerms_split]
  rfl

end Frame

namespace Progress

/-- What has been read of a query, with each term changed. -/
def mapTerms (f : Term → Term) (p : Progress) : Progress :=
  ⟨p.outer.map (Frame.mapTerms f), p.current.mapTerms f, p.wanting⟩

theorem step_mapTerms (f : Term → Term) (p : Progress) (l : Lexeme) :
    (p.mapTerms f).step (l.mapTerm f) = (p.step l).map (mapTerms f) := by
  obtain ⟨outer, current, wanting⟩ := p
  cases l with
  | opening => rfl
  | closing =>
    cases wanting with
    | true => rfl
    | false =>
      cases outer with
      | nil => rfl
      | cons frame outer =>
        simp [step, mapTerms, Lexeme.mapTerm, Frame.mapTerms_push, Frame.mapTerms_close]
  | keyword c => cases c <;> cases wanting <;> simp [step, mapTerms, Lexeme.mapTerm, Frame.mapTerms_split]
  | term t => simp [step, mapTerms, Lexeme.mapTerm, Frame.mapTerms_push, Node.mapTerms]

theorem foldlM_step_mapTerms (f : Term → Term) (ls : List Lexeme) : ∀ p : Progress,
    (ls.map (Lexeme.mapTerm f)).foldlM step (p.mapTerms f) = (ls.foldlM step p).map (mapTerms f) := by
  induction ls with
  | nil => exact fun p => rfl
  | cons l ls ih =>
    intro p
    rw [List.map_cons, List.foldlM_cons, List.foldlM_cons, step_mapTerms]
    cases p.step l with
    | none => rfl
    | some q => exact ih q

theorem finish?_mapTerms (f : Term → Term) (p : Progress) :
    (p.mapTerms f).finish? = p.finish?.map (Group.mapTerms f) := by
  obtain ⟨_ | ⟨frame, outer⟩, current, _ | _⟩ := p <;>
    simp [finish?, mapTerms, Group.mapTerms_ofNode, Frame.mapTerms_close]

end Progress

/-- Reading does not look into terms. -/
theorem Group.ofLexemes?_mapTerm (f : Term → Term) (ls : List Lexeme) :
    Group.ofLexemes? (ls.map (Lexeme.mapTerm f)) = (Group.ofLexemes? ls).map (Group.mapTerms f) := by
  unfold ofLexemes?
  rw [List.isEmpty_map]
  split
  · rfl
  · have start : Progress.start.mapTerms f = .start := rfl
    have fold := Progress.foldlM_step_mapTerms f ls .start
    rw [start] at fold
    rw [fold]
    cases ls.foldlM Progress.step .start with
    | none => rfl
    | some p => exact p.finish?_mapTerms f

/-- The query a text spells, without the places of its terms. -/
def Group.shape? (cs : List Char) : Option Group := (Lexeme.words? cs).bind Group.ofLexemes?

theorem Group.shape?_eq (cs : List Char) :
    Group.shape? cs = (Group.ofChars? cs).map (Group.mapTerms Term.placeless) := by
  unfold shape? ofChars? Lexeme.words?
  cases Lexeme.all? .start cs with
  | none => rfl
  | some ls => exact Group.ofLexemes?_mapTerm Term.placeless ls

/-! ### Groups around a query -/

namespace Progress

/-- What has been read of a query that further groups stand around. -/
def within (p : Progress) (around : List Frame) : Progress := { p with outer := p.outer ++ around }

theorem step_within {p q : Progress} {l : Lexeme} (h : p.step l = some q) (around : List Frame) :
    (p.within around).step l = some (q.within around) := by
  obtain ⟨outer, current, wanting⟩ := p
  cases l with
  | opening => cases h; rfl
  | closing =>
    cases wanting with
    | true => cases h
    | false =>
      cases outer with
      | nil => cases h
      | cons frame outer => cases h; rfl
  | keyword c => cases c <;> cases wanting <;> cases h <;> rfl
  | term t => cases h; rfl

theorem foldlM_step_within {ls : List Lexeme} {q : Progress} (around : List Frame) : ∀ {p : Progress},
    ls.foldlM step p = some q → ls.foldlM step (p.within around) = some (q.within around) := by
  induction ls with
  | nil =>
    rintro p ⟨⟩
    rfl
  | cons l ls ih =>
    intro p h
    rw [List.foldlM_cons] at h ⊢
    obtain ⟨next, hs, hr⟩ := Option.bind_eq_some_iff.mp h
    rw [step_within hs]
    exact ih hr

/-- A query in parentheses is one operand. -/
theorem foldlM_step_nested {ls : List Lexeme} {frame : Frame}
    (h : ls.foldlM step .start = some ⟨[], frame, false⟩) (p : Progress) :
    (Lexeme.opening :: ls ++ [Lexeme.closing]).foldlM step p =
      some ⟨p.outer, p.current.push frame.close, false⟩ := by
  have inside := foldlM_step_within (p.current :: p.outer) h
  show (ls ++ [Lexeme.closing]).foldlM step (start.within (p.current :: p.outer)) = _
  rw [List.foldlM_append, inside]
  rfl

end Progress

/-- Lexemes make a query if there are none, or if they are read up to a group that is complete. -/
theorem Group.ofLexemes?_cases {ls : List Lexeme} {g : Group} (h : Group.ofLexemes? ls = some g) :
    (ls = [] ∧ g = .empty) ∨
      ∃ frame, ls.foldlM Progress.step .start = some ⟨[], frame, false⟩ ∧ Group.ofNode frame.close = g := by
  unfold ofLexemes? at h
  split at h
  · next none =>
    cases h
    exact .inl ⟨List.isEmpty_iff.mp none, rfl⟩
  · obtain ⟨⟨outer, frame, wanting⟩, read, done⟩ := Option.bind_eq_some_iff.mp h
    unfold Progress.finish? at done
    split at done
    · next complete alone =>
      cases done
      dsimp only at complete alone
      subst complete alone
      exact .inr ⟨frame, read, rfl⟩
    · cases done

end SearchFilter
