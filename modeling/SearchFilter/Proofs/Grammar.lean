import SearchFilter.Proofs.Derivations
import SearchFilter.Proofs.Matching
import SearchFilter.Proofs.Shape
import SearchFilter.Query.Reading

/-!
# The grammar and the lexemes agree

A query is read by the grammar: its text is matched construct by construct, and the tree is built from
the derivation. The lexemes of the text and a stack of open groups give the same tree, and none where
the grammar does not match (`Group.read_eq`). So nothing that the grammar derives is refused when the
tree is built, and an error is reported just where the grammar does not match.

What carries the proof is what a text makes of the part of a query that was read before it
(`Progress.complete?`). A construct that matches is built as a node, and with this node added the text
after it completes the same query as the text before it did. A construct that fails stands before a text
that completes none. So the matcher never has to be compared with the stack, only with the next lexeme.
-/

namespace SearchFilter

open Lexeme Text

/-! ### Lexemes at a place -/

theorem Text.skipSpaces_of_stop {cs : List Char} (h : startsWith isSpace cs = false) :
    skipSpaces cs = cs := by
  cases cs with
  | nil => rfl
  | cons c cs => exact List.dropWhile_cons_of_neg (Bool.eq_false_iff.mp h)

theorem Text.skipSpaces_start (cs : List Char) : startsWith isSpace (skipSpaces cs) = false := by
  induction cs with
  | nil => rfl
  | cons c cs ih =>
    rw [skipSpaces, List.dropWhile_cons]
    split
    · exact ih
    · next stop => exact Bool.eq_false_iff.mpr stop

@[simp] theorem Text.skipSpaces_skipSpaces (cs : List Char) : skipSpaces (skipSpaces cs) = skipSpaces cs :=
  skipSpaces_of_stop (skipSpaces_start cs)

namespace Cursor

variable {c d : Cursor} {l : Lexeme}

@[simp] theorem skip_skip (c : Cursor) : c.skip.skip = c.skip := by
  show c.skip.leaving (skipSpaces c.skip.rest) = c.skip
  rw [skip_rest, skipSpaces_skipSpaces]
  exact c.skip.leaving_self

theorem length_skip_le (c : Cursor) : c.skip.rest.length ≤ c.rest.length := length_dropWhile_le _ _

/-- The lexemes of the text after a place. -/
def lexemes? (c : Cursor) : Option (List Lexeme) := all? c.position c.rest

/-- The next lexeme, and the place after it. -/
def lexeme? (c : Cursor) : Option (Lexeme × Cursor) :=
  (next? c.skip.position c.skip.rest).map fun (l, rest) => (l, c.skip.leaving rest)

theorem lexeme?_eq (next : next? c.skip.position c.skip.rest = some (l, d.rest)) (leads : c.skip.Leads d) :
    c.lexeme? = some (l, d) := by
  rw [lexeme?, next, leads.2]
  rfl

theorem next?_of_lexeme? (h : c.lexeme? = some (l, d)) :
    next? c.skip.position c.skip.rest = some (l, d.rest) ∧ d = c.skip.leaving d.rest := by
  obtain ⟨⟨_, rest⟩, next, same⟩ := Option.map_eq_some_iff.mp h
  cases same
  exact ⟨next, rfl⟩

theorem length_lexeme? (h : c.lexeme? = some (l, d)) : d.rest.length < c.rest.length :=
  Nat.lt_of_lt_of_le (length_next (next?_of_lexeme? h).1) c.length_skip_le

theorem start_of_lexeme? (h : c.lexeme? = some (l, d)) : startsWith joinsField c.rest = false := by
  cases blank : startsWith isSpace c.rest with
  | false =>
    have next := (next?_of_lexeme? h).1
    rw [skip_rest, skipSpaces_of_stop blank] at next
    exact next?_start next
  | true => exact startsWith_mono isBareChar_of_joinsField (apart_of_isSpace blank)

theorem lexemes?_blank (h : skipSpaces c.rest = []) : c.lexemes? = some [] := all?_nil _ h

theorem skip_position (c : Cursor) : c.skip.position = c.position.after (c.rest.takeWhile isSpace) := by
  rw [← taken_dropWhile]
  rfl

/-- The lexemes of a text are its next one and those of the rest. -/
theorem lexemes?_eq (h : skipSpaces c.rest ≠ []) :
    c.lexemes? = c.lexeme?.bind fun (l, d) => d.lexemes?.map (l :: ·) := by
  obtain ⟨x, tail, text⟩ := List.exists_cons_of_ne_nil h
  rw [lexemes?, lexeme?, all?_cons _ text, ← c.skip_position, c.skip_rest, text]
  cases next : next? c.skip.position (x :: tail) with
  | none => rfl
  | some found =>
    obtain ⟨l, rest⟩ := found
    simp [lexemes?, Cursor.leaving, text]

theorem lexemes?_skip (c : Cursor) : c.skip.lexemes? = c.lexemes? := by
  by_cases blank : skipSpaces c.rest = []
  · rw [lexemes?_blank blank, lexemes?_blank (by rw [skip_rest, skipSpaces_skipSpaces, blank])]
  · rw [lexemes?_eq blank, lexemes?_eq (by rwa [skip_rest, skipSpaces_skipSpaces]), lexeme?, skip_skip]
    rfl

end Cursor

theorem Lexeme.next?_closing_iff {p : Position} {cs rest : List Char} :
    next? p cs = some (.closing, rest) ↔ cs = ')' :: rest := by
  constructor
  · intro h
    rcases next?_cases h with ⟨same, -⟩ | ⟨-, found⟩ | ⟨t, same, -⟩ | ⟨c, same, -⟩
    · cases same
    · exact found
    · cases same
    · cases same
  · rintro rfl
    rfl

theorem Lexeme.keyword?_of_next? {p : Position} {cs rest : List Char} {c : Connective}
    (h : next? p cs = some (.keyword c, rest)) : keyword? (word c) cs = some rest := by
  rcases next?_cases h with ⟨same, -⟩ | ⟨same, -⟩ | ⟨t, same, -⟩ | ⟨c, same, found⟩
  · cases same
  · cases same
  · cases same
  · cases same
    exact found

/-! ### What a text completes -/

namespace Progress

/-- The query that a text makes of what was read before it. -/
def complete? (p : Progress) (c : Cursor) : Option Group :=
  c.lexemes?.bind fun ls => (ls.foldlM step p).bind finish?

variable {p : Progress} {c d : Cursor} {l : Lexeme}

theorem complete?_skip (p : Progress) (c : Cursor) : p.complete? c.skip = p.complete? c := by
  rw [complete?, c.lexemes?_skip, complete?]

theorem complete?_blank (h : skipSpaces c.rest = []) : p.complete? c = p.finish? := by
  rw [complete?, Cursor.lexemes?_blank h]
  rfl

/-- The next lexeme is passed. -/
theorem complete?_lexeme (h : c.lexeme? = some (l, d)) :
    p.complete? c = (p.step l).bind (·.complete? d) := by
  have text : skipSpaces c.rest ≠ [] := by
    intro blank
    have next := (Cursor.next?_of_lexeme? h).1
    rw [Cursor.skip_rest, blank] at next
    cases next
  rw [complete?, Cursor.lexemes?_eq text, h, Option.bind_some]
  dsimp only
  cases hd : d.lexemes? with
  | none => cases p.step l <;> simp [complete?, hd]
  | some ls => 
    rw [Option.map_some, Option.bind_some, List.foldlM_cons]
    cases p.step l with
    | none => rfl
    | some q => simp [complete?, hd]

/-- A text that completes a query is blank, or has a next lexeme. -/
theorem complete?_cases (p : Progress) (c : Cursor) : p.complete? c = none ∨ skipSpaces c.rest = [] ∨
    ∃ l d, c.lexeme? = some (l, d) := by
  by_cases blank : skipSpaces c.rest = []
  · exact .inr (.inl blank)
  · cases next : c.lexeme? with
    | none =>
      rw [complete?, Cursor.lexemes?_eq blank, next]
      exact .inl rfl
    | some found => exact .inr (.inr ⟨found.1, found.2, rfl⟩)

end Progress

/-! ### Parts that are added -/

/-- Where a text completes a query that wants no operand, it is blank or goes on with a lexeme of a
kind. -/
def Ends (kind : Lexeme → Prop) (c : Cursor) : Prop :=
  ∀ outer f, Progress.complete? ⟨outer, f, false⟩ c = none ∨ skipSpaces c.rest = [] ∨
    ∃ l d, c.lexeme? = some (l, d) ∧ kind l

/-- From one place to another, parts are added to a query: they are built as nodes that make of the
group at hand the one that the relation says, and what follows completes the same query from there. -/
structure Adds (kind : Lexeme → Prop) (adds : Frame → List Node → Frame → Prop) (wanting : Bool)
    (c d : Cursor) (parts : List Derivation) : Prop where
  /-- Something is taken. -/
  shorter : d.rest.length < c.rest.length
  /-- What can follow. -/
  ends : Ends kind d
  /-- The parts as nodes, and the group they make. -/
  built : ∃ nodes, Node.ofDerivations parts = .ok nodes ∧ ∀ f, ∃ g, adds f nodes g ∧
    ∀ outer, Progress.complete? ⟨outer, f, wanting⟩ c = Progress.complete? ⟨outer, g, false⟩ d

namespace Adds

variable {kind last : Lexeme → Prop} {adds more whole : Frame → List Node → Frame → Prop} {w : Bool}
  {c d e : Cursor} {parts others : List Derivation}

theorem skip (h : Adds kind adds w c d parts) : Adds kind adds w c d.skip parts where
  shorter := Nat.lt_of_le_of_lt d.length_skip_le h.shorter
  ends := by
    intro outer f
    rcases h.ends outer f with incomplete | blank | ⟨l, e, next, last⟩
    · exact .inl ((Progress.complete?_skip _ d).trans incomplete)
    · exact .inr (.inl (by rw [Cursor.skip_rest, skipSpaces_skipSpaces, blank]))
    · refine .inr (.inr ⟨l, e, ?_, last⟩)
      rw [← next, Cursor.lexeme?, Cursor.skip_skip, Cursor.lexeme?]
  built := by
    obtain ⟨nodes, built, run⟩ := h.built
    refine ⟨nodes, built, fun f => ?_⟩
    obtain ⟨g, added, same⟩ := run f
    exact ⟨g, added, fun outer => (same outer).trans (Progress.complete?_skip _ d).symm⟩

/-- Parts, and further parts after them. -/
theorem trans (first : Adds kind adds w c d parts) (next : Adds last more false d e others)
    (compose : ∀ {f xs g ys k}, adds f xs g → more g ys k → whole f (xs ++ ys) k) :
    Adds last whole w c e (parts ++ others) where
  shorter := Nat.lt_trans next.shorter first.shorter
  ends := next.ends
  built := by
    obtain ⟨xs, builtXs, runXs⟩ := first.built
    obtain ⟨ys, builtYs, runYs⟩ := next.built
    refine ⟨xs ++ ys, Node.ofDerivations_append builtXs builtYs, fun f => ?_⟩
    obtain ⟨g, addedXs, sameXs⟩ := runXs f
    obtain ⟨k, addedYs, sameYs⟩ := runYs g
    exact ⟨k, compose addedXs addedYs, fun outer => (sameXs outer).trans (sameYs outer)⟩

theorem mono (h : Adds kind adds w c d parts) (weaker : ∀ {f xs g}, adds f xs g → more f xs g) :
    Adds kind more w c d parts where
  shorter := h.shorter
  ends := h.ends
  built := by
    obtain ⟨nodes, built, run⟩ := h.built
    refine ⟨nodes, built, fun f => ?_⟩
    obtain ⟨g, added, same⟩ := run f
    exact ⟨g, weaker added, same⟩

end Adds

/-! ### Constructs -/

open Matcher

/-- A construct begins with an operand, in texts shorter than a bound. If it matches, what it took adds
parts to a query, whether an operand is wanting or not; if it fails, the text completes no query that
wants one. -/
structure Recognizes (n : Nat) (m : Matcher) (adds : Frame → List Node → Frame → Prop)
    (kind : Lexeme → Prop) : Prop where
  /-- It starts with nothing that would make a field of a keyword before it. -/
  start {c d : Cursor} {parts : List Derivation} : c.rest.length < n → Matched m c.skip d parts →
    startsWith joinsField c.rest = false
  /-- What it adds. -/
  adds {c d : Cursor} {parts : List Derivation} (w : Bool) : c.rest.length < n →
    Matched m c.skip d parts → Adds kind adds w c d parts
  /-- When it fails. -/
  fails {c : Cursor} : c.rest.length < n → Failed m c.skip →
    ∀ outer f, Progress.complete? ⟨outer, f, true⟩ c = none

/-- Parts become operands of the alternative at hand. -/
def Frame.Pushed (f : Frame) (nodes : List Node) (g : Frame) : Prop :=
  g = ⟨f.alternatives, f.operands ++ nodes⟩

/-- Parts become alternatives of a group whose last alternative has only begun. -/
def Frame.Split (f : Frame) (nodes : List Node) (g : Frame) : Prop :=
  f.operands = [] → g.split.alternatives = f.alternatives ++ nodes

/-- A part is all of a group that has only begun. -/
def Frame.Closed (f : Frame) (nodes : List Node) (g : Frame) : Prop :=
  f = .empty → nodes = [g.close]

/-- What may follow operands and goes on with none. -/
def EndsOperands (l : Lexeme) : Prop := l = .closing ∨ l = .keyword .or

/-- The group at hand after a keyword. -/
def Frame.joined (f : Frame) : Connective → Frame
  | .and => f
  | .or => f.split

theorem Progress.step_keyword (outer : List Frame) (f : Frame) (k : Connective) :
    step ⟨outer, f, false⟩ (.keyword k) = some ⟨outer, f.joined k, true⟩ := by
  cases k <;> rfl

namespace Matcher

variable {c d : Cursor} {parts : List Derivation} {k : Connective}

theorem matched_keyword (h : Matched (keyword k) c d parts) : keyword? (word k) c.rest = some d.rest ∧
    c.Leads d ∧ Node.ofDerivations parts = .ok [] := by
  have suffix {rest : List Char} (found : keyword? (word k) c.rest = some rest) : rest <:+ c.rest := by
    obtain ⟨w, text, -⟩ := afterWord?_eq_some_iff.mp (keyword?_eq_some_iff.mp found).1
    exact ⟨w, text.symm⟩
  cases k with
  | and =>
    obtain ⟨rest, found, rfl, rfl⟩ := matched_token h
    exact ⟨found, .leaving (suffix found), rfl⟩
  | or =>
    obtain ⟨rest, found, rfl, rfl⟩ := matched_token h
    exact ⟨found, .leaving (suffix found), rfl⟩

theorem failed_keyword (h : Failed (keyword k) c) : keyword? (word k) c.rest = none := by
  cases k with
  | and => exact failed_token h
  | or => exact failed_token h

theorem andThen_spaces (m : Matcher) (c : Cursor) (a : Attempts) : andThen spaces m c a = m c.skip a := by
  have skipped : spaces c a = (some (c.skip, []), a) := rfl
  rw [andThen, skipped]
  dsimp only
  rcases m c.skip a with ⟨_ | found, b⟩ <;> rfl

/-- A first part is followed by further ones, each after blanks, as often as there are any. -/
theorem sequence_eq (fuel : Nat) (first further : Matcher) : sequence fuel first further =
    andThen first (andThen spaces (repeated (andThen spaces further) (fuel + 1))) := by
  have same : andThen spaces (optional (andThen further (repeated (andThen spaces further) fuel))) =
      andThen spaces (repeated (andThen spaces further) (fuel + 1)) := by
    funext c a
    rw [andThen_spaces, andThen_spaces, repeated, optional, optional, andThen, andThen, andThen_spaces,
      c.skip_skip]
  rw [sequence, same]

theorem matched_sequence {fuel : Nat} {first further : Matcher}
    (h : Matched (sequence fuel first further) c d parts) : ∃ e begun others, Matched first c e begun ∧
      Matched (repeated (andThen spaces further) (fuel + 1)) e.skip d others ∧ parts = begun ++ others := by
  rw [sequence_eq] at h
  obtain ⟨e, begun, others, matched, more, rfl⟩ := matched_andThen h
  exact ⟨e, begun, others, matched, matched_spaced more, rfl⟩

theorem failed_sequence {fuel : Nat} {first further : Matcher}
    (h : Failed (sequence fuel first further) c) : Failed first c := by
  rcases failed_andThen h with failed | ⟨_, _, -, more⟩
  · exact failed
  · exact absurd (failed_spaced more) not_failed_optional

theorem matched_group {inside : Matcher} (h : Matched (group inside) c d parts) : ∃ e f within,
    c.rest = '(' :: e.rest ∧ c.Leads e ∧ Matched inside e.skip f within ∧
      f.skip.rest = ')' :: d.rest ∧ f.skip.Leads d ∧
      parts = [⟨.group, c.position, taken c.rest d.rest, within⟩] := by
  obtain ⟨_, matched, rfl⟩ := matched_construct h
  obtain ⟨e, _, _, opened, spaced, rfl⟩ := matched_andThen matched
  obtain ⟨first, leads, rfl⟩ := matched_char opened
  obtain ⟨f, within, _, matched, closed, same⟩ := matched_andThen (matched_spaced spaced)
  obtain ⟨last, finish, rfl⟩ := matched_char (matched_spaced closed)
  rw [same, List.append_nil, List.nil_append]
  exact ⟨e, f, within, first, leads, matched, last, finish, rfl⟩

theorem failed_group {inside : Matcher} (h : Failed (group inside) c) {rest : List Char}
    (text : c.rest = '(' :: rest) : Failed inside (c.leaving rest).skip ∨
      ∃ d parts, Matched inside (c.leaving rest).skip d parts ∧ ∀ rest, d.skip.rest ≠ ')' :: rest := by
  rcases failed_andThen (failed_construct h) with missing | ⟨e, _, opened, spaced⟩
  · exact absurd text (failed_char missing rest)
  · obtain ⟨first, leads, -⟩ := matched_char opened
    have place : e = c.leaving rest := by rw [leads.2, (List.cons.inj (first.symm.trans text)).2]
    subst place
    rcases failed_andThen (failed_spaced spaced) with failed | ⟨d, parts, matched, closed⟩
    · exact .inl failed
    · exact .inr ⟨d, parts, matched, failed_char (failed_spaced closed)⟩

end Matcher

namespace Recognizes

variable {n fuel : Nat} {m : Matcher} {kind : Lexeme → Prop} {adds : Frame → List Node → Frame → Prop}

/-- Further parts are added as long as one of them follows. -/
theorem sequence {further : Matcher} {last : Lexeme → Prop} {whole : Frame → List Node → Frame → Prop}
    (hm : Recognizes n m adds kind) (more : Frame → List Node → Frame → Prop) (enough : n ≤ fuel + 1)
    (begin : ∀ {f xs g}, adds f xs g → whole f xs g)
    (compose : ∀ {f xs g ys k}, whole f xs g → more g ys k → whole f (xs ++ ys) k)
    (step : ∀ {c d parts}, c.rest.length < n → Matched further c.skip d parts →
      Adds kind more false c d parts)
    (stop : ∀ {c}, c.rest.length < n → Ends kind c → Failed further c.skip → Ends last c) :
    Recognizes n (Matcher.sequence fuel m further) whole last where
  start {c d parts} short matched := by
    obtain ⟨e, begun, _, first, -, -⟩ := matched_sequence matched
    exact hm.start short first
  adds {c d parts} w short matched := by
    obtain ⟨e, begun, others, first, again, rfl⟩ := matched_sequence matched
    have begun := ((hm.adds w short first).mono begin).skip
    have enough : e.skip.rest.length < fuel + 1 := Nat.lt_of_lt_of_le begun.shorter (by omega)
    have kept : ∀ x y before parts, Adds kind whole w c x before →
        Matched (andThen spaces further) x y parts →
        y.rest.length < x.rest.length ∧ Adds kind whole w c y (before ++ parts) := by
      intro x y before parts kept matched
      have next := step (Nat.lt_trans kept.shorter short) (matched_spaced matched)
      exact ⟨next.shorter, kept.trans next compose⟩
    obtain ⟨all, failed⟩ := repeated_induction kept (fuel + 1) e.skip _ enough begun again
    exact ⟨all.shorter, stop (Nat.lt_trans all.shorter short) all.ends (failed_spaced failed), all.built⟩
  fails short failed := hm.fails short (failed_sequence failed)

/-- What follows a keyword is added to the group that the keyword leaves. -/
theorem afterKeyword (hm : Recognizes n m adds kind) {k : Connective} {c d : Cursor}
    {parts : List Derivation} (short : c.rest.length < n)
    (matched : Matched (andThen (keyword k) (andThen spaces m)) c.skip d parts) :
    Adds kind (fun f => adds (f.joined k)) false c d parts := by
  obtain ⟨e, before, others, word, more, rfl⟩ := matched_andThen matched
  obtain ⟨found, leads, skipped⟩ := matched_keyword word
  have taken : e.rest.length < c.skip.rest.length := length_keyword (by cases k <;> decide) found
  have whole := c.length_skip_le
  have operand := matched_spaced more
  have next : c.lexeme? = some (.keyword k, e) := by
    refine Cursor.lexeme?_eq (next?_keyword (term?_eq_none_of_keyword found ?_ _) found) leads
    exact hm.start (by omega) operand
  have added := hm.adds true (by omega) operand
  have shorter := added.shorter
  obtain ⟨nodes, built, run⟩ := added.built
  refine ⟨by omega, added.ends, nodes, Node.ofDerivations_append skipped built, fun f => ?_⟩
  obtain ⟨g, group, same⟩ := run (f.joined k)
  refine ⟨g, group, fun outer => ?_⟩
  rw [Progress.complete?_lexeme next, Progress.step_keyword, Option.bind_some, same outer]

/-- Nothing follows a keyword. -/
theorem afterKeyword_fails (hm : Recognizes n m adds kind) {k : Connective} {c d : Cursor}
    (short : c.rest.length < n) (next : c.lexeme? = some (.keyword k, d))
    (failed : Failed (andThen (keyword k) (andThen spaces m)) c.skip) (outer : List Frame) (f : Frame) :
    Progress.complete? ⟨outer, f, false⟩ c = none := by
  obtain ⟨first, place⟩ := Cursor.next?_of_lexeme? next
  have found := keyword?_of_next? first
  rcases failed_andThen failed with missing | ⟨e, _, word, missing⟩
  · cases (failed_keyword missing).symm.trans found
  · obtain ⟨same, leads, -⟩ := matched_keyword word
    have same : e = d := by
      rw [place, leads.2, Option.some.inj (same.symm.trans found)]
    subst same
    have taken := Cursor.length_lexeme? next
    rw [Progress.complete?_lexeme next, Progress.step_keyword, Option.bind_some]
    exact hm.fails (by omega) (failed_spaced missing) outer (f.joined k)

/-- A construct whose parts are combined by a connective. -/
theorem construct {more : Frame → List Node → Frame → Prop} {name : Construct}
    (hm : Recognizes n m adds kind) (k : Connective)
    (built : ∀ {position text parts nodes}, Node.ofDerivations parts = .ok nodes →
      Node.ofDerivations [⟨name, position, text, parts⟩] = .ok [Node.combine k nodes])
    (whole : ∀ {f xs g}, adds f xs g → more f [Node.combine k xs] g) :
    Recognizes n (Matcher.construct name m) more kind where
  start {c d parts} short matched := by
    obtain ⟨_, inside, -⟩ := matched_construct matched
    exact hm.start short inside
  adds {c d parts} w short matched := by
    obtain ⟨_, inside, rfl⟩ := matched_construct matched
    have added := hm.adds w short inside
    obtain ⟨nodes, parts, run⟩ := added.built
    refine ⟨added.shorter, added.ends, [Node.combine k nodes], built parts, fun f => ?_⟩
    obtain ⟨g, group, same⟩ := run f
    exact ⟨g, whole group, same⟩
  fails short failed := hm.fails short (failed_construct failed)

/-- Operands with or without `AND` between them. -/
theorem operands (hm : Recognizes n m Frame.Pushed fun _ => True) (enough : n ≤ fuel + 1) :
    Recognizes n (Matcher.operands fuel m) Frame.Split EndsOperands := by
  have further : Recognizes n
      (Matcher.sequence fuel m (orElse (andThen (keyword .and) (andThen spaces m)) m))
      Frame.Pushed EndsOperands := by
    refine hm.sequence Frame.Pushed enough id ?_ ?_ ?_
    · rintro f xs _ ys _ rfl rfl
      exact congrArg (Frame.mk f.alternatives) (List.append_assoc ..)
    · intro c d parts short matched
      rcases matched_orElse matched with after | ⟨-, alone⟩
      · exact hm.afterKeyword short after
      · exact hm.adds false short alone
    · intro c short _ failed outer f
      obtain ⟨after, alone⟩ := failed_orElse failed
      have wanting := hm.fails short alone outer f
      rcases Progress.complete?_cases ⟨outer, f, false⟩ c with incomplete | blank | ⟨l, d, next⟩
      · exact .inl incomplete
      · exact .inr (.inl blank)
      · cases l with
        | opening =>
          -- a lexeme that begins an operand does so whether one is wanting or not
          rw [Progress.complete?_lexeme next] at wanting ⊢
          exact .inl wanting
        | term t =>
          rw [Progress.complete?_lexeme next] at wanting ⊢
          exact .inl wanting
        | closing => exact .inr (.inr ⟨_, d, next, .inl rfl⟩)
        | keyword k =>
          cases k with
          | or => exact .inr (.inr ⟨_, d, next, .inr rfl⟩)
          | and => exact .inl (hm.afterKeyword_fails short next after outer f)
  refine further.construct .and ?_ ?_
  · intro position text parts nodes built
    simp only [Node.ofDerivations, Node.ofDerivation, built]
    rfl
  · rintro f xs _ rfl first
    rw [Frame.split, first, List.nil_append]

/-- Alternatives with `OR` between them. -/
theorem alternatives (hm : Recognizes n (Matcher.operands fuel m) Frame.Split EndsOperands)
    (enough : n ≤ fuel + 1) : Recognizes n (Matcher.alternatives fuel m) Frame.Closed (· = .closing) := by
  have further : Recognizes n (Matcher.sequence fuel (Matcher.operands fuel m)
      (andThen (keyword .or) (andThen spaces (Matcher.operands fuel m)))) Frame.Split (· = .closing) := by
    refine hm.sequence (fun f => Frame.Split (f.joined .or)) enough id ?_ ?_ ?_
    · intro f xs g ys k first more begun
      rw [more rfl, ← List.append_assoc]
      exact congrArg (· ++ ys) (first begun)
    · intro c d parts short matched
      exact hm.afterKeyword short matched
    · intro c short ends failed outer f
      rcases ends outer f with incomplete | blank | ⟨l, d, next, rfl | rfl⟩
      · exact .inl incomplete
      · exact .inr (.inl blank)
      · exact .inr (.inr ⟨_, d, next, rfl⟩)
      · exact .inl (hm.afterKeyword_fails short next failed outer f)
  refine further.construct .or ?_ ?_
  · intro position text parts nodes built
    simp only [Node.ofDerivations, Node.ofDerivation, built]
    rfl
  · rintro _ xs g all rfl
    have alternatives : g.split.alternatives = xs := all rfl
    rw [Frame.close, alternatives]

/-- Alternatives in parentheses, or a term. -/
theorem operand (hm : Recognizes n (Matcher.alternatives fuel m) Frame.Closed (· = .closing)) :
    Recognizes (n + 1) (orElse (group (Matcher.alternatives fuel m)) term) Frame.Pushed
      fun _ => True where
  start {c d parts} short matched := by
    rcases matched_orElse matched with group | ⟨-, alone⟩
    · obtain ⟨e, f, within, opened, leads, -⟩ := matched_group group
      exact Cursor.start_of_lexeme? (Cursor.lexeme?_eq (by rw [opened]; rfl) leads)
    · obtain ⟨t, read, leads, -⟩ := matched_term alone
      exact Cursor.start_of_lexeme? (Cursor.lexeme?_eq (next?_term read) leads)
  adds {c d parts} w short matched := by
    have any : Ends (fun _ => True) d := by
      intro outer f
      refine (Progress.complete?_cases _ d).imp_right fun h => h.imp_right ?_
      rintro ⟨l, e, next⟩
      exact ⟨l, e, next, trivial⟩
    rcases matched_orElse matched with group | ⟨-, alone⟩
    · obtain ⟨e, f, within, opened, start, inside, closed, finish, rfl⟩ := matched_group group
      have first : c.lexeme? = some (.opening, e) := Cursor.lexeme?_eq (by rw [opened]; rfl) start
      have last : f.lexeme? = some (.closing, d) := Cursor.lexeme?_eq (next?_closing_iff.mpr closed) finish
      have taken := Cursor.length_lexeme? first
      have left := Cursor.length_lexeme? last
      have added := hm.adds true (by omega) inside
      have shorter := added.shorter
      obtain ⟨nodes, built, run⟩ := added.built
      obtain ⟨g, only, same⟩ := run .empty
      refine ⟨by omega, any, nodes, ?_, fun f => ⟨f.push g.close, ?_, fun outer => ?_⟩⟩
      · obtain ⟨_, -, rfl⟩ := matched_construct inside
        exact built
      · rw [only rfl]
        rfl
      · calc Progress.complete? ⟨outer, f, w⟩ c
          _ = Progress.complete? ⟨f :: outer, .empty, true⟩ e := Progress.complete?_lexeme first
          _ = Progress.complete? ⟨f :: outer, g, false⟩ _ := same (f :: outer)
          _ = Progress.complete? ⟨outer, f.push g.close, false⟩ d := Progress.complete?_lexeme last
    · obtain ⟨t, read, leads, built⟩ := matched_term alone
      have next := Cursor.lexeme?_eq (next?_term read) leads
      refine ⟨Cursor.length_lexeme? next, any, [.term t], built, fun f => ⟨_, rfl, fun outer => ?_⟩⟩
      exact Progress.complete?_lexeme next
  fails {c} short failed := by
    intro outer f
    obtain ⟨group, alone⟩ := failed_orElse failed
    rcases Progress.complete?_cases ⟨outer, f, true⟩ c with incomplete | blank | ⟨l, d, next⟩
    · exact incomplete
    · exact Progress.complete?_blank blank
    · have taken := Cursor.length_lexeme? next
      obtain ⟨first, place⟩ := Cursor.next?_of_lexeme? next
      rw [Progress.complete?_lexeme next]
      rcases next?_cases first with ⟨rfl, opened⟩ | ⟨rfl, -⟩ | ⟨t, rfl, found⟩ | ⟨k, rfl, -⟩
      · have inside := failed_group group opened
        rw [← place] at inside
        rcases inside with failed | ⟨e, parts, matched, unclosed⟩
        · exact hm.fails (by omega) failed (f :: outer) .empty
        · have added := hm.adds true (by omega) matched
          obtain ⟨nodes, -, run⟩ := added.built
          obtain ⟨g, -, same⟩ := run .empty
          refine (same (f :: outer)).trans ?_
          rcases added.ends (f :: outer) g with incomplete | blank | ⟨l, e', last, rfl⟩
          · exact incomplete
          · exact Progress.complete?_blank blank
          · exact absurd (next?_closing_iff.mp (Cursor.next?_of_lexeme? last).1) (unclosed _)
      · rfl
      · rw [term?_of_failed alone] at found
        cases found
      · cases k <;> rfl

end Recognizes

/-- A construct that begins with an operand does not match a blank text. -/
theorem Recognizes.text {n : Nat} {m : Matcher} {kind : Lexeme → Prop}
    {adds : Frame → List Node → Frame → Prop} (hm : Recognizes n m adds kind) {c d : Cursor}
    {parts : List Derivation} (short : c.rest.length < n) (matched : Matched m c.skip d parts) :
    skipSpaces c.rest ≠ [] := by
  intro blank
  rw [← c.skip_skip] at matched
  have shorter := (hm.adds true (Nat.lt_of_le_of_lt c.length_skip_le short) matched).shorter
  rw [Cursor.skip_rest, blank] at shorter
  cases shorter

/-- Operands that are nested at most so deep are recognized. -/
theorem Matcher.recognizes_operand {fuel depth : Nat} (enough : depth ≤ fuel + 1) :
    Recognizes depth (operand fuel depth) Frame.Pushed fun _ => True := by
  induction depth with
  | zero =>
    exact {
      start := fun short => absurd short (Nat.not_lt_zero _)
      adds := fun w short => absurd short (Nat.not_lt_zero _)
      fails := fun short => absurd short (Nat.not_lt_zero _) }
  | succ depth ih =>
    have less : depth ≤ fuel + 1 := by omega
    exact (((ih less).operands less).alternatives less).operand

/-! ### Queries -/

theorem Group.ofChars?_eq {cs : List Char} (h : skipSpaces cs ≠ []) :
    Group.ofChars? cs = Progress.complete? .start (.start cs) := by
  have split : (Cursor.start cs).lexemes? ≠ some [] := by
    intro empty
    rw [Cursor.lexemes?_eq h] at empty
    obtain ⟨⟨l, d⟩, -, more⟩ := Option.bind_eq_some_iff.mp empty
    obtain ⟨ls, -, same⟩ := Option.map_eq_some_iff.mp more
    cases same
  show (Cursor.start cs).lexemes?.bind Group.ofLexemes? = _
  rw [Progress.complete?]
  cases lexemes : (Cursor.start cs).lexemes? with
  | none => rfl
  | some ls =>
    cases ls with
    | nil => exact absurd lexemes split
    | cons l ls => rfl

theorem Group.ofChars?_blank {cs : List Char} (h : skipSpaces cs = []) : Group.ofChars? cs = some .empty := by
  rw [ofChars?, all?_nil .start h]
  rfl

namespace Matcher

variable {cs : List Char} {d : Cursor} {parts : List Derivation}

theorem recognizes_alternatives (size : Nat) : Recognizes (size + 1)
    (alternatives size (operand size (size + 1))) Frame.Closed (· = .closing) :=
  ((recognizes_operand (Nat.le_refl _)).operands (Nat.le_refl _)).alternatives (Nat.le_refl _)

theorem matched_ending (h : Matched ending c d parts) : c.rest = [] := by
  obtain ⟨_, nothing, -, -⟩ := matched_token h
  split at nothing
  · next empty => exact List.isEmpty_iff.mp empty
  · cases nothing

theorem failed_ending (h : Failed ending c) : c.rest ≠ [] := by
  intro empty
  have failed := failed_token h
  rw [empty] at failed
  cases failed

theorem matched_query (h : Matched (query cs.length) (.start cs) d parts) :
    ∃ g, Group.ofDerivations parts = .ok g ∧ Group.ofChars? cs = some g := by
  have recognizes := recognizes_alternatives cs.length
  obtain ⟨_, inside, rfl⟩ := matched_construct h
  obtain ⟨e, before, after, matched, finish, rfl⟩ := matched_andThen (matched_spaced inside)
  have blank := matched_ending (matched_spaced finish)
  obtain ⟨_, -, -, rfl⟩ := matched_token (matched_spaced finish)
  rcases matched_optional matched with alternatives | ⟨-, rfl, rfl⟩
  · have added := recognizes.adds true (Nat.lt_succ_self _) alternatives
    have text := recognizes.text (Nat.lt_succ_self _) alternatives
    obtain ⟨nodes, built, run⟩ := added.built
    obtain ⟨g, only, same⟩ := run .empty
    rw [only rfl] at built
    obtain ⟨_, -, rfl⟩ := matched_construct alternatives
    refine ⟨.ofNode g.close, ?_, ?_⟩
    · show Group.ofNode <$> Node.ofDerivation _ = _
      rw [Node.ofDerivation_of_singleton (by simp) built]
      rfl
    · calc Group.ofChars? cs
        _ = Progress.complete? ⟨[], .empty, true⟩ (.start cs) := Group.ofChars?_eq text
        _ = Progress.complete? ⟨[], g, false⟩ e := same []
        _ = some (.ofNode g.close) := Progress.complete?_blank blank
  · rw [Cursor.skip_skip] at blank
    exact ⟨.empty, rfl, Group.ofChars?_blank blank⟩

theorem failed_query (h : Failed (query cs.length) (.start cs)) : Group.ofChars? cs = none := by
  have recognizes := recognizes_alternatives cs.length
  rcases failed_andThen (failed_spaced (failed_construct h)) with never | ⟨e, parts, matched, finish⟩
  · exact absurd never not_failed_optional
  · have left := failed_ending (failed_spaced finish)
    rcases matched_optional matched with alternatives | ⟨missing, rfl, -⟩
    · have added := recognizes.adds true (Nat.lt_succ_self _) alternatives
      have text := recognizes.text (Nat.lt_succ_self _) alternatives
      obtain ⟨nodes, -, run⟩ := added.built
      obtain ⟨g, -, same⟩ := run .empty
      refine (Group.ofChars?_eq text).trans ((same []).trans ?_)
      rcases added.ends [] g with incomplete | blank | ⟨l, f, next, rfl⟩
      · exact incomplete
      · exact absurd blank left
      · exact Progress.complete?_lexeme next
    · rw [Cursor.skip_skip] at left
      exact (Group.ofChars?_eq left).trans (recognizes.fails (Nat.lt_succ_self _) missing [] .empty)

/-- The grammar matches a text from its beginning to its end. -/
def Accepts (cs : List Char) : Prop := (query cs.length (.start cs) ⟨0, []⟩).1.isSome = true

end Matcher

/-- The tree that is built from the derivation of a text is the one that its lexemes make. -/
theorem Group.read_eq (text : String) : Group.read text =
    match Group.ofChars? text.toList with
    | some g => .ok g
    | none => .error (.ofAttempts text.toList
        (Matcher.query text.toList.length (.start text.toList) ⟨0, []⟩).2) := by
  unfold read
  dsimp only
  rcases run : Matcher.query text.toList.length (.start text.toList) ⟨0, []⟩ with ⟨_ | ⟨d, parts⟩, a⟩
  · rw [Matcher.failed_query ⟨_, _, run⟩]
  · obtain ⟨g, built, read⟩ := Matcher.matched_query ⟨_, _, run⟩
    rw [read]
    exact built

theorem Group.read_eq_ok_iff {text : String} {g : Group} :
    Group.read text = .ok g ↔ Group.ofChars? text.toList = some g := by
  rw [read_eq]
  cases Group.ofChars? text.toList with
  | none => exact ⟨nofun, nofun⟩
  | some found => simp

/-- The grammar matches just the texts that are read. -/
theorem Group.ofChars?_isSome_iff (cs : List Char) :
    (Group.ofChars? cs).isSome = true ↔ Matcher.Accepts cs := by
  unfold Matcher.Accepts
  rcases run : Matcher.query cs.length (.start cs) ⟨0, []⟩ with ⟨_ | ⟨d, parts⟩, a⟩
  · rw [Matcher.failed_query ⟨_, _, run⟩]
    rfl
  · obtain ⟨g, -, read⟩ := Matcher.matched_query ⟨_, _, run⟩
    rw [read]
    rfl

/-- A text that the grammar matches is read as a normal query: no construct of its derivation is misplaced,
and no comparator in it is invalid. The query is empty where the text is blank and only there. A text that
the grammar does not match is not blank, and is reported as unreadable. -/
theorem Group.read_normal (text : String) :
    (∃ expectation line column excerpt,
        Group.read text = .error (.unreadable expectation line column excerpt) ∧
        ¬Matcher.Accepts text.toList ∧ ¬∀ c ∈ text.toList, isSpace c = true) ∨
      ∃ g, Group.read text = .ok g ∧ Matcher.Accepts text.toList ∧ g.Normal ∧
        (g.isEmpty = true ↔ ∀ c ∈ text.toList, isSpace c = true) ∧
        ∀ t ∈ g.terms, ∀ s ∈ t.field.segments, '.' ∉ s.toList := by
  rw [← Group.ofChars?_isSome_iff, Group.read_eq]
  cases found : Group.ofChars? text.toList with
  | none =>
    refine .inl ⟨_, _, _, _, rfl, Bool.false_ne_true, fun blank => ?_⟩
    rw [ofChars?_of_blank blank] at found
    cases found
  | some g =>
    have normal := normal_of_ofChars? found
    refine .inr ⟨g, rfl, rfl, normal, isEmpty_iff_of_ofChars? found, fun t ht s hs => ?_⟩
    exact dot_not_mem_of_isName ((normal.fields t ht).2 s hs)

end SearchFilter
