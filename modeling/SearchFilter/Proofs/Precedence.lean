import SearchFilter.Proofs.Grammar

/-!
# Precedence

`AND`, written or left out, binds tighter than `OR`, and a query in parentheses is one operand, whatever
it holds. So a text can be put together from parts that were read before, and what it is read as follows
from what they are read as, up to the places of the terms: the disjunction of the conjunctions of its
operands, in order, where a lone part stands for itself. The parts are texts that add operands to the
group at hand wherever they stand (`Operands`), and texts that make a whole group (`Alternatives`).
-/

namespace SearchFilter

open Lexeme Text

/-! ### Between operands -/

/-- One or more blanks. -/
def Blanks (cs : List Char) : Prop := cs ≠ [] ∧ cs.all isSpace = true

/-- What stands between operands: the keyword of a connective, in any letter case and with blanks around
it, or blanks alone, which mean a conjunction. -/
inductive Gap : Connective → List Char → Prop where
  /-- A keyword. -/
  | keyword {c : Connective} {before w after : List Char} : Blanks before →
      equalsIgnoringCase w (word c) = true → Blanks after → Gap c (before ++ (w ++ after))
  /-- Blanks. -/
  | blanks {cs : List Char} : Blanks cs → Gap .and cs

/-- The lexeme between operands, if there is one. -/
inductive Links : Connective → List Lexeme → Prop where
  /-- A keyword. -/
  | keyword (c : Connective) : Links c [.keyword c]
  /-- Nothing, for a conjunction. -/
  | nothing : Links .and []

theorem Blanks.start {cs : List Char} (h : Blanks cs) (rest : List Char) :
    startsWith isSpace (cs ++ rest) = true := by
  cases cs with
  | nil => exact absurd rfl h.1
  | cons c cs => exact List.all_eq_true.mp h.2 c List.mem_cons_self

theorem Blanks.words? {cs : List Char} (h : Blanks cs) (rest : List Char) :
    words? (cs ++ rest) = words? rest :=
  words?_congr (List.dropWhile_append_of_pos (List.all_eq_true.mp h.2))

theorem Gap.apart {c : Connective} {gap : List Char} (h : Gap c gap) (rest : List Char) :
    Apart (gap ++ rest) := by
  cases h with
  | keyword before _ _ =>
    rw [List.append_assoc]
    exact apart_of_isSpace (before.start _)
  | blanks blank => exact apart_of_isSpace (blank.start _)

/-- A gap adds its keyword to the lexemes that follow it. -/
theorem Gap.words? {c : Connective} {gap : List Char} (h : Gap c gap) (rest : List Char) :
    ∃ link, Links c link ∧ Lexeme.words? (gap ++ rest) = (Lexeme.words? rest).map (link ++ ·) := by
  cases h with
  | @keyword _ before w after hb same ha =>
    refine ⟨_, .keyword c, ?_⟩
    have apart := apart_of_isSpace (ha.start rest)
    have found : keyword? (word c) (w ++ (after ++ rest)) = some (after ++ rest) :=
      keyword?_eq_some_iff.mpr ⟨afterWord?_eq_some_iff.mpr ⟨w, rfl, same⟩,
        startsWith_mono (fun x hx => isBareChar_of_isPathChar x (isPathChar_of_isNameChar x hx)) apart⟩
    have alone := term?_eq_none_of_keyword found (startsWith_mono isBareChar_of_joinsField apart) .start
    have first := next?_keyword alone found
    obtain ⟨x, xs, split, name, -⟩ := keyword?_start found
    have stop : ¬isSpace x = true := Bool.eq_false_iff.mp (isSpace_eq_false_of_isNameStart name)
    rw [List.append_assoc, hb.words?, List.append_assoc, split]
    rw [split] at first
    rw [words?_of_next? (List.dropWhile_cons_of_neg stop) first, ha.words?]
    rfl
  | blanks blank =>
    refine ⟨_, .nothing, ?_⟩
    rw [blank.words?]
    simp

/-- A keyword in capitals between single blanks. -/
theorem Gap.shown (c : Connective) : Gap c (' ' :: (c.keyword.toList ++ [' '])) := by
  have blank : Blanks [' '] := ⟨List.cons_ne_nil _ _, rfl⟩
  have same : equalsIgnoringCase c.keyword.toList (word c) = true := by cases c <;> rfl
  exact .keyword blank same blank

/-! ### Operands -/

theorem Lexeme.words?_opening (cs : List Char) :
    words? ('(' :: cs) = (words? cs).map (opening :: ·) := by
  have next : next? .start ('(' :: cs) = some (opening, cs) := rfl
  rw [words?_of_next? rfl next]
  rfl

theorem Lexeme.words?_closing : words? [')'] = some [closing] := by
  rw [words?_of_next? rfl rfl, words?_nil rfl]
  rfl

theorem Lexeme.words?_nested {cs : List Char} {ls : List Lexeme} (h : words? cs = some ls) :
    words? ('(' :: cs ++ [')']) = some (opening :: ls ++ [closing]) := by
  have apart : Apart [')'] := rfl
  rw [List.cons_append, words?_opening, words?_append apart h, words?_closing]
  rfl

/-- A text that adds operands to the group at hand, wherever it stands. -/
def Operands (cs : List Char) (nodes : List Node) : Prop :=
  ∃ ls, words? cs = some ls ∧ ∀ p : Progress, ls.foldlM Progress.step p =
    some ⟨p.outer, ⟨p.current.alternatives, p.current.operands ++ nodes⟩, false⟩

namespace Operands

/-- A term is one operand. -/
theorem term {cs : List Char} {t : Term} (h : TermText cs t) : Operands cs [.term t.placeless] := by
  refine ⟨[.term t.placeless], ?_, fun p => rfl⟩
  rw [words?, h.all?]
  rfl

/-- A query with terms, in parentheses, is one operand. -/
theorem nested {cs : List Char} {g : Group} (h : Group.shape? cs = some g) (terms : 0 < g.termCount) :
    ∃ node, node.Proper ∧ Group.ofNode node = g ∧ Operands ('(' :: cs ++ [')']) [node] := by
  obtain ⟨ls, split, read⟩ := Option.bind_eq_some_iff.mp h
  rcases Group.ofLexemes?_cases read with ⟨-, rfl⟩ | ⟨frame, complete, same⟩
  · exact absurd terms (by decide)
  · obtain ⟨proper, -, -⟩ := Progress.run_spec Progress.proper_start complete
    exact ⟨frame.close, proper.current.close (proper.operands rfl), same,
      opening :: ls ++ [closing], words?_nested split, Progress.foldlM_step_nested complete⟩

/-- Operands one after another. -/
theorem and {xs gap ys : List Char} {ns ms : List Node} (hx : Operands xs ns) (between : Gap .and gap)
    (hy : Operands ys ms) : Operands (xs ++ (gap ++ ys)) (ns ++ ms) := by
  obtain ⟨ls, splitX, readX⟩ := hx
  obtain ⟨ks, splitY, readY⟩ := hy
  obtain ⟨link, links, splitGap⟩ := between.words? ys
  refine ⟨ls ++ (link ++ ks), ?_, fun p => ?_⟩
  · rw [words?_append (between.apart ys) splitX, splitGap, splitY]
    rfl
  · rw [List.foldlM_append, readX]
    cases links with
    | keyword =>
      show ks.foldlM Progress.step ⟨p.outer, _, true⟩ = _
      rw [readY, List.append_assoc]
    | nothing =>
      show ks.foldlM Progress.step ⟨p.outer, _, false⟩ = _
      rw [readY, List.append_assoc]

end Operands

/-! ### Alternatives -/

/-- A text that makes a group, wherever one is begun: each row of operands is an alternative. -/
def Alternatives (cs : List Char) (rows : List (List Node)) : Prop :=
  ∃ ls, words? cs = some ls ∧ ∀ p : Progress, p.current.operands = [] →
    ∃ frame : Frame, ls.foldlM Progress.step p = some ⟨p.outer, frame, false⟩ ∧
      frame.split.alternatives = p.current.alternatives ++ rows.map (Node.combine .and)

/-- Operands are one alternative. -/
theorem Operands.alternatives {cs : List Char} {nodes : List Node} (h : Operands cs nodes) :
    Alternatives cs [nodes] := by
  obtain ⟨ls, split, read⟩ := h
  refine ⟨ls, split, fun p begun => ⟨_, read p, ?_⟩⟩
  rw [begun]
  rfl

namespace Alternatives

/-- One more alternative before others. -/
theorem or {xs gap ys : List Char} {nodes : List Node} {rows : List (List Node)} (hx : Operands xs nodes)
    (between : Gap .or gap) (hy : Alternatives ys rows) : Alternatives (xs ++ (gap ++ ys)) (nodes :: rows) := by
  obtain ⟨ls, splitX, readX⟩ := hx
  obtain ⟨ks, splitY, readY⟩ := hy
  obtain ⟨link, links, splitGap⟩ := between.words? ys
  refine ⟨ls ++ (link ++ ks), ?_, fun p begun => ?_⟩
  · rw [words?_append (between.apart ys) splitX, splitGap, splitY]
    rfl
  · cases links with
    | keyword =>
      obtain ⟨frame, read, made⟩ := readY
        ⟨p.outer, ⟨p.current.alternatives ++ [Node.combine .and nodes], []⟩, true⟩ rfl
      refine ⟨frame, ?_, ?_⟩
      · rw [List.foldlM_append, readX, begun]
        exact read
      · rw [made, List.map_cons, List.append_assoc]
        rfl

/-- Alternatives alone are a disjunction. -/
theorem shape? {cs : List Char} {rows : List (List Node)} (h : Alternatives cs rows) :
    Group.shape? cs = some (Group.ofNode (Node.combine .or (rows.map (Node.combine .and)))) := by
  obtain ⟨ls, split, read⟩ := h
  obtain ⟨frame, complete, made⟩ := read .start rfl
  have nonempty : ls.isEmpty = false := by
    cases ls with
    | nil => cases complete
    | cons l ls => rfl
  rw [Group.shape?, split, Option.bind_some, Group.ofLexemes?, nonempty, complete]
  show some (Group.ofNode (Node.combine .or frame.split.alternatives)) = _
  rw [made]
  rfl

/-- Alternatives in parentheses are one operand. -/
theorem nested {cs : List Char} {rows : List (List Node)} (h : Alternatives cs rows) :
    Operands ('(' :: cs ++ [')']) [Node.combine .or (rows.map (Node.combine .and))] := by
  obtain ⟨ls, split, read⟩ := h
  obtain ⟨frame, complete, made⟩ := read .start rfl
  refine ⟨opening :: ls ++ [closing], words?_nested split, fun p => ?_⟩
  rw [Progress.foldlM_step_nested complete, Frame.close, made]
  rfl

end Alternatives

/-- Operands alone are a conjunction. -/
theorem Operands.shape? {cs : List Char} {nodes : List Node} (h : Operands cs nodes) :
    Group.shape? cs = some (Group.ofNode (Node.combine .and nodes)) :=
  h.alternatives.shape?

/-! ### Texts -/

/-- Items with gaps between them. -/
inductive JoinedText {α : Type} (item : List Char → α → Prop) (gap : List Char → Prop) :
    List Char → List α → Prop where
  /-- A lone item. -/
  | one {cs : List Char} {x : α} : item cs x → JoinedText item gap cs [x]
  /-- An item before others. -/
  | cons {cs between rest : List Char} {x : α} {xs : List α} : item cs x → gap between →
      JoinedText item gap rest xs → JoinedText item gap (cs ++ (between ++ rest)) (x :: xs)

namespace JoinedText

theorem map {α β : Type} {item : List Char → α → Prop} {other : List Char → β → Prop}
    {gap : List Char → Prop} {cs : List Char} {xs : List α} (h : JoinedText item gap cs xs) (f : α → β)
    (kept : ∀ cs x, item cs x → other cs (f x)) : JoinedText other gap cs (xs.map f) := by
  induction h with
  | one first => exact .one (kept _ _ first)
  | cons first between _ ih => exact .cons (kept _ _ first) between ih

/-- Single operands with `AND` or blanks between them are operands. -/
theorem operands {cs : List Char} {nodes : List Node}
    (h : JoinedText (fun cs node => Operands cs [node]) (Gap .and) cs nodes) : Operands cs nodes := by
  induction h with
  | one first => exact first
  | cons first between _ ih => exact first.and between ih

/-- Operands with `OR` between them are alternatives. -/
theorem alternatives {cs : List Char} {rows : List (List Node)}
    (h : JoinedText Operands (Gap .or) cs rows) : Alternatives cs rows := by
  induction h with
  | one first => exact first.alternatives
  | cons first between _ ih => exact .or first between ih

end JoinedText

/-- A text that is one operand, and what it stands for. -/
inductive OperandText : List Char → Node → Prop where
  /-- A term. -/
  | term {cs : List Char} {t : Term} : TermText cs t → OperandText cs (.term t)
  /-- A query with terms, in parentheses: its only part if it has one part, or all of it as a group. -/
  | nested {text : String} {g : Group} : Group.read text = .ok g → 0 < g.termCount →
      OperandText ('(' :: text.toList ++ [')']) (Node.combine g.connective g.children)

/-- Operands with `AND` or blanks between them. -/
def ConjunctionText : List Char → List Node → Prop := JoinedText OperandText (Gap .and)

/-- Conjunctions with `OR` between them. -/
def QueryText : List Char → List (List Node) → Prop := JoinedText ConjunctionText (Gap .or)

theorem Node.combine_ofNode {node : Node} (proper : node.Proper) :
    Node.combine (Group.ofNode node).connective (Group.ofNode node).children = node := by
  cases proper with
  | term t => rfl
  | group c two _ => exact combine_of_two_le c two

theorem Node.mapAllTerms_eq (f : Term → Term) (nodes : List Node) :
    Node.mapAllTerms f nodes = nodes.map (Node.mapTerms f) := by
  induction nodes with
  | nil => rfl
  | cons node nodes ih => rw [mapAllTerms, ih, List.map_cons]

theorem Group.shape?_of_read {text : String} {g : Group} (h : Group.read text = .ok g) :
    Group.shape? text.toList = some (g.mapTerms Term.placeless) := by
  rw [shape?_eq, read_eq_ok_iff.mp h]
  rfl

theorem Group.termCount_mapTerms (f : Term → Term) (g : Group) :
    (g.mapTerms f).termCount = g.termCount :=
  Node.termCounts_mapAllTerms f g.children

theorem OperandText.operands {cs : List Char} {node : Node} (h : OperandText cs node) :
    Operands cs [node.mapTerms Term.placeless] := by
  cases h with
  | term written => exact .term written
  | @nested text g read terms =>
    rw [← g.termCount_mapTerms Term.placeless] at terms
    obtain ⟨node, proper, same, operands⟩ := Operands.nested (Group.shape?_of_read read) terms
    have combined := Node.combine_ofNode proper
    rw [same, Group.mapTerms, ← Node.mapTerms_combine] at combined
    rwa [combined]

theorem ConjunctionText.operands {cs : List Char} {nodes : List Node} (h : ConjunctionText cs nodes) :
    Operands cs (Node.mapAllTerms Term.placeless nodes) := by
  rw [Node.mapAllTerms_eq]
  exact JoinedText.operands (JoinedText.map h _ fun _ _ operand => operand.operands)

theorem QueryText.alternatives {cs : List Char} {rows : List (List Node)} (h : QueryText cs rows) :
    Alternatives cs (rows.map (Node.mapAllTerms Term.placeless)) :=
  (JoinedText.map h _ fun _ _ conjunction => conjunction.operands).alternatives

/-- A text of operands is read as the disjunction of their conjunctions, but for the places of the
terms. A lone part stands for itself, and a lone term is wrapped as a query. -/
theorem Group.read_precedence {text : String} {rows : List (List Node)} (h : QueryText text.toList rows) :
    ∃ g, Group.read text = .ok g ∧ g.mapTerms Term.placeless =
      (Group.ofNode (Node.combine .or (rows.map (Node.combine .and)))).mapTerms Term.placeless := by
  have shape := h.alternatives.shape?
  rw [shape?_eq, Option.map_eq_some_iff] at shape
  obtain ⟨g, found, same⟩ := shape
  refine ⟨g, read_eq_ok_iff.mpr found, same.trans ?_⟩
  rw [mapTerms_ofNode, Node.mapTerms_combine, Node.mapAllTerms_eq, List.map_map, List.map_map]
  congr 3
  funext nodes
  exact (Node.mapTerms_combine ..).symm

/-- Fields that spell keywords, a group in parentheses, blanks for `AND`, and keywords in mixed case. -/
theorem Group.read_precedence_mixed :
    let text := "and:2 AND (or.x:1 oR not:3)\tNOT\n a:\"(\"\n or -b:<=2"
    let two : Term := ⟨⟨["and"]⟩, .eq, .integer 2, false, ⟨0, 5, 1, 1⟩⟩
    let paren : Term := ⟨⟨["a"]⟩, .eq, .string "(", true, ⟨0, 10, 1, 1⟩⟩
    let most : Term := ⟨⟨["b"]⟩, .le, .integer 2, true, ⟨0, 6, 1, 1⟩⟩
    let rows (inner : Group) : List (List Node) :=
      [[.term two, Node.combine inner.connective inner.children, .term paren], [.term most]]
    ∃ inner g, Group.read "or.x:1 oR not:3" = .ok inner ∧ QueryText text.toList (rows inner) ∧
      Group.read text = .ok g ∧ g.text = "(and:2 AND (or.x:1 OR not:3) AND NOT a:\"(\") OR NOT b:<=2" ∧
      g.mapTerms Term.placeless = (Group.ofNode
        (Node.combine .or ((rows inner).map (Node.combine .and)))).mapTerms Term.placeless := by
  intro text two paren most rows
  have readable : (Group.read "or.x:1 oR not:3").toOption.any (fun g => 0 < g.termCount) = true := by
    decide +kernel
  have shown : (Group.read text).toOption.all (fun g =>
      g.text = "(and:2 AND (or.x:1 OR not:3) AND NOT a:\"(\") OR NOT b:<=2") = true := by
    decide +kernel
  have parts : text.toList = "and:2".toList ++ (' ' :: (Connective.and.keyword.toList ++ [' ']) ++
      ("(or.x:1 oR not:3)".toList ++ ("\t".toList ++ "NOT\n a:\"(\"".toList))) ++
        ("\n or ".toList ++ "-b:<=2".toList) := by
    decide
  have line : Blanks "\n ".toList := ⟨List.cons_ne_nil _ _, rfl⟩
  have blank : Blanks " ".toList := ⟨List.cons_ne_nil _ _, rfl⟩
  have tab : Blanks "\t".toList := ⟨List.cons_ne_nil _ _, rfl⟩
  have or : Gap .or "\n or ".toList := .keyword (w := "or".toList) line rfl blank
  have first : TermText "and:2".toList two := .of_term? (p := .start) (by decide +kernel)
  have third : TermText "NOT\n a:\"(\"".toList paren := .of_term? (p := .start) (by decide +kernel)
  have fourth : TermText "-b:<=2".toList most := .of_term? (p := .start) (by decide +kernel)
  cases read : Group.read "or.x:1 oR not:3" with
  | error e =>
    rw [read] at readable
    cases readable
  | ok inner =>
    rw [read] at readable
    have second : OperandText "(or.x:1 oR not:3)".toList _ := .nested read (of_decide_eq_true readable)
    have row : ConjunctionText _ _ :=
      .cons (.term first) (Gap.shown .and) (.cons second (.blanks tab) (.one (.term third)))
    have spelt : QueryText text.toList (rows inner) := by
      rw [parts]
      exact .cons row or (.one (.one (.term fourth)))
    obtain ⟨g, found, same⟩ := read_precedence spelt
    rw [found] at shown
    exact ⟨inner, g, rfl, spelt, found, of_decide_eq_true shown, same⟩

end SearchFilter
