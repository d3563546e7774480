import SearchFilter.Proofs.Layout
import SearchFilter.Proofs.Nesting

/-!
# The shape of what is read

Reading never makes a group of fewer than two parts: a lone operand stands for itself, whatever
parentheses are around it, and only a query as a whole may be empty or hold a lone term. So what is read
is normal (`Group.Normal`), and it is empty only where the text is blank. On the way, the terms are taken
over from the lexemes one by one, and the parentheses that are open are the groups that are.
-/

namespace SearchFilter

open Lexeme Text

/-! ### Normal queries -/

/-- Each group of a part of a query, the part itself included, combines at least two parts. -/
inductive Node.Proper : Node → Prop where
  /-- A term has no groups. -/
  | term (t : Term) : Proper (.term t)
  /-- A group of at least two such parts. -/
  | group (c : Connective) {children : List Node} : 2 ≤ children.length →
      (∀ node ∈ children, Proper node) → Proper (.group c children)

/-- A query as reading makes it. -/
structure Group.Normal (g : Group) : Prop where
  /-- It is empty or a lone term, as a conjunction, or combines at least two parts. -/
  root : g = .empty ∨ (∃ t, g = ⟨.and, [.term t]⟩) ∨ 2 ≤ g.children.length
  /-- Groups inside it combine at least two parts. -/
  nested : ∀ node ∈ g.children, node.Proper
  /-- Fields are paths of names. -/
  fields : ∀ t ∈ g.terms, t.field.IsNamed

theorem Node.Proper.combine (c : Connective) {nodes : List Node} (nonempty : nodes ≠ [])
    (h : ∀ node ∈ nodes, node.Proper) : (Node.combine c nodes).Proper := by
  rcases nodes with _ | ⟨x, _ | ⟨y, nodes⟩⟩
  · exact absurd rfl nonempty
  · exact h x List.mem_cons_self
  · exact .group c (Nat.le_add_left 2 nodes.length) h

theorem Node.combine_of_two_le (c : Connective) {nodes : List Node} (two : 2 ≤ nodes.length) :
    Node.combine c nodes = .group c nodes := by
  rcases nodes with _ | ⟨x, _ | ⟨y, nodes⟩⟩
  · cases two
  · exact absurd two (Nat.not_succ_le_self 1)
  · rfl

theorem Group.normal_empty : Group.empty.Normal where
  root := .inl rfl
  nested := nofun
  fields := nofun

theorem Group.normal_ofNode {node : Node} (proper : node.Proper)
    (fields : ∀ t ∈ node.terms, t.field.IsNamed) : (Group.ofNode node).Normal := by
  refine ⟨?_, ?_, by rwa [Group.terms_ofNode]⟩
  · cases proper with
    | term t => exact .inr (.inl ⟨t, rfl⟩)
    | group c two _ => exact .inr (.inr two)
  · cases proper with
    | term t => exact List.forall_mem_singleton.mpr (.term t)
    | group c _ children => exact children

theorem Group.isEmpty_ofNode {node : Node} (proper : node.Proper) :
    (Group.ofNode node).isEmpty = false := by
  cases proper with
  | term t => rfl
  | @group c children two _ =>
    cases children with
    | nil => cases two
    | cons x children => rfl

/-! ### One lexeme after another -/

/-- How many parentheses are open after a lexeme, if it does not close one that is not. -/
def Lexeme.depth? (n : Nat) : Lexeme → Option Nat
  | .opening => some (n + 1)
  | .closing =>
    match n with
    | 0 => none
    | n + 1 => some n
  | _ => some n

namespace Frame

/-- The terms of a group that is being read. -/
def terms (f : Frame) : List Term := Node.allTerms (f.alternatives ++ f.operands)

/-- The parts of a group that is being read are proper. -/
def Proper (f : Frame) : Prop := ∀ node ∈ f.alternatives ++ f.operands, node.Proper

theorem terms_push (f : Frame) (node : Node) : (f.push node).terms = f.terms ++ node.terms := by
  rw [terms, terms, push, ← List.append_assoc, Node.allTerms_append, Node.allTerms_singleton]

theorem terms_split (f : Frame) : f.split.terms = f.terms := by
  rw [terms, terms, split, List.append_nil, Node.allTerms_append, Node.allTerms_singleton,
    Node.terms_combine, Node.allTerms_append]

theorem terms_close (f : Frame) : f.close.terms = f.terms := by
  rw [close, Node.terms_combine, ← f.terms_split, terms, split, List.append_nil]

variable {f : Frame}

theorem Proper.push (h : f.Proper) {node : Node} (proper : node.Proper) : (f.push node).Proper := by
  rw [Proper, Frame.push, ← List.append_assoc, List.forall_mem_append]
  exact ⟨h, List.forall_mem_singleton.mpr proper⟩

theorem Proper.split (h : f.Proper) (operands : f.operands ≠ []) : f.split.Proper := by
  rw [Proper, List.forall_mem_append] at h
  rw [Proper, Frame.split, List.append_nil, List.forall_mem_append]
  exact ⟨h.1, List.forall_mem_singleton.mpr (.combine .and operands h.2)⟩

theorem Proper.close (h : f.Proper) (operands : f.operands ≠ []) : f.close.Proper := by
  have parts := h.split operands
  rw [Proper, Frame.split, List.append_nil] at parts
  exact .combine .or (List.append_ne_nil_of_right_ne_nil _ (List.cons_ne_nil _ _)) parts

end Frame

namespace Progress

/-- The terms that have been read. -/
def terms (p : Progress) : List Term := p.outer.reverse.flatMap Frame.terms ++ p.current.terms

/-- What has been read is proper, and ends with an operand unless one is wanting. -/
structure Proper (p : Progress) : Prop where
  /-- The groups around the one at hand are proper. -/
  outer : ∀ f ∈ p.outer, f.Proper
  /-- The group at hand is proper. -/
  current : p.current.Proper
  /-- The last thing read was an operand of it. -/
  operands : p.wanting = false → p.current.operands ≠ []

theorem proper_start : Proper .start where
  outer := nofun
  current := nofun
  operands := nofun

/-- All that a lexeme can do to what has been read. -/
theorem step_cases {p q : Progress} {l : Lexeme} (h : p.step l = some q) :
    (∃ t, l = .term t ∧ q = ⟨p.outer, p.current.push (.term t), false⟩) ∨
      (l = .opening ∧ q = ⟨p.current :: p.outer, .empty, true⟩) ∨
      (∃ frame outer, l = .closing ∧ p.wanting = false ∧ p.outer = frame :: outer ∧
        q = ⟨outer, frame.push p.current.close, false⟩) ∨
      (l = .keyword .and ∧ p.wanting = false ∧ q = ⟨p.outer, p.current, true⟩) ∨
      (l = .keyword .or ∧ p.wanting = false ∧ q = ⟨p.outer, p.current.split, true⟩) := by
  obtain ⟨outer, current, wanting⟩ := p
  cases l with
  | term t => exact .inl ⟨t, rfl, (Option.some.inj h).symm⟩
  | opening => exact .inr (.inl ⟨rfl, (Option.some.inj h).symm⟩)
  | closing =>
    cases wanting with
    | true => cases h
    | false =>
      cases outer with
      | nil => cases h
      | cons frame outer => exact .inr (.inr (.inl ⟨frame, outer, rfl, rfl, rfl, (Option.some.inj h).symm⟩))
  | keyword c =>
    cases wanting with
    | true => cases c <;> cases h
    | false =>
      cases c with
      | and => exact .inr (.inr (.inr (.inl ⟨rfl, rfl, (Option.some.inj h).symm⟩)))
      | or => exact .inr (.inr (.inr (.inr ⟨rfl, rfl, (Option.some.inj h).symm⟩)))

theorem Proper.step {p q : Progress} {l : Lexeme} (proper : p.Proper) (h : p.step l = some q) :
    q.Proper := by
  have pushed (f : Frame) (node : Node) : (f.push node).operands ≠ [] :=
    List.append_ne_nil_of_right_ne_nil _ (List.cons_ne_nil _ _)
  rcases step_cases h with ⟨t, -, rfl⟩ | ⟨-, rfl⟩ | ⟨frame, outer, -, complete, around, rfl⟩ |
    ⟨-, complete, rfl⟩ | ⟨-, complete, rfl⟩
  · exact ⟨proper.outer, proper.current.push (.term t), fun _ => pushed _ _⟩
  · exact ⟨List.forall_mem_cons.mpr ⟨proper.current, proper.outer⟩, nofun, nofun⟩
  · have outside := proper.outer
    rw [around, List.forall_mem_cons] at outside
    exact ⟨outside.2, outside.1.push (proper.current.close (proper.operands complete)),
      fun _ => pushed _ _⟩
  · exact ⟨proper.outer, proper.current, nofun⟩
  · exact ⟨proper.outer, proper.current.split (proper.operands complete), nofun⟩

theorem terms_step {p q : Progress} {l : Lexeme} (h : p.step l = some q) :
    q.terms = p.terms ++ l.terms := by
  rcases step_cases h with ⟨t, rfl, rfl⟩ | ⟨rfl, rfl⟩ | ⟨frame, outer, rfl, -, around, rfl⟩ |
    ⟨rfl, -, rfl⟩ | ⟨rfl, -, rfl⟩
  · rw [terms, terms, Frame.terms_push, List.append_assoc, Node.terms, Lexeme.terms]
  · simp [terms, Frame.terms, Frame.empty, Node.allTerms, Lexeme.terms]
  · simp [terms, around, Frame.terms_push, Frame.terms_close, Lexeme.terms]
  · simp [terms, Lexeme.terms]
  · simp [terms, Frame.terms_split, Lexeme.terms]

theorem depth?_step {p q : Progress} {l : Lexeme} (h : p.step l = some q) :
    depth? p.outer.length l = some q.outer.length := by
  rcases step_cases h with ⟨t, rfl, rfl⟩ | ⟨rfl, rfl⟩ | ⟨frame, outer, rfl, -, around, rfl⟩ |
    ⟨rfl, -, rfl⟩ | ⟨rfl, -, rfl⟩
  · rfl
  · rfl
  · rw [around]
    rfl
  · rfl
  · rfl

/-- What a run of lexemes keeps and takes over. -/
theorem run_spec {ls : List Lexeme} {q : Progress} : ∀ {p : Progress}, p.Proper →
    ls.foldlM step p = some q → q.Proper ∧ q.terms = p.terms ++ ls.flatMap Lexeme.terms ∧
      ls.foldlM depth? p.outer.length = some q.outer.length := by
  induction ls with
  | nil =>
    rintro p proper ⟨⟩
    exact ⟨proper, (List.append_nil _).symm, rfl⟩
  | cons l ls ih =>
    intro p proper h
    rw [List.foldlM_cons] at h
    obtain ⟨next, first, rest⟩ := Option.bind_eq_some_iff.mp h
    obtain ⟨kept, taken, opened⟩ := ih (proper.step first) rest
    refine ⟨kept, ?_, ?_⟩
    · rw [taken, terms_step first, List.flatMap_cons, List.append_assoc]
    · rw [List.foldlM_cons, depth?_step first]
      exact opened

end Progress

/-! ### Whole queries -/

/-- A query takes over the terms of its lexemes, which close all the parentheses that they open, and it
is made of no lexemes or of a proper part. -/
theorem Group.ofLexemes?_spec {ls : List Lexeme} {g : Group} (h : Group.ofLexemes? ls = some g) :
    g.terms = ls.flatMap Lexeme.terms ∧ ls.foldlM depth? 0 = some 0 ∧
      ((ls = [] ∧ g = .empty) ∨ (ls ≠ [] ∧ ∃ node, node.Proper ∧ g = .ofNode node)) := by
  rcases ofLexemes?_cases h with ⟨rfl, rfl⟩ | ⟨frame, read, rfl⟩
  · exact ⟨rfl, rfl, .inl ⟨rfl, rfl⟩⟩
  · obtain ⟨proper, terms, depth⟩ := Progress.run_spec Progress.proper_start read
    refine ⟨?_, depth, .inr ⟨?_, frame.close, proper.current.close (proper.operands rfl), rfl⟩⟩
    · rw [Group.terms_ofNode, Frame.terms_close]
      exact terms
    · rintro rfl
      cases read

theorem Lexeme.all?_eq_nil_iff {p : Position} {cs : List Char} :
    all? p cs = some [] ↔ ∀ c ∈ cs, isSpace c = true := by
  constructor
  · exact fun h => (Laid.of_all? h).isSpace_of_nil
  · intro blank
    refine all?_nil p ?_
    simpa [skipSpaces] using @List.dropWhile_append_of_pos _ isSpace cs [] blank

theorem Group.ofChars?_of_blank {cs : List Char} (blank : ∀ c ∈ cs, isSpace c = true) :
    Group.ofChars? cs = some .empty := by
  rw [ofChars?, all?_eq_nil_iff.mpr blank]
  rfl

/-- What is read is normal. -/
theorem Group.normal_of_ofChars? {cs : List Char} {g : Group} (h : Group.ofChars? cs = some g) :
    g.Normal := by
  obtain ⟨ls, split, made⟩ := Option.bind_eq_some_iff.mp h
  obtain ⟨terms, -, shape⟩ := ofLexemes?_spec made
  have fields : ∀ t ∈ g.terms, t.field.IsNamed := by
    intro t ht
    rw [terms] at ht
    obtain ⟨_, _, _, -, written, -⟩ := (Laid.of_all? split).exists_place t ht
    exact written.isNamed
  rcases shape with ⟨-, rfl⟩ | ⟨-, node, proper, rfl⟩
  · exact normal_empty
  · rw [Group.terms_ofNode] at fields
    exact normal_ofNode proper fields

/-- What is read is empty only where the text is blank. -/
theorem Group.isEmpty_iff_of_ofChars? {cs : List Char} {g : Group} (h : Group.ofChars? cs = some g) :
    g.isEmpty = true ↔ ∀ c ∈ cs, isSpace c = true := by
  constructor
  · intro empty
    obtain ⟨ls, split, made⟩ := Option.bind_eq_some_iff.mp h
    rcases (ofLexemes?_spec made).2.2 with ⟨rfl, -⟩ | ⟨-, node, proper, rfl⟩
    · exact all?_eq_nil_iff.mp split
    · rw [isEmpty_ofNode proper] at empty
      cases empty
  · intro blank
    rw [ofChars?_of_blank blank] at h
    cases h
    rfl

end SearchFilter
