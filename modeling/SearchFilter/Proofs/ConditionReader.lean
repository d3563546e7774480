import SearchFilter.Proofs.Meaning
import SearchFilter.Proofs.SqlText

/-!
# Reading conditions

The text of a condition is read as a database reads it: parentheses first, then `NOT`, then `AND`,
then `OR`, each connective from left to right. The atoms are the comparisons that a dialect writes,
with the values the statement is run with in their places. The reader takes one token after another;
for each open parenthesis it keeps what was read before it.

`Operand`, `Whole` and `Leads` say what tokens read as in each place where a condition can stand: as
an operand of anything, from the start of a parenthesis to its end, and from its start up to a
connective. The lemmas about them are the rules by which text is put together.
-/

namespace SearchFilter

/-! ### Formulas -/

/-- Conditions combined from atoms. -/
inductive Formula (α : Type) where
  /-- An atom. -/
  | atom (a : α)
  /-- A negation. -/
  | not (f : Formula α)
  /-- Two conditions combined by a connective. -/
  | combine (c : Connective) (f g : Formula α)
  deriving DecidableEq

namespace Formula

variable {α β : Type}

instance : Logic (Formula α) := ⟨combine .and, combine .or, not⟩

theorem combine_eq (c : Connective) (f g : Formula α) : c.combine f g = combine c f g := by
  cases c <;> rfl

/-- The value of a formula, given those of its atoms. -/
def eval {τ : Type} [Logic τ] (v : α → τ) : Formula α → τ
  | atom a => v a
  | not f => Logic.not (f.eval v)
  | combine c f g => c.combine (f.eval v) (g.eval v)

/-- The formula with other atoms in their places. -/
def map (m : α → β) (f : Formula α) : Formula β := f.eval fun a => atom (m a)

/-- A formula negated so many times. -/
def negated : Formula α → Nat → Formula α
  | f, 0 => f
  | f, n + 1 => negated (not f) n

end Formula

namespace SqlText

/-! ### Atoms -/

/-- A column or a value at the front, and what follows it. -/
def operand? : List Token → Option (Expr × List Token)
  | .name table :: .dot :: .name column :: ts => some (.columnOf table column, ts)
  | .name column :: ts => some (.ident none column, ts)
  | .value v :: ts => some (.value v, ts)
  | _ => none

/-- A column, a value or a function of one at the front, and what follows it. -/
def subject? : List Token → Option (Expr × List Token)
  | .word function :: .opening :: ts =>
    match operand? ts with
    | some (e, .closing :: ts) => some (.call function [e], ts)
    | _ => none
  | ts => operand? ts

/-- The comparison of a symbol. -/
def operator? (s : String) : Option Operator :=
  [Operator.eq, .ne, .lt, .le, .gt, .ge].find? fun op => op.symbol = s

/-- The comparison that a subject stands on the left of. Arrays and JSON arrays are searched in the
words of each dialect. -/
def comparison? (d : Dialect) (left : Expr) : List Token → Option Expr
  | [.word "IS", .word "NULL"] => some (.isNull left false)
  | [.word "IS", .word "NOT", .word "NULL"] => some (.isNull left true)
  | .word "LIKE" :: ts => do
    let (right, []) ← subject? ts | none
    some (.like left right)
  | .operator "=" :: .word "ANY" :: .opening :: ts => do
    let (array, [.closing]) ← operand? ts | none
    if d = .postgres then some (.arrayContains array left) else none
  | .word "MEMBER" :: .word "OF" :: .opening :: ts => do
    let (array, [.closing]) ← operand? ts | none
    if d = .mysql then some (.arrayContains array left) else none
  | .word "IN" :: .opening :: .word "SELECT" :: .word "value" :: .word "FROM" ::
      .word "json_each" :: .opening :: ts => do
    let (array, [.closing, .closing]) ← operand? ts | none
    if d = .sqlite then some (.arrayContains array left) else none
  | .operator "@>" :: ts => do
    let (candidate, [.operator "::", .word "text", .operator "::", .word "jsonb"]) ← operand? ts
      | none
    if d = .postgres then some (.jsonContains left candidate) else none
  | .operator symbol :: ts => do
    let op ← operator? symbol
    let (right, []) ← operand? ts | none
    some (.compare left op right)
  | _ => none

/-- The condition that an atom states. -/
def atom? (d : Dialect) : List Token → Option Expr
  | .word "JSON_CONTAINS" :: .opening :: ts => do
    let (target, .comma :: ts) ← operand? ts | none
    let (candidate, [.closing]) ← operand? ts | none
    if d = .mysql then some (.jsonContains target candidate) else none
  | .word "EXISTS" :: .opening :: .word "SELECT" :: .word "1" :: .word "FROM" ::
      .word "json_each" :: .opening :: ts => do
    let (target, .closing :: .word "WHERE" :: .word "json_each" :: .dot :: .word "value" ::
      .operator "=" :: .word "json_extract" :: .opening :: ts) ← operand? ts | none
    let (candidate, [.comma, .literal "$", .closing, .closing]) ← operand? ts | none
    if d = .sqlite then some (.jsonContains target candidate) else none
  | ts => do
    let (left, ts) ← subject? ts
    comparison? d left ts

/-! ### Reading conditions -/

/-- What has been read between two parentheses. -/
structure Level where
  /-- The disjunction before the last `OR`. -/
  disjunction : Option (Formula Expr)
  /-- The conjunction after it. -/
  conjunction : Option (Formula Expr)
  /-- How often the operand to come is negated. -/
  negations : Nat

namespace Level

/-- Nothing has been read. -/
def empty : Level := ⟨none, none, 0⟩

/-- One more operand. -/
def push (l : Level) (f : Formula Expr) : Level :=
  ⟨l.disjunction, Option.merge (.combine .and) l.conjunction (some (f.negated l.negations)), 0⟩

/-- What has been read. -/
def formula? (l : Level) : Option (Formula Expr) :=
  Option.merge (.combine .or) l.disjunction l.conjunction

/-- What has been read, with a connective after it. -/
def after (l : Level) : Connective → Level
  | .and => l
  | .or => ⟨l.formula?, none, 0⟩

end Level

/-- Where the reader stands. -/
inductive Phase where
  /-- Before an operand. -/
  | wanting
  /-- In an atom, of which some tokens have been read, inside so many parentheses of its own. -/
  | reading (atom : List Token) (depth : Nat)
  /-- After an operand. -/
  | complete

/-- The state of the reader. -/
structure Reader where
  /-- What was read before each open parenthesis, the innermost first. -/
  outer : List Level
  /-- What has been read since. -/
  level : Level
  /-- Where the reader stands. -/
  phase : Phase

namespace Reader

/-- At the start of a condition. -/
def start (outer : List Level) : Reader := ⟨outer, .empty, .wanting⟩

/-- After one more operand. -/
def operand (r : Reader) (f : Formula Expr) : Reader := ⟨r.outer, r.level.push f, .complete⟩

/-- After the operand at hand, if it can end here. -/
def finish? (d : Dialect) (r : Reader) : Option Reader :=
  match r.phase with
  | .complete => some r
  | .reading atom 0 => (atom? d atom).map fun e => r.operand (.atom e)
  | _ => none

/-- After a connective. -/
def after (r : Reader) (c : Connective) : Reader := ⟨r.outer, r.level.after c, .wanting⟩

/-- After a parenthesis is closed. -/
def close? (r : Reader) : Option Reader :=
  match r.outer, r.level.formula? with
  | level :: outer, some f => some (operand ⟨outer, level, .wanting⟩ f)
  | _, _ => none

/-- After a token that can follow an operand. -/
def next? (r : Reader) : Token → Option Reader
  | .word "AND" => some (r.after .and)
  | .word "OR" => some (r.after .or)
  | .closing => r.close?
  | _ => none

/-- A token that can belong to an atom although it is inside none of its parentheses. -/
def inAtom : Token → Bool
  | .word "AND" | .word "OR" | .closing => false
  | _ => true

/-- How deep an atom is after one more token. -/
def depthAfter (depth : Nat) : Token → Nat
  | .opening => depth + 1
  | .closing => depth - 1
  | _ => depth

/-- One more token. -/
def step? (d : Dialect) (r : Reader) (t : Token) : Option Reader :=
  match r.phase, t with
  | .wanting, .opening => some (start (r.level :: r.outer))
  | .wanting, .word "NOT" =>
    some { r with level := { r.level with negations := r.level.negations + 1 } }
  | .wanting, t => if inAtom t then some { r with phase := .reading [t] 0 } else none
  | .reading atom depth, t =>
    if depth = 0 ∧ inAtom t = false then (r.finish? d).bind fun r => r.next? t
    else some { r with phase := .reading (atom ++ [t]) (depthAfter depth t) }
  | .complete, t => r.next? t

/-- More tokens. -/
def run? (d : Dialect) (r : Reader) (ts : List Token) : Option Reader := ts.foldlM (step? d) r

end Reader

/-- The tokens of a text, with the values it is run with in their places. -/
def tokensOf (d : Dialect) (rendered : Rendered) : Option (List Token) :=
  (lex d rendered.sql).bind (supply rendered.values 0)

/-- The condition that a text states when it is run with its values. -/
def readCondition (d : Dialect) (rendered : Rendered) : Option (Formula Expr) := do
  let r ← (Reader.start []).run? d (← tokensOf d rendered)
  let r ← r.finish? d
  if r.outer.isEmpty then r.level.formula? else none

/-! ### Well-formed text -/

/-- A token that a condition can begin with. -/
def Token.startsOperand : Token → Bool
  | closing | word "AND" | word "OR" => false
  | _ => true

/-- A token that a condition can end with. -/
def Token.endsOperand : Token → Bool
  | opening | word "AND" | word "OR" | word "NOT" => false
  | _ => true

/-- How many parentheses are open after some tokens, unless one is closed that was not opened. -/
def openAfter? : Nat → List Token → Option Nat
  | n, [] => some n
  | n, .opening :: ts => openAfter? (n + 1) ts
  | 0, .closing :: _ => none
  | n + 1, .closing :: ts => openAfter? n ts
  | n, _ :: ts => openAfter? n ts

/-- Tokens with balanced parentheses, none of them empty, and with a condition on both sides of each
connective and after each `NOT`. -/
structure WellFormed (ts : List Token) : Prop where
  /-- Parentheses are balanced. -/
  balanced : openAfter? 0 ts = some 0
  /-- There is a first token, and it begins a condition. -/
  first : ts.head?.any Token.startsOperand = true
  /-- The last token ends a condition. -/
  last : ts.getLast?.any Token.endsOperand = true
  /-- What follows a parenthesis, a connective or a `NOT` begins a condition, and what precedes a
  connective or a closing parenthesis ends one. -/
  between : ts.IsChain fun t u => t.endsOperand = true ∨ u.startsOperand = true

instance (ts : List Token) : Decidable (WellFormed ts) :=
  decidable_of_iff (_ ∧ _ ∧ _ ∧ _) ⟨fun ⟨b, f, l, c⟩ => ⟨b, f, l, c⟩, fun h => ⟨h.1, h.2, h.3, h.4⟩⟩

theorem openAfter?_append (n : Nat) (xs ys : List Token) :
    openAfter? n (xs ++ ys) = (openAfter? n xs).bind fun m => openAfter? m ys := by
  induction xs generalizing n with
  | nil => rfl
  | cons t xs ih =>
    cases t with
    | closing =>
      cases n with
      | zero => rfl
      | succ n => exact ih n
    | opening => exact ih (n + 1)
    | _ => cases n <;> exact ih _

/-- Parentheses that are open already stay so. -/
theorem openAfter?_add (k : Nat) (ts : List Token) :
    ∀ n m, openAfter? n ts = some m → openAfter? (n + k) ts = some (m + k) := by
  induction ts with
  | nil =>
    rintro n m ⟨⟩
    cases n + k <;> rfl
  | cons t ts ih =>
    intro n m h
    cases t with
    | closing =>
      cases n with
      | zero => cases h
      | succ n =>
        rw [Nat.succ_add]
        exact ih n m h
    | opening =>
      have opened := ih (n + 1) m h
      rw [Nat.add_right_comm] at opened
      rw [openAfter?]
      exact opened
    | _ =>
      have rest : openAfter? n ts = some m := by cases n <;> exact h
      have more := ih n m rest
      cases hk : n + k <;> rw [hk] at more <;> exact more

namespace WellFormed

variable {ts us : List Token}

theorem openAfter? (h : WellFormed ts) (n : Nat) : SqlText.openAfter? n ts = some n := by
  have more := openAfter?_add n ts 0 0 h.balanced
  rwa [Nat.zero_add] at more

theorem exists_head (h : WellFormed ts) : ∃ t rest, ts = t :: rest ∧ t.startsOperand = true := by
  cases ts with
  | nil => cases h.first
  | cons t rest => exact ⟨t, rest, rfl, h.first⟩

theorem exists_last (h : WellFormed ts) :
    ∃ t, ts.getLast? = some t ∧ t.endsOperand = true := by
  have last := h.last
  cases ht : ts.getLast? with
  | none =>
    rw [ht] at last
    cases last
  | some t =>
    rw [ht] at last
    exact ⟨t, rfl, last⟩

/-- In parentheses. -/
theorem parenthesized (h : WellFormed ts) : WellFormed (.opening :: (ts ++ [.closing])) where
  balanced := by
    rw [SqlText.openAfter?, openAfter?_append, h.openAfter?]
    rfl
  first := rfl
  last := by
    rw [← List.cons_append, List.getLast?_concat]
    rfl
  between := by
    obtain ⟨t, rest, rfl, starts⟩ := h.exists_head
    obtain ⟨u, hu, ends⟩ := h.exists_last
    refine .cons_cons (.inr starts) (List.isChain_append.mpr ⟨h.between, .singleton _, ?_⟩)
    intro x hx y _
    cases hu.symm.trans hx
    exact .inl ends

/-- After `NOT`. -/
theorem negated (h : WellFormed ts) : WellFormed (.word "NOT" :: ts) where
  balanced := h.balanced
  first := rfl
  last := by
    obtain ⟨t, rest, rfl, -⟩ := h.exists_head
    exact h.last
  between := by
    obtain ⟨t, rest, rfl, starts⟩ := h.exists_head
    exact .cons_cons (.inr starts) h.between

/-- With a connective between them. -/
theorem connected (h : WellFormed ts) (h' : WellFormed us) (c : Connective) :
    WellFormed (ts ++ .word c.keyword :: us) where
  balanced := by
    rw [openAfter?_append, h.balanced, Option.bind_some]
    exact h'.balanced
  first := by
    obtain ⟨t, rest, rfl, starts⟩ := h.exists_head
    exact starts
  last := by
    obtain ⟨t, rest, rfl, -⟩ := h'.exists_head
    rw [List.getLast?_append_cons, List.getLast?_cons_cons]
    exact h'.last
  between := by
    obtain ⟨t, rest, rfl, starts⟩ := h'.exists_head
    obtain ⟨u, hu, ends⟩ := h.exists_last
    refine List.isChain_append.mpr ⟨h.between, .cons_cons (.inr starts) h'.between, ?_⟩
    intro x hx y _
    cases hu.symm.trans hx
    exact .inl ends

end WellFormed

/-! ### What tokens read as -/

namespace Reader

variable {d : Dialect}

theorem run?_append (r : Reader) (ts us : List Token) :
    r.run? d (ts ++ us) = (r.run? d ts).bind fun q => q.run? d us :=
  List.foldlM_append

theorem run?_cons (r : Reader) (t : Token) (ts : List Token) :
    r.run? d (t :: ts) = (r.step? d t).bind fun q => q.run? d ts :=
  List.foldlM_cons

theorem step?_reading (outer : List Level) (level : Level) (atom : List Token) (depth : Nat)
    (t : Token) :
    step? d ⟨outer, level, .reading atom depth⟩ t =
      if depth = 0 ∧ inAtom t = false then
        (finish? d ⟨outer, level, .reading atom depth⟩).bind fun r => r.next? t
      else some ⟨outer, level, .reading (atom ++ [t]) (depthAfter depth t)⟩ :=
  rfl

/-- How deep an atom is after some tokens that belong to it. -/
def depthAfterAll? : Nat → List Token → Option Nat
  | n, [] => some n
  | n, t :: ts =>
    if n = 0 ∧ inAtom t = false then none else depthAfterAll? (depthAfter n t) ts

/-- Tokens that belong to an atom are added to it. -/
theorem run?_reading (outer : List Level) (level : Level) (us : List Token) :
    ∀ (ts : List Token) (n m : Nat), depthAfterAll? n us = some m →
      run? d ⟨outer, level, .reading ts n⟩ us = some ⟨outer, level, .reading (ts ++ us) m⟩ := by
  induction us with
  | nil =>
    rintro ts n m ⟨⟩
    rw [List.append_nil]
    rfl
  | cons t us ih =>
    intro ts n m h
    rw [depthAfterAll?] at h
    split at h
    · cases h
    · next belongs =>
      rw [run?_cons, step?_reading, if_neg belongs, Option.bind_some, ih _ _ _ h, List.append_assoc]
      rfl

/-- A token that can follow an operand ends the one before it. -/
theorem step?_of_finish? {r q : Reader} (h : r.finish? d = some q) {t : Token}
    (ht : inAtom t = false) : r.step? d t = q.next? t := by
  obtain ⟨outer, level, phase⟩ := r
  cases phase with
  | wanting => cases h
  | complete =>
    cases h
    rfl
  | reading atom depth =>
    cases depth with
    | zero => rw [step?_reading, if_pos ⟨rfl, ht⟩, h, Option.bind_some]
    | succ depth => cases h

end Reader

/-- Tokens that read as an operand, wherever one is wanting. -/
structure Operand (d : Dialect) (ts : List Token) (f : Formula Expr) : Prop where
  /-- They are well-formed. -/
  wellFormed : WellFormed ts
  /-- They are read as the operand. -/
  reads : ∀ r : Reader, r.phase = .wanting →
    ∃ q, r.run? d ts = some q ∧ q.finish? d = some (r.operand f)

/-- Tokens that read as a condition, from the start of a text or a parenthesis to its end. -/
structure Whole (d : Dialect) (ts : List Token) (f : Formula Expr) : Prop where
  /-- They are well-formed. -/
  wellFormed : WellFormed ts
  /-- They are read as the condition. -/
  reads : ∀ outer, ∃ q level, (Reader.start outer).run? d ts = some q ∧
    q.finish? d = some ⟨outer, level, .complete⟩ ∧ level.formula? = some f

/-- What has been read of a condition that goes on with a connective. -/
def Level.begun (f : Formula Expr) : Connective → Level
  | .and => ⟨none, some f, 0⟩
  | .or => ⟨some f, none, 0⟩

/-- Tokens that read as what stands before a connective, from the start of a text or a parenthesis. -/
def Leads (d : Dialect) (c : Connective) (ts : List Token) (f : Formula Expr) : Prop :=
  ∀ outer, ∃ q level, (Reader.start outer).run? d ts = some q ∧
    q.finish? d = some ⟨outer, level, .complete⟩ ∧ level.after c = .begun f c

namespace Operand

variable {d : Dialect} {ts : List Token} {f : Formula Expr}

/-- An atom is an operand: it takes in all its tokens, and ends outside of its own parentheses. -/
theorem ofAtom {t : Token} {e : Expr} (wellFormed : WellFormed (t :: ts))
    (first : ∀ outer level, Reader.step? d ⟨outer, level, .wanting⟩ t =
      some ⟨outer, level, .reading [t] 0⟩)
    (rest : Reader.depthAfterAll? 0 ts = some 0) (atom : atom? d (t :: ts) = some e) :
    Operand d (t :: ts) (.atom e) := by
  refine ⟨wellFormed, ?_⟩
  rintro ⟨outer, level, phase⟩ ⟨⟩
  refine ⟨⟨outer, level, .reading (t :: ts) 0⟩, ?_, ?_⟩
  · rw [Reader.run?_cons, first, Option.bind_some, Reader.run?_reading outer level ts [t] 0 0 rest]
    rfl
  · show (atom? d (t :: ts)).map _ = _
    rw [atom]
    rfl

theorem whole (h : Operand d ts f) : Whole d ts f := by
  refine ⟨h.wellFormed, fun outer => ?_⟩
  obtain ⟨q, run, finish⟩ := h.reads (.start outer) rfl
  exact ⟨q, _, run, finish, rfl⟩

theorem leads (h : Operand d ts f) (c : Connective) : Leads d c ts f := by
  intro outer
  obtain ⟨q, run, finish⟩ := h.reads (.start outer) rfl
  refine ⟨q, _, run, finish, ?_⟩
  cases c <;> rfl

end Operand

namespace Whole

variable {d : Dialect} {ts : List Token} {f : Formula Expr}

/-- A condition in parentheses is an operand. -/
theorem parenthesized (h : Whole d ts f) : Operand d (.opening :: (ts ++ [.closing])) f := by
  refine ⟨h.wellFormed.parenthesized, ?_⟩
  rintro ⟨outer, level, phase⟩ ⟨⟩
  obtain ⟨q, inner, run, finish, formula⟩ := h.reads (level :: outer)
  refine ⟨Reader.operand ⟨outer, level, .wanting⟩ f, ?_, rfl⟩
  show (Reader.start (level :: outer)).run? d (ts ++ [.closing]) = _
  rw [Reader.run?_append, run, Option.bind_some, Reader.run?_cons, Reader.step?_of_finish? finish rfl,
    Reader.next?, Reader.close?, formula]
  rfl

/-- A negated condition is an operand. -/
theorem negated (h : Whole d ts f) :
    Operand d (.word "NOT" :: .opening :: (ts ++ [.closing])) (.not f) := by
  refine ⟨h.parenthesized.wellFormed.negated, ?_⟩
  rintro ⟨outer, level, phase⟩ ⟨⟩
  obtain ⟨q, run, finish⟩ := h.parenthesized.reads
    ⟨outer, { level with negations := level.negations + 1 }, .wanting⟩ rfl
  exact ⟨q, run, finish⟩

end Whole

/-- One more operand after a connective. -/
theorem Leads.attach {d : Dialect} {c : Connective} {ts us : List Token} {f g : Formula Expr}
    (h : Leads d c ts f) (hf : WellFormed ts) (h' : Operand d us g) :
    Whole d (ts ++ .word c.keyword :: us) (.combine c f g) ∧
      Leads d c (ts ++ .word c.keyword :: us) (.combine c f g) := by
  have reads : ∀ outer, ∃ q, (Reader.start outer).run? d (ts ++ .word c.keyword :: us) = some q ∧
      q.finish? d = some ⟨outer, (Level.begun f c).push g, .complete⟩ := by
    intro outer
    obtain ⟨q, level, run, finish, begun⟩ := h outer
    obtain ⟨q', run', finish'⟩ := h'.reads ⟨outer, level.after c, .wanting⟩ rfl
    refine ⟨q', ?_, by rw [finish', begun]; rfl⟩
    have step : q.step? d (.word c.keyword) = some (.after ⟨outer, level, .complete⟩ c) := by
      cases c <;> exact Reader.step?_of_finish? finish rfl
    rw [Reader.run?_append, run, Option.bind_some, Reader.run?_cons, step]
    exact run'
  refine ⟨⟨hf.connected h'.wellFormed c, fun outer => ?_⟩, fun outer => ?_⟩
  · obtain ⟨q, run, finish⟩ := reads outer
    refine ⟨q, _, run, finish, ?_⟩
    cases c <;> rfl
  · obtain ⟨q, run, finish⟩ := reads outer
    refine ⟨q, _, run, finish, ?_⟩
    cases c <;> rfl

end SqlText

end SearchFilter
