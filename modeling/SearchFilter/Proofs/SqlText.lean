import Mathlib.Data.List.Chain
import SearchFilter.Sql.Dialect

/-!
# Reading SQL text into tokens

The tokens of an SQL text, found as a database finds them: quoted names with the quotes inside them
doubled, quoted literals, placeholders, words, operators and punctuation. The text is fed to the
reader character by character; `Pending` is the token at hand. Text that was put together from pieces
reads as its pieces do one by one, if no piece runs into the next (`lex_write`). Last, placeholders
are replaced by the values the statement is run with (`supply_tokensFrom`).
-/

namespace SearchFilter

namespace SqlText

/-- A token of SQL text. -/
inductive Token where
  /-- A quoted name, without its quotes. -/
  | name (s : String)
  /-- A quoted literal, without its quotes. -/
  | literal (s : String)
  /-- A place for a value: the value of a number counted from one, or the next one. -/
  | placeholder (number : Option Nat)
  /-- A value that took its place. -/
  | value (v : Value)
  /-- A keyword, a function or a number. -/
  | word (s : String)
  /-- An operator. -/
  | operator (s : String)
  /-- An opening parenthesis. -/
  | opening
  /-- A closing parenthesis. -/
  | closing
  /-- A comma. -/
  | comma
  /-- A dot. -/
  | dot
  deriving DecidableEq

/-- The token that is being read. -/
inductive Pending where
  /-- None. -/
  | clear
  /-- A word. -/
  | word (cs : List Char)
  /-- An operator. -/
  | operator (cs : List Char)
  /-- The number of a placeholder. -/
  | number (cs : List Char)
  /-- A name, inside its quotes. -/
  | name (cs : List Char)
  /-- A name, after a quote that ends it unless another follows. -/
  | nameEnd (cs : List Char)
  /-- A literal, inside its quotes. -/
  | literal (cs : List Char)
  /-- A literal, after a quote that ends it unless another follows. -/
  | literalEnd (cs : List Char)
  deriving DecidableEq

/-- The characters of words. -/
def isWordChar (c : Char) : Bool := c.isAlphanum || c = '_'

/-- The characters of operators. -/
def isOperatorChar (c : Char) : Bool := "=<>@:!+-*/%&|^~#".toList.contains c

namespace Pending

/-- The token at hand, if it ends here. -/
def flush : Pending → List Token
  | word cs => [.word (String.ofList cs)]
  | operator cs => [.operator (String.ofList cs)]
  | number cs => [.placeholder (some (Digits.toNat cs))]
  | nameEnd cs => [.name (String.ofList cs)]
  | literalEnd cs => [.literal (String.ofList cs)]
  | clear | name _ | literal _ => []

/-- The token at hand lacks its closing quote. -/
def isOpen : Pending → Bool
  | name _ | literal _ => true
  | _ => false

/-- The token at hand with one more character, if that belongs to it. -/
def extend? (d : Dialect) : Pending → Char → Option Pending
  | clear, _ => none
  | word cs, c => if isWordChar c then some (word (cs ++ [c])) else none
  | operator cs, c => if isOperatorChar c then some (operator (cs ++ [c])) else none
  | number cs, c => if c.isDigit then some (number (cs ++ [c])) else none
  | name cs, c => some (if c = d.quoteMark then nameEnd cs else name (cs ++ [c]))
  | nameEnd cs, c => if c = d.quoteMark then some (name (cs ++ [c])) else none
  | literal cs, c => some (if c = '\'' then literalEnd cs else literal (cs ++ [c]))
  | literalEnd cs, c => if c = '\'' then some (literal (cs ++ [c])) else none

end Pending

/-- The mark that a placeholder starts with. -/
def placeholderMark : Dialect → Char
  | .postgres => '$'
  | .mysql => '?'
  | .sqlite => '?'

/-- What a character is that belongs to no token before it: a token of its own, or the first character
of one. Blanks are neither. -/
def begin (d : Dialect) (c : Char) : List Token × Pending :=
  if c.isWhitespace then ([], .clear)
  else if c = '(' then ([.opening], .clear)
  else if c = ')' then ([.closing], .clear)
  else if c = ',' then ([.comma], .clear)
  else if c = '.' then ([.dot], .clear)
  else if c = d.quoteMark then ([], .name [])
  else if c = '\'' then ([], .literal [])
  else if c = placeholderMark d then
    if d = .postgres then ([], .number []) else ([.placeholder none], .clear)
  else if isWordChar c then ([], .word [c])
  else ([], .operator [c])

/-- One more character. -/
def Pending.step (d : Dialect) (p : Pending) (c : Char) : List Token × Pending :=
  match p.extend? d c with
  | some q => ([], q)
  | none => (p.flush ++ (begin d c).1, (begin d c).2)

/-- More characters: the tokens that end among them, and the one that is then at hand. -/
def feed (d : Dialect) : Pending → List Char → List Token × Pending
  | p, [] => ([], p)
  | p, c :: cs =>
    let (ended, q) := p.step d c
    let (more, r) := feed d q cs
    (ended ++ more, r)

/-- The tokens of a text, unless a quote is not closed. -/
def lex (d : Dialect) (text : String) : Option (List Token) :=
  let (ended, p) := feed d .clear text.toList
  if p.isOpen then none else some (ended ++ p.flush)

/-! ### Feeding -/

theorem feed_append (d : Dialect) (p : Pending) (xs ys : List Char) :
    feed d p (xs ++ ys) =
      ((feed d p xs).1 ++ (feed d (feed d p xs).2 ys).1, (feed d (feed d p xs).2 ys).2) := by
  induction xs generalizing p with
  | nil => rfl
  | cons c xs ih => simp only [List.cons_append, feed, ih, List.append_assoc]

/-- A token ends before a character that does not belong to it. -/
theorem feed_of_extend?_eq_none {d : Dialect} {p : Pending} {c : Char} (h : p.extend? d c = none)
    (cs : List Char) :
    feed d p (c :: cs) =
      (p.flush ++ (feed d .clear (c :: cs)).1, (feed d .clear (c :: cs)).2) := by
  simp only [feed, Pending.step, h]
  simp [Pending.extend?, Pending.flush]

/-- The inside of a quoted name and the quote after it. -/
theorem feed_quoted (d : Dialect) (s cs : List Char) :
    feed d (.name cs)
        (s.flatMap (fun c => if c = d.quoteMark then [c, c] else [c]) ++ [d.quoteMark]) =
      ([], .nameEnd (cs ++ s)) := by
  induction s generalizing cs with
  | nil => simp [feed, Pending.step, Pending.extend?]
  | cons c s ih =>
    by_cases h : c = d.quoteMark
    · subst h
      simp [feed, Pending.step, Pending.extend?, ih]
    · simp [feed, Pending.step, Pending.extend?, h, ih]

/-- The digits of a placeholder. -/
theorem feed_digits (d : Dialect) (ds cs : List Char) (h : ∀ c ∈ ds, c.isDigit) :
    feed d (.number cs) ds = ([], .number (cs ++ ds)) := by
  induction ds generalizing cs with
  | nil => simp [feed]
  | cons c ds ih =>
    have hc := h c List.mem_cons_self
    simp [feed, Pending.step, Pending.extend?, hc, ih _ fun c hm => h c (List.mem_cons_of_mem _ hm)]

/-! ### Pieces -/

/-- The characters of a piece, when so many values come before it. -/
def text (d : Dialect) (n : Nat) : Piece → List Char
  | .raw s => s.toList
  | .name s => (d.quote s).toList
  | .bound _ => (d.placeholder n).toList

/-- How many values a piece binds. -/
def count : Piece → Nat
  | .raw _ => 0
  | .name _ => 0
  | .bound _ => 1

theorem write_cons (d : Dialect) (n : Nat) (x : Piece) (ps : List Piece) :
    (Piece.write d n (x :: ps)).toList = text d n x ++ (Piece.write d (n + count x) ps).toList := by
  cases x <;> simp only [Piece.write, text, count, String.toList_append, Nat.add_zero]

/-- What a piece reads as on its own. -/
def read (d : Dialect) (n : Nat) (x : Piece) : List Token × Pending := feed d .clear (text d n x)

/-- The tokens of a piece. -/
def tokens (d : Dialect) (n : Nat) (x : Piece) : List Token := (read d n x).1 ++ (read d n x).2.flush

/-- The tokens of pieces, one after another. -/
def tokensFrom (d : Dialect) : Nat → List Piece → List Token
  | _, [] => []
  | n, x :: ps => tokens d n x ++ tokensFrom d (n + count x) ps

theorem read_name (d : Dialect) (n : Nat) (s : String) :
    read d n (.name s) = ([], .nameEnd s.toList) := by
  have begins : Pending.step d .clear d.quoteMark = ([], .name []) := by cases d <;> rfl
  simp only [read, text, Dialect.quote, String.toList_ofList, List.cons_append, feed, begins,
    feed_quoted, List.nil_append]

theorem read_bound (d : Dialect) (n : Nat) (v : Value) :
    read d n (.bound v) =
      if d = .postgres then ([], .number (Digits.ofNat (n + 1))) else ([.placeholder none], .clear) := by
  have digits : ∀ c ∈ Digits.ofNat (n + 1), c.isDigit := fun c hc =>
    Nat.isDigit_of_mem_toDigits (by decide) (by decide) hc
  cases d with
  | postgres =>
    have begins : Pending.step .postgres .clear '$' = ([], .number []) := rfl
    simp only [read, text, Dialect.placeholder, String.toList_ofList, feed, begins,
      feed_digits _ _ _ digits, List.nil_append, if_true]
  | mysql =>
    rw [if_neg (by decide)]
    show feed .mysql .clear "?".toList = _
    decide
  | sqlite =>
    rw [if_neg (by decide)]
    show feed .sqlite .clear "?".toList = _
    decide

/-- A token that is neither a name nor the place of a value. -/
def Token.isFixed : Token → Bool
  | name _ | placeholder _ | value _ => false
  | _ => true

/-- A piece does not end inside quotes, and text that stands as it is holds neither names nor
placeholders. -/
def Plain (d : Dialect) : Piece → Prop
  | .raw s => (feed d .clear s.toList).2.isOpen = false ∧ (tokens d 0 (.raw s)).all Token.isFixed
  | _ => True

instance (d : Dialect) (s : String) : Decidable (Plain d (.raw s)) :=
  inferInstanceAs (Decidable (_ ∧ _))

/-- A token at hand ends where a piece begins. -/
def EndsBefore (d : Dialect) (p : Pending) (x : Piece) : Prop :=
  p = .clear ∨ ∀ n, ∃ c cs, text d n x = c :: cs ∧ p.extend? d c = none

/-- One piece does not run into another. -/
def Precedes (d : Dialect) (x y : Piece) : Prop := ∀ n, EndsBefore d (read d n x).2 y

/-- Pieces that can be read one by one. -/
structure Neat (d : Dialect) (ps : List Piece) : Prop where
  /-- Each of them is plain. -/
  plain : ∀ x ∈ ps, Plain d x
  /-- None runs into the next. -/
  apart : ps.IsChain (Precedes d)

theorem isOpen_read {d : Dialect} {x : Piece} (h : Plain d x) (n : Nat) :
    (read d n x).2.isOpen = false := by
  cases x with
  | raw s => exact h.1
  | name s => rw [read_name]; rfl
  | bound v =>
    rw [read_bound]
    split <;> rfl

theorem feed_text {d : Dialect} {p : Pending} {x : Piece} (h : EndsBefore d p x) (n : Nat) :
    feed d p (text d n x) = (p.flush ++ (read d n x).1, (read d n x).2) := by
  rcases h with rfl | h
  · rfl
  · obtain ⟨c, cs, ht, hc⟩ := h n
    rw [read, ht]
    exact feed_of_extend?_eq_none hc cs

/-- The tokens of pieces that can be read one by one are read from their text. -/
theorem feed_write (d : Dialect) (ps : List Piece) (h : Neat d ps) :
    ∀ (n : Nat) (p : Pending), p.isOpen = false → (∀ x ∈ ps.head?, EndsBefore d p x) →
      ∃ ended q, feed d p (Piece.write d n ps).toList = (ended, q) ∧ q.isOpen = false ∧
        ended ++ q.flush = p.flush ++ tokensFrom d n ps := by
  induction ps with
  | nil =>
    intro n p hp _
    refine ⟨[], p, ?_, hp, ?_⟩
    · simp [Piece.write, feed]
    · simp [tokensFrom]
  | cons x ps ih =>
    intro n p hp hx
    have hx := hx x rfl
    have plain := h.plain x List.mem_cons_self
    have rest : Neat d ps := ⟨fun y hy => h.plain y (List.mem_cons_of_mem _ hy), h.apart.tail⟩
    have next : ∀ y ∈ ps.head?, EndsBefore d (read d n x).2 y := by
      intro y hy
      cases ps with
      | nil => cases hy
      | cons z ps =>
        cases hy
        exact (List.isChain_cons_cons.mp h.apart).1 n
    obtain ⟨ended, q, hq, ho, ht⟩ := ih rest (n + count x) _ (isOpen_read plain n) next
    refine ⟨p.flush ++ (read d n x).1 ++ ended, q, ?_, ho, ?_⟩
    · rw [write_cons, feed_append, feed_text hx, hq]
    · rw [List.append_assoc, ht, tokensFrom, tokens]
      simp only [List.append_assoc]

theorem lex_write {d : Dialect} {ps : List Piece} (h : Neat d ps) (n : Nat) :
    lex d (Piece.write d n ps) = some (tokensFrom d n ps) := by
  obtain ⟨ended, q, hq, ho, ht⟩ := feed_write d ps h n .clear rfl fun x _ => .inl rfl
  change ended ++ q.flush = tokensFrom d n ps at ht
  simp only [lex, hq, ho, ht, Bool.false_eq_true, if_false]

/-! ### Putting pieces together -/

/-- Text that begins with a character that belongs to no token before it. -/
def startsApart (s : String) : Bool :=
  match s.toList with
  | [] => false
  | c :: _ => [' ', '(', ')', ',', '.'].contains c

/-- Text that leaves no token at hand. -/
def endsClear (d : Dialect) (s : String) : Bool := (feed d .clear s.toList).2 = .clear

theorem endsBefore_of_startsApart {d : Dialect} {p : Pending} {s : String} (hp : p.isOpen = false)
    (hs : startsApart s = true) : EndsBefore d p (.raw s) := by
  refine .inr fun n => ?_
  unfold startsApart at hs
  cases ht : s.toList with
  | nil => simp [ht] at hs
  | cons c cs =>
    refine ⟨c, cs, ht, ?_⟩
    simp only [ht, List.contains_eq_mem, List.mem_cons, List.not_mem_nil, or_false,
      decide_eq_true_eq] at hs
    cases p with
    | name | literal => cases hp
    | _ => rcases hs with rfl | rfl | rfl | rfl | rfl <;> cases d <;> rfl

theorem Neat.singleton {d : Dialect} {x : Piece} (h : Plain d x) : Neat d [x] :=
  ⟨by simpa using h, .singleton x⟩

theorem Neat.raw_cons {d : Dialect} {s : String} {ps : List Piece} (hs : Plain d (.raw s))
    (clear : endsClear d s = true) (h : Neat d ps) : Neat d (.raw s :: ps) := by
  refine ⟨?_, ?_⟩
  · rintro x (_ | ⟨_, hx⟩)
    · exact hs
    · exact h.plain x hx
  · cases ps with
    | nil => exact .singleton _
    | cons y ps =>
      exact List.isChain_cons_cons.mpr ⟨fun n => .inl (of_decide_eq_true clear), h.apart⟩

theorem Neat.append_raw {d : Dialect} {s : String} {xs ps : List Piece} (hx : Neat d xs)
    (apart : startsApart s = true) (h : Neat d (.raw s :: ps)) : Neat d (xs ++ .raw s :: ps) := by
  refine ⟨?_, ?_⟩
  · intro x hm
    rcases List.mem_append.mp hm with hm | hm
    · exact hx.plain x hm
    · exact h.plain x hm
  · refine List.isChain_append.mpr ⟨hx.apart, h.apart, ?_⟩
    intro x hm y hy
    cases hy
    have plain := hx.plain x (List.mem_of_getLast? hm)
    exact fun n => endsBefore_of_startsApart (isOpen_read plain n) apart

/-! ### Values -/

/-- The value that a placeholder stands for, when so many placeholders come before it. -/
def valueAt? (values : List Value) (n : Nat) : Option Nat → Option Value
  | some 0 => none
  | some (k + 1) => values[k]?
  | none => values[n]?

/-- Tokens with values in place of placeholders, when so many placeholders come before them. -/
def supply (values : List Value) : Nat → List Token → Option (List Token)
  | _, [] => some []
  | n, .placeholder number :: ts =>
    (valueAt? values n number).bind fun v => (supply values (n + 1) ts).map (.value v :: ·)
  | n, t :: ts => (supply values n ts).map (t :: ·)

/-- The tokens of a piece, with the value it binds. -/
def supplied (d : Dialect) : Piece → List Token
  | .raw s => tokens d 0 (.raw s)
  | .name s => [.name s]
  | .bound v => [.value v]

/-- The tokens of pieces, with the values they bind. -/
def suppliedAll (d : Dialect) (ps : List Piece) : List Token := ps.flatMap (supplied d)

/-- Tokens without placeholders stay as they are. -/
theorem supply_append (values : List Value) (n : Nat) (xs ys : List Token)
    (h : ∀ t ∈ xs, ∀ number, t ≠ .placeholder number) :
    supply values n (xs ++ ys) = (supply values n ys).map (xs ++ ·) := by
  induction xs with
  | nil => simp
  | cons t xs ih =>
    have ht := h t List.mem_cons_self
    have hxs := ih fun u hu => h u (List.mem_cons_of_mem _ hu)
    cases t with
    | placeholder number => exact absurd rfl (ht number)
    | _ =>
      simp only [List.cons_append, supply, hxs, Option.map_map]
      rfl

theorem tokens_name (d : Dialect) (n : Nat) (s : String) : tokens d n (.name s) = [.name s] := by
  rw [tokens, read_name]
  simp [Pending.flush]

theorem tokens_bound (d : Dialect) (n : Nat) (v : Value) :
    tokens d n (.bound v) = [.placeholder (if d = .postgres then some (n + 1) else none)] := by
  have number : Digits.toNat (Digits.ofNat (n + 1)) = n + 1 := Nat.ofDigitChars_ten_toDigits
  rw [tokens, read_bound]
  split
  · simp only [Pending.flush, List.nil_append, number]
  · rfl

/-- Each placeholder of a text stands for the value of its piece. -/
theorem supply_tokensFrom {d : Dialect} (after : List Value) (ps : List Piece)
    (h : ∀ x ∈ ps, Plain d x) : ∀ before : List Value,
      supply (before ++ Piece.values ps ++ after) before.length (tokensFrom d before.length ps) =
        some (suppliedAll d ps) := by
  induction ps with
  | nil => exact fun before => rfl
  | cons x ps ih =>
    intro before
    have plain := h x List.mem_cons_self
    have ih := ih fun y hy => h y (List.mem_cons_of_mem _ hy)
    cases x with
    | raw s =>
      have ih := ih before
      rw [tokensFrom, supply_append]
      · rw [count, Nat.add_zero, Piece.values, ih]
        rfl
      · rintro t ht number rfl
        exact Bool.false_ne_true (List.all_eq_true.mp plain.2 _ ht)
    | name s =>
      have ih := ih before
      rw [tokensFrom, supply_append]
      · rw [count, Nat.add_zero, Piece.values, ih]
        simp [suppliedAll, supplied, tokens_name]
      · rw [tokens_name]
        simp
    | bound v =>
      have ih := ih (before ++ [v])
      rw [List.length_append, List.length_singleton, List.append_assoc before,
        List.singleton_append] at ih
      have hv : valueAt? (before ++ v :: Piece.values ps ++ after) before.length
          (if d = .postgres then some (before.length + 1) else none) = some v := by
        split <;> simp [valueAt?]
      rw [tokensFrom, tokens_bound, List.singleton_append, supply, Piece.values, hv, count, ih]
      rfl

/-! ### Text between names and values -/

/-- Text that stands as it is reads as some tokens. -/
def Fixed (d : Dialect) (s : String) (ts : List Token) : Prop :=
  Plain d (.raw s) ∧ tokens d 0 (.raw s) = ts

instance (d : Dialect) (s : String) (ts : List Token) : Decidable (Fixed d s ts) :=
  inferInstanceAs (Decidable (_ ∧ _))

/-- Such text, when it does not run into what follows. -/
def Opens (d : Dialect) (s : String) (ts : List Token) : Prop := Fixed d s ts ∧ endsClear d s = true

instance (d : Dialect) (s : String) (ts : List Token) : Decidable (Opens d s ts) :=
  inferInstanceAs (Decidable (_ ∧ _))

/-- Such text, when nothing before runs into it. -/
def Closes (d : Dialect) (s : String) (ts : List Token) : Prop := Fixed d s ts ∧ startsApart s = true

instance (d : Dialect) (s : String) (ts : List Token) : Decidable (Closes d s ts) :=
  inferInstanceAs (Decidable (_ ∧ _))

/-- Such text, when it is kept apart on both sides. -/
def Separates (d : Dialect) (s : String) (ts : List Token) : Prop :=
  Opens d s ts ∧ startsApart s = true

instance (d : Dialect) (s : String) (ts : List Token) : Decidable (Separates d s ts) :=
  inferInstanceAs (Decidable (_ ∧ _))

/-- Pieces can be read one by one, and read as some tokens. -/
structure Spells (d : Dialect) (ps : List Piece) (ts : List Token) : Prop where
  /-- They can be read one by one. -/
  neat : Neat d ps
  /-- They read as the tokens. -/
  tokens : suppliedAll d ps = ts

namespace Spells

variable {d : Dialect} {s : String} {ps qs : List Piece} {ts us vs : List Token}

theorem name (s : String) : Spells d [.name s] [.name s] := ⟨.singleton trivial, rfl⟩

theorem bound (v : Value) : Spells d [.bound v] [.value v] := ⟨.singleton trivial, rfl⟩

theorem raw (fixed : Fixed d s us) : Spells d [.raw s] us := by
  refine ⟨.singleton fixed.1, ?_⟩
  rw [← fixed.2]
  exact List.append_nil _

/-- Text before pieces. -/
theorem opened (h : Spells d ps ts) (opens : Opens d s us) : Spells d (.raw s :: ps) (us ++ ts) := by
  obtain ⟨fixed, clear⟩ := opens
  refine ⟨h.neat.raw_cons fixed.1 clear, ?_⟩
  rw [← h.tokens, ← fixed.2]
  rfl

theorem append_raw (h : Spells d ps ts) (apart : startsApart s = true)
    (hs : Spells d (.raw s :: qs) us) : Spells d (ps ++ .raw s :: qs) (ts ++ us) := by
  refine ⟨h.neat.append_raw apart hs.neat, ?_⟩
  rw [← h.tokens, ← hs.tokens]
  exact List.flatMap_append

/-- Text after pieces. -/
theorem closed (h : Spells d ps ts) (closes : Closes d s us) :
    Spells d (ps ++ [.raw s]) (ts ++ us) :=
  h.append_raw closes.2 (.raw closes.1)

/-- Text between pieces. -/
theorem separated (h : Spells d ps ts) (separates : Separates d s us) (h' : Spells d qs vs) :
    Spells d (ps ++ .raw s :: qs) (ts ++ (us ++ vs)) :=
  h.append_raw separates.2 (h'.opened separates.1)

/-- A value, and text that its placeholder does not run into. -/
theorem bound_raw (v : Value) (apart : Precedes d (.bound v) (.raw s)) (fixed : Fixed d s us) :
    Spells d [.bound v, .raw s] (.value v :: us) := by
  refine ⟨⟨?_, .cons_cons apart (.singleton _)⟩, ?_⟩
  · rintro x (_ | ⟨_, _ | ⟨_, ⟨⟩⟩⟩)
    · trivial
    · exact fixed.1
  · rw [← fixed.2, ← List.append_nil (SqlText.tokens d 0 (.raw s))]
    rfl

end Spells

end SqlText

end SearchFilter
