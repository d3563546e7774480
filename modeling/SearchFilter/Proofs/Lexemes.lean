import SearchFilter.Query.Matcher

/-!
# Reading by lexemes

A second way to read a query, which does without the grammar. The text is a run of lexemes with blanks
between them: parentheses, the keywords `AND` and `OR`, and whole terms. A word that is followed by a
colon is the field of a term even if it spells a keyword.

`AND`, written or left out, binds tighter than `OR`. The lexemes are read one by one; what has been
read is a stack of open groups, each with its finished alternatives and the operands of the
alternative at hand. That the grammar gives the same trees is `Group.read_eq`; what is proved about
queries is proved of lexemes, since a lexeme says what can come next without a look at the constructs
around it.
-/

namespace SearchFilter

/-- A smallest part of a query's text. -/
inductive Lexeme where
  /-- An opening parenthesis. -/
  | opening
  /-- A closing parenthesis. -/
  | closing
  /-- A keyword. -/
  | keyword (connective : Connective)
  /-- A term, with its negation. -/
  | term (t : Term)
  deriving DecidableEq

namespace Lexeme

open Text

/-! ### Lexemes -/

/-- A name: a letter or underscore, then letters, digits and underscores. -/
def isName : List Char → Bool
  | [] => false
  | c :: cs => isNameStart c && cs.all isNameChar

/-- A character of a dotted path of names. -/
def isPathChar (c : Char) : Bool := isNameChar c || c = '.'

/-- A path of names up to a colon, and what follows the colon. -/
def field? (cs : List Char) : Option (FieldPath × List Char) :=
  match cs.dropWhile isPathChar with
  | ':' :: rest =>
    let parts := FieldPath.splitDots (cs.takeWhile isPathChar)
    if parts.all isName then some (⟨parts.map String.ofList⟩, rest) else none
  | _ => none

/-- The comparator at the front of a text, equality if there is none, and what follows it. -/
def comparator : List Char → Comparator × List Char
  | '<' :: '=' :: rest => (.le, rest)
  | '>' :: '=' :: rest => (.ge, rest)
  | '<' :: rest => (.lt, rest)
  | '>' :: rest => (.gt, rest)
  | rest => (.eq, rest)

/-- The characters of a quoted text up to the closing quote, a backslash taken away and the
character after it kept, and what follows the quote. -/
def quotedBody? : List Char → Option (List Char × List Char)
  | [] => none
  | '"' :: rest => some ([], rest)
  | ['\\'] => none
  | '\\' :: c :: rest => (quotedBody? rest).map fun (cs, rest) => (c :: cs, rest)
  | c :: rest => (quotedBody? rest).map fun (cs, rest) => (c :: cs, rest)

/-- A value, quoted or not, and what follows it. -/
def value? : List Char → Option (Literal × List Char)
  | '"' :: rest => (quotedBody? rest).map fun (cs, rest) => (.string (String.ofList cs), rest)
  | cs =>
    match cs.takeWhile isBareChar with
    | [] => none
    | word => some (Literal.ofBare word, cs.dropWhile isBareChar)

/-- An optional negation with the blanks after it. -/
def negation (cs : List Char) : Bool × List Char :=
  match negation? cs with
  | some rest => (true, skipSpaces rest)
  | none => (false, cs)

/-- A term that stands at a place, and what follows it. -/
def term? (p : Position) (cs : List Char) : Option (Term × List Char) := do
  let (negated, body) := negation cs
  let (field, body) ← field? body
  let (comparator, body) := comparator body
  let (value, rest) ← value? body
  pure (⟨field, comparator, value, negated,
    ⟨p.offset, (p.after (taken cs rest)).offset, p.line, p.column⟩⟩, rest)

/-- A lexeme that stands at a place, and what follows it. -/
def next? (p : Position) (cs : List Char) : Option (Lexeme × List Char) :=
  match cs with
  | '(' :: rest => some (opening, rest)
  | ')' :: rest => some (closing, rest)
  | cs =>
    match term? p cs with
    | some (t, rest) => some (term t, rest)
    | none =>
      match keyword? "and".toList cs with
      | some rest => some (keyword .and, rest)
      | none => (keyword? "or".toList cs).map fun rest => (keyword .or, rest)

/-! ### Every lexeme takes something -/

theorem length_dropWhile_le (p : Char → Bool) (cs : List Char) :
    (cs.dropWhile p).length ≤ cs.length :=
  (List.dropWhile_suffix p).length_le

theorem length_afterWord {word cs rest : List Char} (h : afterWord? word cs = some rest) :
    rest.length ≤ cs.length := by
  unfold afterWord? at h
  split at h
  · cases h; simp
  · cases h

theorem length_negation (cs : List Char) : (negation cs).2.length ≤ cs.length := by
  unfold negation
  split
  · rename_i rest h
    have hs : (skipSpaces rest).length ≤ rest.length := length_dropWhile_le _ _
    have hr : rest.length ≤ cs.length := by
      unfold negation? at h
      split at h
      · rename_i found
        cases h
        exact length_afterWord (Option.eq_some_of_filter_eq_some found)
      · split at h
        · cases h; simp
        · cases h
    exact Nat.le_trans hs hr
  · exact Nat.le_refl _

theorem length_field {cs rest : List Char} {field : FieldPath}
    (h : field? cs = some (field, rest)) : rest.length < cs.length := by
  unfold field? at h
  split at h
  · rename_i colon
    have hd := length_dropWhile_le isPathChar cs
    rw [colon] at hd
    simp only [List.length_cons] at hd
    dsimp only at h
    split at h <;> cases h
    omega
  · cases h

theorem length_comparator (cs : List Char) : (comparator cs).2.length ≤ cs.length := by
  unfold comparator
  split <;> simp <;> omega

theorem length_quotedBody {cs rest body : List Char} (h : quotedBody? cs = some (body, rest)) :
    rest.length < cs.length := by
  fun_induction quotedBody? cs generalizing body rest with
  | case1 => cases h
  | case2 => cases h; simp
  | case3 => cases h
  | case4 c tail ih =>
    simp only [Option.map_eq_some_iff] at h
    obtain ⟨⟨cs, r⟩, found, same⟩ := h
    cases same
    have := ih found
    simp only [List.length_cons]
    omega
  | case5 c tail _ _ _ ih =>
    simp only [Option.map_eq_some_iff] at h
    obtain ⟨⟨cs, r⟩, found, same⟩ := h
    cases same
    have := ih found
    simp only [List.length_cons]
    omega

theorem length_value {cs rest : List Char} {value : Literal}
    (h : value? cs = some (value, rest)) : rest.length ≤ cs.length := by
  unfold value? at h
  split at h
  · simp only [Option.map_eq_some_iff] at h
    obtain ⟨⟨body, r⟩, found, same⟩ := h
    cases same
    have := length_quotedBody found
    simp only [List.length_cons]
    omega
  · split at h
    · cases h
    · cases h
      exact length_dropWhile_le _ _

theorem length_term {p : Position} {cs rest : List Char} {t : Term}
    (h : term? p cs = some (t, rest)) : rest.length < cs.length := by
  simp only [term?, Option.bind_eq_bind, Option.bind_eq_some_iff, Option.pure_def,
    Option.some.injEq, Prod.mk.injEq] at h
  obtain ⟨⟨field, body⟩, hf, ⟨value, r⟩, hv, -, rfl⟩ := h
  have h1 := length_negation cs
  have h2 := length_field hf
  have h3 := length_comparator body
  have h4 := length_value hv
  simp only at *
  omega

theorem length_keyword {word cs rest : List Char} (hw : 0 < word.length)
    (h : keyword? word cs = some rest) : rest.length < cs.length := by
  simp only [keyword?, Option.bind_eq_some_iff] at h
  obtain ⟨r, hr, hk⟩ := h
  unfold afterWord? at hr
  split at hr
  · rename_i same
    cases hr
    have : rest = cs.drop word.length := by split at hk <;> simp_all
    subst this
    have hc : 0 < cs.length := by
      cases cs with
      | nil => simp [equalsIgnoringCase] at same; simp [same] at hw
      | cons c cs => simp
    rw [List.length_drop]
    omega
  · cases hr

theorem length_next {p : Position} {cs rest : List Char} {l : Lexeme}
    (h : next? p cs = some (l, rest)) : rest.length < cs.length := by
  unfold next? at h
  split at h
  · cases h; simp
  · cases h; simp
  · split at h
    · rename_i found
      cases h
      exact length_term found
    · split at h
      · rename_i found
        cases h
        exact length_keyword (by decide) found
      · simp only [Option.map_eq_some_iff, Prod.mk.injEq] at h
        obtain ⟨r, found, -, rfl⟩ := h
        exact length_keyword (by decide) found

/-! ### The whole text -/

/-- The lexemes of a text that starts at a place; none if some part of it is no lexeme. -/
def all? (p : Position) (cs : List Char) : Option (List Lexeme) :=
  let here := p.after (cs.takeWhile isSpace)
  match _hs : skipSpaces cs with
  | [] => some []
  | c :: tail =>
    match _hn : next? here (c :: tail) with
    | none => none
    | some (lexeme, rest) =>
      (all? (here.after (taken (c :: tail) rest)) rest).map (lexeme :: ·)
termination_by cs.length
decreasing_by
  have h1 := length_next _hn
  have h2 : (skipSpaces cs).length ≤ cs.length := length_dropWhile_le _ _
  rw [_hs] at h2
  omega

end Lexeme

/-! ### Groups -/

/-- A group that is being read. -/
structure Frame where
  /-- The alternatives before the last `OR`. -/
  alternatives : List Node
  /-- The operands after it. -/
  operands : List Node

namespace Frame

/-- A group of which nothing has been read. -/
def empty : Frame := ⟨[], []⟩

/-- One more operand. -/
def push (f : Frame) (node : Node) : Frame := { f with operands := f.operands ++ [node] }

/-- The operands so far as one alternative, and a new one begun. -/
def split (f : Frame) : Frame := ⟨f.alternatives ++ [Node.combine .and f.operands], []⟩

/-- The group that was read. -/
def close (f : Frame) : Node := Node.combine .or f.split.alternatives

end Frame

/-- What has been read of a query. -/
structure Progress where
  /-- The groups around the one at hand, the innermost first. -/
  outer : List Frame
  /-- The group at hand. -/
  current : Frame
  /-- An operand must come next. -/
  wanting : Bool

namespace Progress

/-- Nothing has been read. -/
def start : Progress := ⟨[], .empty, true⟩

/-- One more lexeme. A keyword or a closing parenthesis must follow an operand, and a closing
parenthesis must have a group to close. -/
def step (p : Progress) : Lexeme → Option Progress
  | .term t => some ⟨p.outer, p.current.push (.term t), false⟩
  | .opening => some ⟨p.current :: p.outer, .empty, true⟩
  | .closing =>
    match p.wanting, p.outer with
    | false, frame :: outer => some ⟨outer, frame.push p.current.close, false⟩
    | _, _ => none
  | .keyword .and => if p.wanting then none else some { p with wanting := true }
  | .keyword .or =>
    if p.wanting then none else some { p with current := p.current.split, wanting := true }

/-- The whole query, if no operand is wanting and no group open. -/
def finish? (p : Progress) : Option Group :=
  match p.wanting, p.outer with
  | false, [] => some (Group.ofNode p.current.close)
  | _, _ => none

end Progress

/-! ### Queries -/

/-- The query that lexemes make; none at all make the empty query. -/
def Group.ofLexemes? (ls : List Lexeme) : Option Group :=
  if ls.isEmpty then some .empty else (ls.foldlM Progress.step .start).bind Progress.finish?

/-- The query a text spells. -/
def Group.ofChars? (cs : List Char) : Option Group :=
  (Lexeme.all? .start cs).bind Group.ofLexemes?

end SearchFilter
