import SearchFilter.Number.Decimal

/-!
# YAML scalars

Where a reader stands in a YAML text, and the five ways to spell a scalar: plain, between single or
double quotes, and as a literal or folded block.
-/

namespace SearchFilter.Yaml

/-! ### The text -/

/-- The rest of a text, and where it stands. -/
structure Input where
  /-- What is left. -/
  rest : List Char
  /-- Octets before it. -/
  index : Nat
  /-- Lines before its line. -/
  line : Nat
  /-- Characters before it on its line. -/
  column : Nat

/-- A character that a YAML text may hold. -/
def isAllowed (c : Char) : Bool :=
  let n := c.toNat
  n = 0x09 || n = 0x0a || n = 0x0d || (0x20 ≤ n && n ≤ 0x7e) || n = 0x85 ||
    (0xa0 ≤ n && n ≤ 0xd7ff) || (0xe000 ≤ n && n ≤ 0xfffd) || 0x10000 ≤ n

/-- A blank inside a line. -/
def isBlank (c : Char) : Bool := c = ' ' || c = '\t'

/-- A character that ends a line. -/
def isBreak (c : Char) : Bool :=
  c = '\n' || c = '\r' || c = '\u0085' || c = '\u2028' || c = '\u2029'

/-- A text that is at its end, or goes on with a blank or a new line. -/
def endsWord : List Char → Bool
  | [] => true
  | c :: _ => isBlank c || isBreak c

/-- A text that is at its end, or goes on with a new line. -/
def endsLine : List Char → Bool
  | [] => true
  | c :: _ => isBreak c

/-- A character of names. -/
def isNameChar (c : Char) : Bool := c.isAlphanum || c = '_' || c = '-'

namespace Input

/-- The text from its beginning. -/
def ofChars (cs : List Char) : Input := ⟨cs, 0, 0, 0⟩

/-- How many octets some characters take. -/
def octets : List Char → Nat
  | [] => 0
  | c :: cs => c.utf8Size + octets cs

/-- So many characters of the line passed over. -/
def skip (i : Input) (n : Nat) : Input :=
  ⟨i.rest.drop n, i.index + octets (i.rest.take n), i.line, i.column + n⟩

/-- The characters of a kind at the front, and the input after them; all are on one line. -/
def takeWhile (i : Input) (kind : Char → Bool) : List Char × Input :=
  let found := i.rest.takeWhile kind
  (found, i.skip found.length)

/-- The input after the characters of a kind at the front. -/
def skipWhile (i : Input) (kind : Char → Bool) : Input := (i.takeWhile kind).2

/-- The line end at the front as it counts in a scalar, and the next line. -/
def takeBreak (i : Input) : List Char × Input :=
  match i.rest with
  | '\r' :: '\n' :: rest => (['\n'], ⟨rest, i.index + 2, i.line + 1, 0⟩)
  | c :: rest =>
    if isBreak c then
      ([if c = '\u2028' ∨ c = '\u2029' then c else '\n'],
        ⟨rest, i.index + c.utf8Size, i.line + 1, 0⟩)
    else ([], i)
  | [] => ([], i)

/-- The input starts with some text and a word ends there, at the start of a line. -/
def marksDocument (i : Input) (mark : List Char) : Bool :=
  i.column = 0 && mark.isPrefixOf i.rest && endsWord (i.rest.drop mark.length)

/-- A document begins or ends here. -/
def atDocumentMark (i : Input) : Bool :=
  i.marksDocument "---".toList || i.marksDocument "...".toList

end Input

/-! ### Blanks between words and lines -/

/-- Blanks and line ends that were passed over inside a scalar. -/
structure Gap where
  /-- A line end was among them. -/
  broken : Bool
  /-- The first line end. -/
  first : List Char
  /-- The line ends after it. -/
  more : List Char
  /-- The blanks, if there was no line end. -/
  blanks : List Char

namespace Gap

/-- Nothing was passed over. -/
def none : Gap := ⟨false, [], [], []⟩

/-- A line end was passed over that does not count. -/
def escapedBreak : Gap := ⟨true, [], [], []⟩

/-- What stands for them in the scalar: blanks as they are, one line end as a blank, of more line
ends all but the first. -/
def folded (g : Gap) : List Char :=
  if g.broken then
    if g.first = ['\n'] then (if g.more = [] then [' '] else g.more) else g.first ++ g.more
  else g.blanks

/-- Blanks and line ends passed over; a tab that takes the place of indentation is refused. -/
def take? (indent : Nat) : Nat → Input → Gap → Option (Input × Gap)
  | 0, _, _ => Option.none
  | fuel + 1, i, g =>
    match i.rest with
    | [] => some (i, g)
    | c :: _ =>
      if isBlank c then
        if g.broken then
          if c = '\t' && i.column < indent then Option.none else take? indent fuel (i.skip 1) g
        else take? indent fuel (i.skip 1) { g with blanks := g.blanks ++ [c] }
      else if isBreak c then
        let (found, i) := i.takeBreak
        take? indent fuel i
          (if g.broken then { g with more := g.more ++ found } else ⟨true, found, [], []⟩)
      else some (i, g)

end Gap

/-! ### Quoted scalars -/

/-- The character of a one-letter escape. -/
def shortEscape? : Char → Option Char
  | '0' => some '\x00'
  | 'a' => some '\x07'
  | 'b' => some '\x08'
  | 't' => some '\t'
  | '\t' => some '\t'
  | 'n' => some '\n'
  | 'v' => some '\x0b'
  | 'f' => some '\x0c'
  | 'r' => some '\r'
  | 'e' => some '\x1b'
  | ' ' => some ' '
  | '"' => some '"'
  | '/' => some '/'
  | '\\' => some '\\'
  | 'N' => some '\u0085'
  | '_' => some '\u00a0'
  | 'L' => some '\u2028'
  | 'P' => some '\u2029'
  | _ => none

/-- How many hexadecimal digits follow the letter of an escape. -/
def escapeLength? : Char → Option Nat
  | 'x' => some 2
  | 'u' => some 4
  | 'U' => some 8
  | _ => none

/-- The character of an escape after its backslash, and how many characters it takes. -/
def escape? : List Char → Option (Char × Nat)
  | [] => none
  | c :: rest =>
    match shortEscape? c with
    | some e => some (e, 1)
    | none => do
      let length ← escapeLength? c
      let ds := rest.take length
      let n ← Digits.hexToNat? ds
      if ds.length = length ∧ Nat.isValidChar n then some (Char.ofNat n, length + 1) else none

/-- A scalar between quotes, after the opening one, and the input after the closing one. In single
quotes a quote is doubled; in double quotes a backslash escapes. -/
def quoted? (single : Bool) : Nat → Input → List Char → Option (List Char × Input)
  | 0, _, _ => none
  | fuel + 1, i, done =>
    if i.atDocumentMark then none
    else
      match i.rest with
      | [] => none
      | c :: rest =>
        if isBlank c || isBreak c then do
          let (i, gap) ← Gap.take? 0 (i.rest.length + 1) i .none
          quoted? single fuel i (done ++ gap.folded)
        else if single && c = '\'' then
          match rest with
          | '\'' :: _ => quoted? single fuel (i.skip 2) (done ++ ['\''])
          | _ => some (done, i.skip 1)
        else if !single && c = '"' then some (done, i.skip 1)
        else if !single && c = '\\' then
          if !rest.isEmpty && endsLine rest then do
            let (i, gap) ← Gap.take? 0 (i.rest.length + 1) ((i.skip 1).takeBreak).2 .escapedBreak
            quoted? single fuel i (done ++ gap.folded)
          else do
            let (e, length) ← escape? rest
            quoted? single fuel (i.skip (length + 1)) (done ++ [e])
        else quoted? single fuel (i.skip 1) (done ++ [c])

/-! ### Plain scalars -/

/-- A character that ends a plain scalar inside brackets. -/
def isFlowEnd (c : Char) : Bool := c = ',' || c = '[' || c = ']' || c = '\x7b' || c = '\x7d'

/-- A plain scalar: its text, the input after the blanks that follow it, and whether a line end is
among those blanks. -/
def plain? (flow : Bool) (indent : Nat) : Nat → Input → List Char → Gap →
    Option (List Char × Input × Bool)
  | 0, _, _, _ => none
  | fuel + 1, i, done, gap =>
    let stop := some (done, i, gap.broken)
    match i.rest with
    | [] => stop
    | c :: rest =>
      let fresh := done.isEmpty || gap.broken || !gap.blanks.isEmpty
      if fresh && (i.atDocumentMark || c = '#') then stop
      else if isBlank c || isBreak c then do
        let (i, gap) ← Gap.take? indent (i.rest.length + 1) i .none
        if !flow && i.column < indent then some (done, i, gap.broken)
        else plain? flow indent fuel i done gap
      else if flow && c = ':' &&
          (match rest with
            | d :: _ => isFlowEnd d || d = '?'
            | [] => false) then none
      else if (c = ':' && endsWord rest) || (flow && isFlowEnd c) then stop
      else plain? flow indent fuel (i.skip 1) (done ++ gap.folded ++ [c]) .none

/-! ### Block scalars -/

/-- What is kept of the line ends at the end of a block. -/
inductive Chomping where
  /-- None. -/
  | strip
  /-- One. -/
  | clip
  /-- All. -/
  | keep
  deriving DecidableEq

/-- The chomping of a sign. -/
def chomping? : Char → Option Chomping
  | '+' => some .keep
  | '-' => some .strip
  | _ => none

/-- The indentation of a digit; zero is refused. -/
def increment? (c : Char) : Option Nat :=
  if c.isDigit && c ≠ '0' then some (Digits.value c) else none

/-- The signs after the mark of a block: chomping, indentation if given, and how many characters. -/
def blockHeader? : List Char → Option (Chomping × Option Nat × Nat)
  | [] => some (.clip, none, 0)
  | c :: rest =>
    match chomping? c with
    | some chomping =>
      match rest with
      | d :: _ => if d.isDigit then (increment? d).map fun n => (chomping, some n, 2)
        else some (chomping, none, 1)
      | [] => some (chomping, none, 1)
    | none =>
      if c.isDigit then do
        let n ← increment? c
        match rest.head?.bind chomping? with
        | some chomping => some (chomping, some n, 2)
        | none => some (.clip, some n, 1)
      else some (.clip, none, 0)

/-- The empty lines at the front of a block: their line ends, the input after the indentation of the
next line, and the deepest indentation met. Blanks are taken up to the indentation, all if it is not
known. -/
def emptyLines? (indent : Option Nat) : Nat → Input → List Char → Nat →
    Option (List Char × Input × Nat)
  | 0, _, _, _ => none
  | fuel + 1, i, breaks, deepest =>
    let spaces := i.rest.takeWhile (· = ' ')
    let wanted := match indent with
      | some n => min spaces.length (n - i.column)
      | none => spaces.length
    let i := i.skip wanted
    let deepest := max deepest i.column
    let short : Bool := match indent with
      | some n => decide (i.column < n)
      | none => true
    match i.rest with
    | '\t' :: _ => if short then none else some (breaks, i, deepest)
    | c :: _ =>
      if isBreak c then
        let (found, i) := i.takeBreak
        emptyLines? indent fuel i (breaks ++ found) deepest
      else some (breaks, i, deepest)
    | [] => some (breaks, i, deepest)

/-- The lines of a block: the text so far, the last line end, and the empty lines after it. -/
def blockLines? (literal : Bool) (indent : Nat) : Nat → Input → List Char → List Char → List Char →
    Bool → Option (List Char × List Char × List Char × Input)
  | 0, _, _, _, _, _ => none
  | fuel + 1, i, done, lastBreak, breaks, indented =>
    if i.column ≠ indent || i.rest.isEmpty then some (done, lastBreak, breaks, i)
    else
      let blank := match i.rest with
        | c :: _ => isBlank c
        | [] => false
      let joint :=
        if !literal && lastBreak = ['\n'] && !indented && !blank then
          if breaks.isEmpty then [' '] else []
        else lastBreak
      let (line, i) := i.takeWhile (!isBreak ·)
      let (lastBreak, i) := i.takeBreak
      match emptyLines? (some indent) (i.rest.length + 1) i [] 0 with
      | none => none
      | some (newBreaks, i, _) =>
        let done := done ++ joint ++ breaks ++ line
        blockLines? literal indent fuel i done lastBreak newBreaks blank

/-- A block scalar after its mark, in a collection of some indentation, and the input after it. -/
def block? (literal : Bool) (parent : Int) (i : Input) : Option (List Char × Input) := do
  let (chomping, increment, length) ← blockHeader? i.rest
  let i := (i.skip length).skipWhile isBlank
  let i := match i.rest with
    | '#' :: _ => i.skipWhile (!isBreak ·)
    | _ => i
  if !endsLine i.rest then none
  else
    let i := i.takeBreak.2
    let given := increment.map fun n => (max parent 0).toNat + n
    let (breaks, i, deepest) ← emptyLines? given (i.rest.length + 1) i [] 0
    let indent := given.getD (max deepest (max (parent + 1).toNat 1))
    let (done, lastBreak, breaks, i) ←
      blockLines? literal indent (i.rest.length + 1) i [] [] breaks false
    match chomping with
    | .strip => some (done, i)
    | .clip => some (done ++ lastBreak, i)
    | .keep => some (done ++ lastBreak ++ breaks, i)

end SearchFilter.Yaml
