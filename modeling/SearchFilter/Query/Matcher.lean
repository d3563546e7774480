import SearchFilter.Query.Derivation
import SearchFilter.Text.Blank
import SearchFilter.Text.Casing

/-!
# The grammar of queries

A text is matched construct by construct. What was matched is kept as a derivation, from which the tree
of terms is built. Every construct that fails is noted at the place where it was tried: when a text is
no query, the error names the constructs that were tried in vain at the farthest place any was tried.

A construct replaces the attempts noted within it at its own place, unless there is just one, which
then says more than the construct itself.
-/

namespace SearchFilter

/-! ### Words -/

namespace Lexeme

open Text

/-- A character that may begin a name. -/
def isNameStart (c : Char) : Bool := c.isAlpha || c = '_'

/-- A character that may go on with a name. -/
def isNameChar (c : Char) : Bool := c.isAlphanum || c = '_'

/-- A text begins with a word in any letter case, and this follows. -/
def afterWord? (word cs : List Char) : Option (List Char) :=
  if equalsIgnoringCase (cs.take word.length) word then some (cs.drop word.length) else none

/-- The next character is one of a kind. -/
def startsWith (kind : Char → Bool) : List Char → Bool
  | [] => false
  | c :: _ => kind c

/-- A keyword that no name goes on with, and what follows it. -/
def keyword? (word cs : List Char) : Option (List Char) :=
  (afterWord? word cs).bind fun rest => if startsWith isNameChar rest then none else some rest

/-- What follows a negation: a hyphen, or the word `not` before a blank. -/
def negation? (cs : List Char) : Option (List Char) :=
  match (afterWord? "not".toList cs).filter (startsWith isSpace) with
  | some rest => some rest
  | none =>
    match cs with
    | '-' :: rest => some rest
    | _ => none

/-- A character of an unquoted value. -/
def isBareChar (c : Char) : Bool := !(isSpace c || c = '(' || c = ')' || c = '"')

/-- What a text holds before a rest of it. -/
def taken (cs rest : List Char) : List Char := cs.take (cs.length - rest.length)

end Lexeme

/-! ### Attempts -/

/-- The constructs that failed at the farthest place so far. -/
structure Attempts where
  /-- Characters before the place. -/
  place : Nat
  /-- The constructs, in the order they failed. -/
  failed : List Construct

namespace Attempts

/-- How many constructs failed at a place, as far as is known. -/
def countAt (a : Attempts) (place : Nat) : Nat := if a.place = place then a.failed.length else 0

/-- A construct failed at a place, where `before` constructs had failed when it was begun. -/
def note (a : Attempts) (construct : Construct) (place before : Nat) : Attempts :=
  if a.countAt place = before + 1 then a
  else if place = a.place then ⟨place, a.failed.take before ++ [construct]⟩
  else if a.place < place then ⟨place, [construct]⟩
  else a

end Attempts

/-! ### Matching -/

/-- A place in a text that is being matched. -/
structure Cursor where
  /-- Characters before the place. -/
  place : Nat
  /-- The place in bytes, and by line and character. -/
  position : Position
  /-- The characters after it. -/
  rest : List Char

namespace Cursor

/-- The beginning of a text. -/
def start (cs : List Char) : Cursor := ⟨0, .start, cs⟩

/-- The place where only a given rest is left. -/
def leaving (c : Cursor) (rest : List Char) : Cursor :=
  ⟨c.place + (c.rest.length - rest.length), c.position.after (Lexeme.taken c.rest rest), rest⟩

end Cursor

/-- A way to go on from a place, and the constructs that are matched on the way; the attempts are kept
also if it fails. -/
abbrev Matcher := Cursor → Attempts → Option (Cursor × List Derivation) × Attempts

namespace Matcher

open Text

/-- A step that fails without being noted. -/
def step (next? : List Char → Option (List Char)) : Matcher := fun c a =>
  match next? c.rest with
  | some rest => (some (c.leaving rest, []), a)
  | none => (none, a)

/-- One after the other. -/
def andThen (m n : Matcher) : Matcher := fun c a =>
  match m c a with
  | (some (d, first), a) =>
    match n d a with
    | (some (e, second), a) => (some (e, first ++ second), a)
    | (none, a) => (none, a)
  | (none, a) => (none, a)

/-- The one, or else the other. -/
def orElse (m n : Matcher) : Matcher := fun c a =>
  match m c a with
  | (some found, a) => (some found, a)
  | (none, a) => n c a

/-- The one if it can. -/
def optional (m : Matcher) : Matcher := fun c a =>
  match m c a with
  | (some found, a) => (some found, a)
  | (none, a) => (some (c, []), a)

/-- Again and again while it can, at most so often. -/
def repeated (m : Matcher) : Nat → Matcher
  | 0 => fun c a => (some (c, []), a)
  | fuel + 1 => optional (andThen m (repeated m fuel))

/-- A construct: its failure is noted at the place where it was begun. -/
def construct (name : Construct) (m : Matcher) : Matcher := fun c a =>
  let before := a.countAt c.place
  match m c a with
  | (some (d, parts), a) => (some (d, [⟨name, c.position, Lexeme.taken c.rest d.rest, parts⟩]), a)
  | (none, a) => (none, a.note name c.place before)

/-! ### The grammar -/

/-- Any blanks. -/
def spaces : Matcher := step fun cs => some (skipSpaces cs)

/-- One given character. -/
def char (c : Char) : Matcher := step fun
  | d :: rest => if d = c then some rest else none
  | [] => none

/-- Nothing is left. -/
def ending : Matcher := construct .ending (step fun cs => if cs.isEmpty then some cs else none)

/-- What follows the names and dots of a path; a dot must be followed by a name. -/
def afterPath : List Char → List Char
  | [] => []
  | c :: cs =>
    if Lexeme.isNameChar c then afterPath cs
    else if c = '.' && Lexeme.startsWith Lexeme.isNameStart cs then afterPath cs
    else c :: cs

/-- A path of names. -/
def field : Matcher := construct .field (step fun cs =>
  if Lexeme.startsWith Lexeme.isNameStart cs then some (afterPath cs) else none)

/-- What follows the symbol of a comparator other than equality. -/
def afterComparator? : List Char → Option (List Char)
  | '<' :: '=' :: rest => some rest
  | '>' :: '=' :: rest => some rest
  | '<' :: rest => some rest
  | '>' :: rest => some rest
  | _ => none

/-- A comparator other than equality. -/
def comparator : Matcher := construct .comparator (step afterComparator?)

/-- What follows the characters of a quoted text, the closing quote or the end. -/
def afterQuoted : List Char → List Char
  | [] => []
  | '"' :: rest => '"' :: rest
  | ['\\'] => ['\\']
  | '\\' :: _ :: rest => afterQuoted rest
  | _ :: rest => afterQuoted rest

/-- A quoted text. -/
def quoted : Matcher := construct .quoted
  (andThen (char '"') (andThen (construct .inner (step (some <| afterQuoted ·))) (char '"')))

/-- An unquoted word. -/
def bare : Matcher := construct .bare (step fun cs =>
  if Lexeme.startsWith Lexeme.isBareChar cs then some (cs.dropWhile Lexeme.isBareChar) else none)

/-- A term. -/
def term : Matcher := construct .term
  (andThen (optional (andThen (construct .negation (step Lexeme.negation?)) spaces))
    (andThen field (andThen (char ':') (andThen (optional comparator) (orElse quoted bare)))))

/-- A first part, then any number of further ones, with blanks before each. -/
def sequence (fuel : Nat) (first further : Matcher) : Matcher :=
  andThen first (andThen spaces
    (optional (andThen further (repeated (andThen spaces further) fuel))))

/-- The keyword of a connective. -/
def keyword : Connective → Matcher
  | .and => construct .andKeyword (step (Lexeme.keyword? "and".toList))
  | .or => construct .orKeyword (step (Lexeme.keyword? "or".toList))

/-- Operands with or without `AND` between them. -/
def operands (fuel : Nat) (operand : Matcher) : Matcher := construct .operands
  (sequence fuel operand (orElse (andThen (keyword .and) (andThen spaces operand)) operand))

/-- Alternatives with `OR` between them. -/
def alternatives (fuel : Nat) (operand : Matcher) : Matcher := construct .alternatives
  (sequence fuel (operands fuel operand)
    (andThen (keyword .or) (andThen spaces (operands fuel operand))))

/-- Something in parentheses. -/
def group (inside : Matcher) : Matcher := construct .group
  (andThen (char '(') (andThen spaces (andThen inside (andThen spaces (char ')')))))

/-- An operand: alternatives in parentheses, nested at most so deep, or a term. -/
def operand (fuel : Nat) : Nat → Matcher
  | 0 => term
  | depth + 1 => orElse (group (alternatives fuel (operand fuel depth))) term

/-- A whole query of at most so many characters. Parentheses may be nested as deep as there are
characters, and one more may be looked for. -/
def query (size : Nat) : Matcher := construct .query
  (andThen spaces (andThen (optional (alternatives size (operand size (size + 1))))
    (andThen spaces ending)))

end Matcher

end SearchFilter
