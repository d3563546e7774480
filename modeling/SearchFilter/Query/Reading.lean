import SearchFilter.Query.Matcher

/-!
# Reading a query

A text that the grammar matches is the query built from its derivation. For any other text the error
says what could have come at the farthest place the matching got to, and shows the line around it.
-/

namespace SearchFilter

/-! ### The report -/

/-- Names as a list: `a`, `a or b`, `a, b, or c`. -/
def enumerate : List String → String
  | [] => ""
  | [a] => a
  | [a, b] => a ++ " or " ++ b
  | a :: b :: c :: rest => String.intercalate ", " ((a :: b :: c :: rest).dropLast) ++ ", or " ++
      (c :: rest).getLast (by simp)

/-- The line of a text around a place. A line end is shown by a symbol if it stands at the place, and
left out otherwise. -/
def excerpt (cs : List Char) (place : Nat) : List Char :=
  let before := ((cs.take place).reverse.takeWhile (· ≠ '\n')).reverse
  let rest := cs.drop place
  let line := before ++ rest.takeWhile (· ≠ '\n') ++ (rest.dropWhile (· ≠ '\n')).take 1
  if Lexeme.startsWith (fun c => c = '\r' || c = '\n') rest then
    line.map fun c => if c = '\r' then '␍' else if c = '\n' then '␊' else c
  else line.filter fun c => !(c = '\r' || c = '\n')

/-- Why a text is no query, from the constructs that failed at the farthest place. -/
def SyntaxError.ofAttempts (cs : List Char) (attempts : Attempts) : SyntaxError :=
  let names := (Construct.all.filter (· ∈ attempts.failed)).map Construct.name
  let position := Position.start.after (cs.take attempts.place)
  .unreadable ("parsing error: expected " ++ enumerate names) position.line position.column
    (String.ofList (excerpt cs attempts.place))

/-! ### Reading -/

/-- The query a text spells, or why it spells none. -/
-- irreducible, since unfolding it at a text that is not known would match the grammar as far as it goes
@[irreducible] def Group.read (text : String) : Except SyntaxError Group :=
  let cs := text.toList
  match Matcher.query cs.length (.start cs) ⟨0, []⟩ with
  | (some (_, derivations), _) => Group.ofDerivations derivations
  | (none, attempts) => .error (.ofAttempts cs attempts)

end SearchFilter
