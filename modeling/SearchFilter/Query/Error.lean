import SearchFilter.Number.Decimal

/-!
# Errors in a query's text
-/

namespace SearchFilter

/-- Why a query cannot be read. -/
inductive SyntaxError where
  /-- The text breaks off or goes on where it must not. -/
  | unreadable (expectation : String) (line column : Nat) (excerpt : String)
  /-- A symbol is no comparator. -/
  | invalidComparator (symbol : String)
  /-- A construct stands where it has no meaning. -/
  | misplaced (construct : String) (line column : Nat)
  deriving DecidableEq

namespace SyntaxError

/-- The decimal digits of a natural. -/
def number (n : Nat) : String := String.ofList (Digits.ofNat n)

/-- The error in one line. -/
def message : SyntaxError → String
  | unreadable expectation line column _ =>
    "Parse error at line " ++ number line ++ ", column " ++ number column ++ ": " ++ expectation
  | invalidComparator symbol => "Invalid comparator '" ++ symbol ++ "'"
  | misplaced construct line column =>
    "Unexpected rule " ++ construct ++ " at line " ++ number line ++ ", column " ++ number column

/-- The error with the line of text it is about, and a caret below the place. -/
def explanation : SyntaxError → String
  | unreadable expectation line column excerpt =>
    "Parse Error at line " ++ number line ++ ", column " ++ number column ++ ":\n" ++ excerpt ++ "\n" ++
      String.ofList (List.replicate (column - 1) ' ') ++ "^\n" ++ expectation
  | e => e.message

end SyntaxError

end SearchFilter
