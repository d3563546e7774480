/-!
# Connectives

The two operators that combine conditions, in queries and in SQL alike.
-/

namespace SearchFilter

/-- How conditions are combined. -/
inductive Connective where
  /-- All of them hold. -/
  | and
  /-- One of them holds. -/
  | or
  deriving DecidableEq

/-- The keyword of a connective. -/
def Connective.keyword : Connective → String
  | .and => "AND"
  | .or => "OR"

/-- The connective of a keyword in capitals. -/
def Connective.ofKeyword? (s : String) : Option Connective :=
  if s = "AND" then some .and else if s = "OR" then some .or else none

end SearchFilter
