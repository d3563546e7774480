import SearchFilter.Connective
import SearchFilter.Sql.Value

/-!
# SQL expressions
-/

namespace SearchFilter

/-- A comparison of two expressions. -/
inductive Operator where
  /-- Equal. -/
  | eq
  /-- Different. -/
  | ne
  /-- Less. -/
  | lt
  /-- Less or equal. -/
  | le
  /-- Greater. -/
  | gt
  /-- Greater or equal. -/
  | ge
  deriving DecidableEq

/-- The SQL symbol of a comparison. -/
def Operator.symbol : Operator → String
  | .eq => "="
  | .ne => "<>"
  | .lt => "<"
  | .le => "<="
  | .gt => ">"
  | .ge => ">="

/-- A value bound under a key. -/
structure Binding where
  /-- The key. -/
  key : String
  /-- The value. -/
  value : Value
  deriving DecidableEq

mutual

/-- An SQL expression. -/
inductive Expr where
  /-- A column or table, after its qualifier. -/
  | ident (qualifier : Option String) (name : String)
  /-- Every column, of one table if qualified. -/
  | wildcard (qualifier : Option String)
  /-- A value bound by its place alone. -/
  | value (v : Value)
  /-- A value bound under a key. -/
  | param (binding : Binding)
  /-- A comparison. -/
  | compare (left : Expr) (op : Operator) (right : Expr)
  /-- A function call. -/
  | call (name : String) (args : List Expr)
  /-- A text matched by a pattern. -/
  | like (subject pattern : Expr)
  /-- A test for a missing value, or for a present one if negated. -/
  | isNull (subject : Expr) (negated : Bool)
  /-- A negation. -/
  | not (e : Expr)
  /-- An element of an array column. -/
  | arrayContains (array element : Expr)
  /-- A JSON value in a JSON array column. -/
  | jsonContains (target candidate : Expr)
  /-- Conditions combined from left to right; the connective of the first one counts for nothing. -/
  | chain (links : List Link)

/-- A condition and how it is attached to those before it. -/
structure Link where
  /-- How it is attached. -/
  connective : Connective
  /-- The condition. -/
  expr : Expr

end

namespace Expr

/-- A column of a table. -/
def columnOf (table column : String) : Expr := ident (some table) column

/-! ### Vacuous chains -/

mutual

/-- A chain without conditions, at any depth. -/
def isVacuous : Expr → Bool
  | chain links => areVacuous links
  | _ => false

/-- No link holds a condition. -/
def areVacuous : List Link → Bool
  | [] => true
  | ⟨_, e⟩ :: links => e.isVacuous && areVacuous links

end

/-- The links that hold a condition. -/
def surviving (links : List Link) : List Link := links.filter fun link => !link.expr.isVacuous

/-- A chain of more than one condition. -/
def isCompound : Expr → Bool
  | chain links => 1 < (surviving links).length
  | _ => false

/-! ### Bindings -/

mutual

/-- The keyed values, in the order of their places in the SQL text. The element of an array test
comes before the array. -/
def bindings : Expr → List Binding
  | param binding => [binding]
  | compare left _ right => left.bindings ++ right.bindings
  | call _ args => argBindings args
  | like subject pattern => subject.bindings ++ pattern.bindings
  | isNull subject _ => subject.bindings
  | not e => e.bindings
  | arrayContains array element => element.bindings ++ array.bindings
  | jsonContains target candidate => target.bindings ++ candidate.bindings
  | chain links => linkBindings links
  | ident _ _ => []
  | wildcard _ => []
  | value _ => []

/-- The keyed values of arguments. -/
def argBindings : List Expr → List Binding
  | [] => []
  | arg :: args => arg.bindings ++ argBindings args

/-- The keyed values of links. -/
def linkBindings : List Link → List Binding
  | [] => []
  | ⟨_, e⟩ :: links => e.bindings ++ linkBindings links

end

end Expr

end SearchFilter
