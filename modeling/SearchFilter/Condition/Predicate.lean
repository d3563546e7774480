import SearchFilter.Query.Term
import SearchFilter.Schema.Entity
import SearchFilter.Sql.Expr

/-!
# The condition of a term

Which comparison a term stands for depends on what its column holds: a text is searched for the
value, an array for an element equal to it, a JSON array for its JSON form; anything else is
compared with it. The value is always bound under a key, never written into the SQL text.
-/

namespace SearchFilter

/-- The key of the `n`-th bound value. -/
def parameterKey (n : Nat) : String := String.ofList ('p' :: Digits.ofNat n)

/-- The SQL comparison of a comparator. -/
def Comparator.operator : Comparator → Operator
  | .eq => .eq
  | .lt => .lt
  | .gt => .gt
  | .le => .le
  | .ge => .ge

/-- The pattern of all texts that hold a value's text. -/
def containsPattern (v : Value) : Value := .string ("%" ++ v.text?.getD "" ++ "%")

/-- A call of the SQL function that lowers letters. -/
def lowered (e : Expr) : Expr := .call "LOWER" [e]

/-- The comparison of a column with a value that is bound under a key. -/
def comparison (target : Expr) (category : Category) (comparator : Comparator) (key : String)
    (v : Value) : Expr :=
  match category, comparator with
  | .scalar .text, .eq => .like (lowered target) (lowered (.param ⟨key, containsPattern v⟩))
  | .array _, .eq => .arrayContains target (.param ⟨key, v⟩)
  | .jsonArray, .eq => .jsonContains target (.param ⟨key, .string v.toJson.compact⟩)
  | _, comparator => .compare target comparator.operator (.param ⟨key, v⟩)

/-- The condition of a term on a column, when so many keys have been given out. A term without a
value tests whether the column has one, and binds nothing. -/
def Term.predicate (t : Term) (tableAlias column : String) (category : Category) (issued : Nat) :
    Expr :=
  let target := Expr.columnOf tableAlias column
  if t.value.isNull then .isNull target t.negated
  else
    let key := parameterKey (issued + 1)
    let e := comparison target category t.comparator key (.ofLiteral t.value)
    if t.negated then .not e else e

/-- How many keys the condition of a term takes. -/
def Term.keyCount (t : Term) : Nat := if t.value.isNull then 0 else 1

end SearchFilter
