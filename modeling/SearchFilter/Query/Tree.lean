import SearchFilter.Connective
import SearchFilter.Query.Term

/-!
# Trees of terms

A query is a group: terms and further groups combined by one connective.
-/

namespace SearchFilter

/-- A part of a query. -/
inductive Node where
  /-- A single term. -/
  | term (t : Term)
  /-- Parts combined by a connective, in source order. -/
  | group (connective : Connective) (children : List Node)

/-- A whole query: parts combined by a connective, in source order. -/
structure Group where
  /-- How the parts are combined. -/
  connective : Connective
  /-- The parts. -/
  children : List Node

/-! ### Counting terms -/

mutual

/-- How many terms a part holds. -/
def Node.termCount : Node → Nat
  | .term _ => 1
  | .group _ children => Node.termCounts children

/-- How many terms some parts hold. -/
def Node.termCounts : List Node → Nat
  | [] => 0
  | node :: nodes => node.termCount + Node.termCounts nodes

end

/-- How many terms a query holds, at any depth. -/
def Group.termCount (g : Group) : Nat := Node.termCounts g.children

mutual

/-- The terms of a part, in source order. -/
def Node.terms : Node → List Term
  | .term t => [t]
  | .group _ children => Node.allTerms children

/-- The terms of some parts, in source order. -/
def Node.allTerms : List Node → List Term
  | [] => []
  | node :: nodes => node.terms ++ Node.allTerms nodes

end

/-- The terms of a query, in source order. -/
def Group.terms (g : Group) : List Term := Node.allTerms g.children

/-! ### Building -/

/-- The query without terms. -/
def Group.empty : Group := ⟨.and, []⟩

/-- The query has no parts. -/
def Group.isEmpty (g : Group) : Bool := g.children.isEmpty

/-- Parts combined by a connective; a lone part stands for itself. -/
def Node.combine (connective : Connective) : List Node → Node
  | [node] => node
  | nodes => .group connective nodes

/-- A part as a whole query; a lone term is wrapped. -/
def Group.ofNode : Node → Group
  | .term t => ⟨.and, [.term t]⟩
  | .group connective children => ⟨connective, children⟩

/-! ### Showing -/

mutual

/-- A part as it is shown inside a group: a nested group stands in parentheses. -/
def Node.chars : Node → List Char
  | .term t => t.chars
  | .group connective children => '(' :: Node.joined connective children ++ [')']

/-- Parts with the connective between them. -/
def Node.joined (connective : Connective) : List Node → List Char
  | [] => []
  | node :: nodes => node.chars ++ Node.joinedRest connective nodes

/-- The parts after the first, each after the connective. -/
def Node.joinedRest (connective : Connective) : List Node → List Char
  | [] => []
  | node :: nodes =>
    ' ' :: connective.keyword.toList ++ ' ' :: node.chars ++ Node.joinedRest connective nodes

end

/-- A query as it is shown. -/
def Group.chars (g : Group) : List Char := Node.joined g.connective g.children

/-- A query as it is shown. -/
def Group.text (g : Group) : String := String.ofList g.chars

end SearchFilter
