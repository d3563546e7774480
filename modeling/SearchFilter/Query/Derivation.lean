import SearchFilter.Query.Error
import SearchFilter.Query.Tree

/-!
# From derivations to trees

Matching a query's text by the grammar gives a derivation: for each construct that was matched, the
text it took and the constructs inside it. The tree of terms is built from that, construct by
construct. Building has errors of its own, for a construct that stands where it has no meaning and for
a comparator that is none.
-/

namespace SearchFilter

/-! ### Constructs -/

/-- A construct of the query language. -/
inductive Construct where
  /-- The end of the text. -/
  | ending
  /-- A whole query. -/
  | query
  /-- Alternatives. -/
  | alternatives
  /-- Operands that must all hold. -/
  | operands
  /-- A query in parentheses. -/
  | group
  /-- A term. -/
  | term
  /-- A negation. -/
  | negation
  /-- A field. -/
  | field
  /-- A comparator. -/
  | comparator
  /-- A quoted text. -/
  | quoted
  /-- What stands between the quotes. -/
  | inner
  /-- An unquoted word. -/
  | bare
  /-- The keyword `AND`. -/
  | andKeyword
  /-- The keyword `OR`. -/
  | orKeyword
  deriving DecidableEq

namespace Construct

/-- All constructs, in the order in which an error names them. -/
def all : List Construct :=
  [ending, query, alternatives, operands, group, term, negation, field, comparator, quoted, inner,
    bare, andKeyword, orKeyword]

/-- The name of a construct in an error. -/
def name : Construct → String
  | ending => "EOI"
  | query => "query"
  | alternatives => "or_expr"
  | operands => "and_expr"
  | group => "group"
  | term => "term"
  | negation => "negation"
  | field => "field"
  | comparator => "comparator"
  | quoted => "quoted"
  | inner => "inner"
  | bare => "bare"
  | andKeyword => "kw_and"
  | orKeyword => "kw_or"

end Construct

/-! ### Derivations -/

/-- A construct that was matched. -/
structure Derivation where
  /-- What was matched. -/
  construct : Construct
  /-- Where it starts. -/
  position : Position
  /-- The text it took. -/
  text : List Char
  /-- The constructs inside it, in source order. -/
  parts : List Derivation

namespace Derivation

/-- The place of the text that was taken. -/
def span (d : Derivation) : Span :=
  ⟨d.position.offset, (d.position.after d.text).offset, d.position.line, d.position.column⟩

/-- The construct has no meaning where it stands. -/
def misplaced (d : Derivation) : SyntaxError :=
  .misplaced d.construct.name d.position.line d.position.column

end Derivation

/-! ### Terms -/

/-- A quoted text without the backslashes; the character after one is kept. -/
def unescape : List Char → List Char
  | [] => []
  | ['\\'] => []
  | '\\' :: c :: cs => c :: unescape cs
  | c :: cs => c :: unescape cs

/-- What is known of a term while its parts are gone through. -/
structure TermParts where
  /-- A negation was found. -/
  negated : Bool
  /-- The last field that was found. -/
  field : Option FieldPath
  /-- The last comparator that was found. -/
  comparator : Comparator
  /-- The last value that was found. -/
  value : Option Literal

namespace TermParts

/-- Nothing was found. -/
def start : TermParts := ⟨false, none, .eq, none⟩

/-- One more part. -/
def add (p : TermParts) (d : Derivation) : Except SyntaxError TermParts :=
  match d.construct with
  | .negation => .ok { p with negated := true }
  | .field => .ok { p with field := some (.ofChars d.text) }
  | .comparator =>
    match Comparator.ofSymbol? (String.ofList d.text) with
    | some c => .ok { p with comparator := c }
    | none => .error (.invalidComparator (String.ofList d.text))
  | .quoted =>
    let raw := (d.parts.head?.map Derivation.text).getD []
    .ok { p with value := some (.string (String.ofList (unescape raw))) }
  | .bare => .ok { p with value := some (Literal.ofBare d.text) }
  | _ => .error d.misplaced

end TermParts

/-- The term of a derivation; it must have a field and a value. -/
def Term.ofDerivation (d : Derivation) : Except SyntaxError Term := do
  let parts ← d.parts.foldlM TermParts.add .start
  match parts.field, parts.value with
  | some field, some value => pure ⟨field, parts.comparator, value, parts.negated, d.span⟩
  | _, _ => .error d.misplaced

/-! ### Trees -/

mutual

/-- The part of a query that a derivation stands for. -/
def Node.ofDerivation : Derivation → Except SyntaxError Node
  | ⟨.alternatives, _, _, parts⟩ => Node.combine .or <$> Node.ofDerivations parts
  | ⟨.operands, _, _, parts⟩ => Node.combine .and <$> Node.ofDerivations parts
  | ⟨.group, _, _, inner :: _⟩ => Node.ofDerivation inner
  | ⟨.term, position, text, parts⟩ => .term <$> Term.ofDerivation ⟨.term, position, text, parts⟩
  | d => .error d.misplaced

/-- The parts that are joined by keywords. -/
def Node.ofDerivations : List Derivation → Except SyntaxError (List Node)
  | [] => .ok []
  | d :: ds =>
    match d.construct with
    | .andKeyword => Node.ofDerivations ds
    | .orKeyword => Node.ofDerivations ds
    | _ => do
      let node ← Node.ofDerivation d
      let nodes ← Node.ofDerivations ds
      pure (node :: nodes)

end

/-- The query of what was matched; without alternatives it is empty. -/
def Group.ofDerivations : List Derivation → Except SyntaxError Group
  | [] => .ok .empty
  | query :: _ =>
    match query.parts.find? (·.construct = .alternatives) with
    | none => .ok .empty
    | some d => Group.ofNode <$> Node.ofDerivation d

end SearchFilter
