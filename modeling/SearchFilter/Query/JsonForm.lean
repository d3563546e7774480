import SearchFilter.Json.Source
import SearchFilter.Query.Tree

/-!
# Queries as JSON

A query is written as an object with its connective and its parts; a part is tagged by its type. The
places of terms are not written. Reading accepts what writing produces, and also records given as
lists of their parts, objects with further fields, and a missing connective, which is `AND`.
-/

namespace SearchFilter

open Json

/-! ### Writing -/

/-- The name of a comparator in JSON. -/
def Comparator.name : Comparator → String
  | .eq => "eq"
  | .lt => "lt"
  | .gt => "gt"
  | .le => "le"
  | .ge => "ge"

/-- A literal as a JSON value. -/
def Literal.toJson : Literal → Json
  | .string s => .string s
  | .integer n => .int n.toInt
  | .float x => .float x
  | .boolean b => .bool b
  | .null => .null

/-- A term as a tagged part. -/
def Term.toJson (t : Term) : Json := .object
  [("type", .string "term"), ("field", .array (t.field.segments.map .string)),
    ("comparator", .string t.comparator.name), ("value", t.value.toJson),
    ("negated", .bool t.negated)]

mutual

/-- A part of a query. -/
def Node.toJson : Node → Json
  | .term t => t.toJson
  | .group connective children => .object
    [("type", .string "group"), ("connective", .string connective.keyword),
      ("children", .array (Node.toJsons children))]

/-- Parts of a query. -/
def Node.toJsons : List Node → List Json
  | [] => []
  | node :: nodes => node.toJson :: Node.toJsons nodes

end

/-- A whole query. -/
def Group.toJson (g : Group) : Json := .object
  [("connective", .string g.connective.keyword), ("children", .array (Node.toJsons g.children))]

/-! ### Reading -/

/-- A case without content, named by a string or by an object of one field that holds nothing. -/
def caseName? : Source → Option String
  | source =>
    match source.variant? with
    | some (name, none) => some name
    | some (name, some .null) => some name
    | _ => none

/-- As `caseName?`, and an empty object also counts as nothing. -/
def keptCaseName? (source : Source) : Option String :=
  match source.variant? with
  | some (name, some (.object [])) => some name
  | _ => caseName? source

/-- The comparator of a JSON name. -/
def Comparator.ofName? (s : String) : Option Comparator :=
  if s = "eq" then some .eq
  else if s = "lt" then some .lt
  else if s = "gt" then some .gt
  else if s = "le" then some .le
  else if s = "ge" then some .ge
  else none

/-- A literal: a number is an integer if it is spelt as one and fits, and a double otherwise. -/
def Literal.ofSource? : Source → Option Literal
  | .string s => s.map .string
  | .number n =>
    match n.toInt64? with
    | some i => some (.integer i)
    | none => n.toBinary64?.map .float
  | .bool b => some (.boolean b)
  | .null => some .null
  | _ => none

/-- A natural that counts bytes, lines or characters. -/
def count? : Source → Option Nat
  | .number n => n.toNat?
  | _ => none

/-- The place of a term; all of it must be given. -/
def Span.ofSource? (source : Source) : Option Span := do
  match ← source.record? ["start", "end", "line", "column"] with
  | [some start, some stop, some line, some column] =>
    pure ⟨← count? start, ← count? stop, ← count? line, ← count? column⟩
  | _ => none

/-- A term; only its place may be left out. -/
def Term.ofSource? (source : Source) : Option Term := do
  match ← source.record? ["field", "comparator", "value", "negated", "span"] with
  | [some field, some comparator, some value, some negated, span] =>
    let segments ← (← field.items).mapM Source.text?
    let comparator ← (keptCaseName? comparator).bind Comparator.ofName?
    let value ← Literal.ofSource? value
    let negated ← negated.flag?
    let span ← match span with
      | some span => Span.ofSource? span
      | none => pure .nowhere
    pure ⟨⟨segments⟩, comparator, value, negated, span⟩
  | _ => none

/-- A tagged part, taken apart into the tag and the rest. -/
def tagged? : Source → Option (Source × Source)
  | .object fields => do
    match ← Source.only? (some "type") fields with
    | some tag => pure (tag, .object (fields.filter (·.1 ≠ some "type")))
    | none => none
  | .array (tag :: items) => some (tag, .array items)
  | _ => none

/-- What kind of part a tag names: `false` for a term, `true` for a group. Inside a part the kinds may
also be numbered. -/
def tagsGroup? (numbered : Bool) : Source → Option Bool
  | .string (some s) => if s = "term" then some false else if s = "group" then some true else none
  | .number n =>
    if numbered then
      match n.toNat? with
      | some 0 => some false
      | some 1 => some true
      | _ => none
    else none
  | _ => none

/-- The connective and the parts of a group, the connective read by a given rule. -/
def groupParts? (name? : Source → Option String) (source : Source) :
    Option (Connective × List Source) := do
  match ← source.record? ["connective", "children"] with
  | [connective, some children] =>
    let connective ← match connective with
      | some c => (name? c).bind Connective.ofKeyword?
      | none => pure .and
    pure (connective, ← children.items)
  | _ => none

/-- A part of a query, nested at most so deep. -/
def Node.ofSource? (numbered : Bool) : Nat → Source → Option Node
  | 0, _ => none
  | depth + 1, source => do
    let (tag, content) ← tagged? source
    if ← tagsGroup? numbered tag then
      let (connective, children) ← groupParts? keptCaseName? content
      pure (.group connective (← children.mapM (Node.ofSource? true depth)))
    else
      pure (.term (← Term.ofSource? content))

/-- How deep arrays and objects may be nested where they are read in full. -/
def maxDepth : Nat := 127

/-- A whole query. -/
def Group.ofSource? (source : Source) : Option Group := do
  let (connective, children) ← groupParts? caseName? source
  if Source.areKept (maxDepth - 2) children then
    pure ⟨connective, ← children.mapM (Node.ofSource? false maxDepth)⟩
  else none

/-- The query a JSON text describes. -/
def Group.ofJsonText? (text : String) : Option Group := (Source.read? text).bind Group.ofSource?

end SearchFilter
