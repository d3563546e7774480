import SearchFilter.Yaml.Node
import SearchFilter.Schema.Definition

/-!
# Reading YAML documents

A definition is read from the places of a document. An alias is followed where something is read
from it, and how often that happens is limited by the size of the document, so that a small text
cannot stand for a very large one.
-/

namespace SearchFilter.Yaml

/-- A node of a document, with all that aliases may mean. -/
structure Place where
  /-- The nodes with a number, the last one first. -/
  marks : List (Nat × Node)
  /-- The node. -/
  node : Node

namespace Place

/-- The whole of a document. -/
def top (n : Node) : Place := ⟨n.marks.reverse, n⟩

/-- Another node of the same document. -/
def goTo (p : Place) (n : Node) : Place := ⟨p.marks, n⟩

/-- The node itself, after an alias has been followed. -/
def target (p : Place) : Node :=
  match p.node with
  | .reference number => (p.marks.lookup number).getD p.node
  | .anchored _ n => n
  | n => n

/-! ### Scalars -/

/-- A word for a value that is left out. -/
def isNullWord (text : List Char) : Bool :=
  text = "null".toList || text = "Null".toList || text = "NULL".toList || text = ['~']

/-- The truth value of a word. -/
def flagOfWord? (text : List Char) : Option Bool :=
  if text = "true".toList ∨ text = "True".toList ∨ text = "TRUE".toList then some true
  else if text = "false".toList ∨ text = "False".toList ∨ text = "FALSE".toList then some false
  else none

/-- The text of a scalar, however it is spelt. -/
def text? (p : Place) : Option String :=
  match p.target with
  | .scalar text _ _ => some (String.ofList text)
  | _ => none

/-- The truth value of a plain scalar, or of a literal block that is tagged as one. -/
def flag? (p : Place) : Option Bool :=
  match p.target with
  | .scalar text .plain _ => flagOfWord? text
  | .scalar text .literal tag => if tag = some (.ofCore "bool") then flagOfWord? text else none
  | _ => none

/-- A plain scalar that is nothing or a null word is left out; one that is tagged as null has to be
a null word, and one with another tag is there. -/
def isNothing? (p : Place) : Option Bool :=
  match p.target with
  | .scalar text .plain none => some (text.isEmpty || isNullWord text)
  | .scalar text .plain (some tag) =>
    if tag = .ofCore "null" then (if isNullWord text then some true else none) else some false
  | _ => some false

/-! ### Collections -/

/-- Nothing is written here. -/
def isAbsent : Node → Bool
  | .scalar [] .plain _ => true
  | _ => false

/-- The items of a sequence; nothing is the empty sequence. -/
def items? (p : Place) : Option (List Place) :=
  match p.target with
  | .sequence items => some (items.map p.goTo)
  | n => if isAbsent n then some [] else none

/-- The keys and values of a mapping; nothing is the empty mapping. -/
def entries? (p : Place) : Option (List (Place × Place)) :=
  match p.target with
  | .mapping entries => some (entries.map fun (k, v) => (p.goTo k, p.goTo v))
  | n => if isAbsent n then some [] else none

/-- The values of a mapping at some names, each at most once; every key is a text, and other keys
are passed over. -/
def record? (names : List String) (p : Place) : Option (List (Option Place)) := do
  let keyed ← (← p.entries?).mapM fun (k, v) => k.text?.map fun key => (key, v)
  names.mapM fun name =>
    match keyed.filter (·.1 = name) with
    | [] => some none
    | [(_, v)] => some (some v)
    | _ => none

/-! ### Aliases -/

/-- What some count comes to over a list. -/
def total {α : Type} (count : α → Nat) (xs : List α) : Nat := xs.foldl (fun n x => n + count x) 0

/-- One where there is an alias to follow. -/
def aliased (p : Place) : Nat :=
  match p.node with
  | .reference _ => 1
  | _ => 0

/-- How many aliases are followed to find out the keys of a mapping. -/
def aliasedKeys (p : Place) : Nat := total (fun e => e.1.aliased) (p.entries?.getD [])

/-- The values of a mapping at a name. -/
def valuesAt (p : Place) (name : String) : List Place :=
  ((p.entries?.getD []).filter fun (k, _) => k.text? = some name).map (·.2)

mutual

/-- How many aliases are followed when something of some shape is read. -/
def followed : Shape → Place → Nat
  | .scalar, p => p.aliased
  | .list item, p => p.aliased + total (followed item) (p.items?.getD [])
  | .record fields, p => p.aliased + p.aliasedKeys + followedFields fields p

/-- How many aliases are followed when the fields of a record are read. -/
def followedFields : List (String × Shape) → Place → Nat
  | [], _ => 0
  | (name, shape) :: fields, p =>
    total (followed shape) (p.valuesAt name) + followedFields fields p

end

/-- How many aliases may be followed in a document, for each unit of its size. -/
def aliasLimit : Nat := 100

end Place

instance : Document Place where
  text? := Place.text?
  flag? := Place.flag?
  items? := Place.items?
  isNothing? := Place.isNothing?
  record? := Place.record?

end SearchFilter.Yaml

namespace SearchFilter

/-- The schema that a YAML text describes. -/
def Definition.ofYamlText? (text : String) : Option Definition := do
  let document ← Yaml.document? text
  let place := Yaml.Place.top document
  if place.followed (.record Definition.fields) ≤ Yaml.Place.aliasLimit * document.size then
    Definition.ofDocument? place
  else none

end SearchFilter
