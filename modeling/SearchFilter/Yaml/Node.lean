import SearchFilter.Yaml.Token

/-!
# YAML nodes

A YAML document is a tree of scalars, sequences and mappings. A node may be numbered by an anchor
and be meant again by an alias; aliases stay in the tree and are followed only when it is read, so a
tree that contains itself is no harm.
-/

namespace SearchFilter.Yaml

/-- A node of a document. -/
inductive Node where
  /-- A scalar and its tag. -/
  | scalar (text : List Char) (style : Style) (tag : Option TagText)
  /-- A list of nodes. -/
  | sequence (items : List Node)
  /-- Pairs of a key and a value, in order. -/
  | mapping (entries : List (Node × Node))
  /-- A node with the number of its anchor. -/
  | anchored (number : Nat) (node : Node)
  /-- The node with some number once more. -/
  | reference (number : Nat)

namespace Node

/-- The node that is meant where none is written. -/
def absent : Node := .scalar [] .plain none

mutual

/-- The numbered nodes in a node, with their numbers; a node begins before its parts. -/
def marks : Node → List (Nat × Node)
  | .scalar .. => []
  | .reference _ => []
  | .sequence items => itemMarks items
  | .mapping entries => entryMarks entries
  | .anchored number n => (number, n) :: marks n

/-- The numbered nodes in the items of a list. -/
def itemMarks : List Node → List (Nat × Node)
  | [] => []
  | n :: ns => marks n ++ itemMarks ns

/-- The numbered nodes in the entries of a mapping. -/
def entryMarks : List (Node × Node) → List (Nat × Node)
  | [] => []
  | (k, v) :: es => marks k ++ marks v ++ entryMarks es

end

mutual

/-- How large a node is: one for a scalar or an alias, and two for the ends of a collection. -/
def size : Node → Nat
  | .scalar .. => 1
  | .reference _ => 1
  | .sequence items => 2 + itemsSize items
  | .mapping entries => 2 + entriesSize entries
  | .anchored _ n => size n

/-- How large the items of a list are together. -/
def itemsSize : List Node → Nat
  | [] => 0
  | n :: ns => size n + itemsSize ns

/-- How large the entries of a mapping are together. -/
def entriesSize : List (Node × Node) → Nat
  | [] => 0
  | (k, v) :: es => size k + size v + entriesSize es

end

end Node

/-! ### Reading nodes from tokens -/

/-- Tokens that are still to be read, and the number of each anchor name so far. -/
structure Cursor where
  /-- The tokens. -/
  rest : List Token
  /-- The names, each once. -/
  names : List (List Char × Nat)

namespace Cursor

/-- After the first token. -/
def next (c : Cursor) : Cursor := { c with rest := c.rest.drop 1 }

/-- The first token is one of these. -/
def isAt (c : Cursor) (ts : List Token) : Bool :=
  match c.rest with
  | t :: _ => ts.contains t
  | [] => false

/-- A node gets an anchor: its number is how many different names there are so far. -/
def register (c : Cursor) (name : List Char) : Nat × Cursor :=
  let number := c.names.length
  (number, { c with names := (name, number) :: c.names.filter (·.1 ≠ name) })

end Cursor

/-- A way to read something from the front of the tokens. -/
abbrev Reader (α : Type) := Cursor → Option (α × Cursor)

/-- A node, or none at all before some tokens. -/
def orAbsent (follow : List Token) (node? : Reader Node) : Reader Node := fun c =>
  if c.isAt follow then some (.absent, c) else node? c

/-- The value of a key, or none at all. -/
def valueOrAbsent (follow : List Token) (node? : Reader Node) : Reader Node := fun c =>
  if c.isAt [.value] then orAbsent follow node? c.next else some (.absent, c)

/-- The entries of a block sequence. -/
def blockItems? (node? : Reader Node) : Nat → Reader (List Node)
  | 0, _ => none
  | fuel + 1, c =>
    match c.rest with
    | .entry :: _ => do
      let (n, c) ← orAbsent [.entry, .blockEnd] node? c.next
      let (ns, c) ← blockItems? node? fuel c
      some (n :: ns, c)
    | .blockEnd :: _ => some ([], c.next)
    | _ => none

/-- The entries of a sequence that stands as deep as the key it belongs to. -/
def levelItems? (node? : Reader Node) : Nat → Reader (List Node)
  | 0, _ => none
  | fuel + 1, c =>
    match c.rest with
    | .entry :: _ => do
      let (n, c) ← orAbsent [.entry, .key, .value, .blockEnd] node? c.next
      let (ns, c) ← levelItems? node? fuel c
      some (n :: ns, c)
    | _ => some ([], c)

/-- The entries of a block mapping. -/
def blockEntries? (node? : Reader Node) : Nat → Reader (List (Node × Node))
  | 0, _ => none
  | fuel + 1, c =>
    match c.rest with
    | .key :: _ => do
      let (k, c) ← orAbsent [.key, .value, .blockEnd] node? c.next
      let (v, c) ← valueOrAbsent [.key, .value, .blockEnd] node? c
      let (es, c) ← blockEntries? node? fuel c
      some ((k, v) :: es, c)
    | .blockEnd :: _ => some ([], c.next)
    | _ => none

/-- At the next entry of a collection in brackets or braces: after a comma, unless it is the first
entry or the collection ends. -/
def afterComma? (close : Token) (first : Bool) (c : Cursor) : Option Cursor :=
  if first || c.isAt [close] then some c
  else if c.isAt [.comma] then some c.next
  else none

/-- The key of a single pair in brackets. Where it is missing, the token in its place is passed
over. -/
def pairKey? (node? : Reader Node) : Reader Node := fun c =>
  if c.isAt [.value, .comma, .closeBracket] then some (.absent, c.next) else node? c

/-- The entries of a sequence in brackets; a single pair is a mapping of its own. -/
def flowItems? (node? : Reader Node) : Nat → Bool → Reader (List Node)
  | 0, _, _ => none
  | fuel + 1, first, c => do
    let c ← afterComma? .closeBracket first c
    match c.rest with
    | .closeBracket :: _ => some ([], c.next)
    | .key :: _ =>
      let (k, c) ← pairKey? node? c.next
      let (v, c) ← valueOrAbsent [.comma, .closeBracket] node? c
      let (ns, c) ← flowItems? node? fuel false c
      some (.mapping [(k, v)] :: ns, c)
    | _ =>
      let (n, c) ← node? c
      let (ns, c) ← flowItems? node? fuel false c
      some (n :: ns, c)

/-- The entries of a mapping in braces; a node alone is a key without a value. -/
def flowEntries? (node? : Reader Node) : Nat → Bool → Reader (List (Node × Node))
  | 0, _, _ => none
  | fuel + 1, first, c => do
    let c ← afterComma? .closeBrace first c
    match c.rest with
    | .closeBrace :: _ => some ([], c.next)
    | .key :: _ =>
      let (k, c) ← orAbsent [.value, .comma, .closeBrace] node? c.next
      let (v, c) ← valueOrAbsent [.comma, .closeBrace] node? c
      let (es, c) ← flowEntries? node? fuel false c
      some ((k, v) :: es, c)
    | _ =>
      let (k, c) ← node? c
      let (es, c) ← flowEntries? node? fuel false c
      some ((k, .absent) :: es, c)

/-! ### Properties of nodes -/

/-- The handles of tags with their meanings; a document may give others before these. -/
def defaultHandles : List (List Char × TagText) := [(['!'], .lone), (['!', '!'], .core)]

/-- The anchor and the tag of a node, in either order, and the tokens after them. -/
def properties : List Token → Option (List Char) × Option (List Char × TagText) × List Token
  | .anchor name :: .tag handle suffix :: rest => (some name, some (handle, suffix), rest)
  | .tag handle suffix :: .anchor name :: rest => (some name, some (handle, suffix), rest)
  | .anchor name :: rest => (some name, none, rest)
  | .tag handle suffix :: rest => (none, some (handle, suffix), rest)
  | rest => (none, none, rest)

/-- A tag written out. -/
def fullTag? (handles : List (List Char × TagText)) : List Char × TagText → Option TagText
  | ([], suffix) => some suffix
  | (handle, suffix) => (handles.lookup handle).map (· ++ suffix)

/-- What was read, made into a node. -/
def made {α : Type} (make : α → Node) (r : Option (α × Cursor)) : Option (Node × Cursor) :=
  r.map fun (found, c) => (make found, c)

/-- What follows the properties of a node, where `node? block level` reads the nodes inside it.
Block collections are read where `block` allows them, and a sequence as deep as its key where `level`
allows it; a node that is `marked` by a property may have no content. -/
def content? (node? : Bool → Bool → Reader Node) (block level marked : Bool)
    (tag : Option TagText) : Reader Node := fun c =>
  let size := c.rest.length + 1
  match c.rest, block, level with
  | .entry :: _, _, true => made .sequence (levelItems? (node? true false) size c)
  | .scalar text style :: _, _, _ => some (.scalar text style tag, c.next)
  | .openBracket :: _, _, _ => made .sequence (flowItems? (node? false false) size true c.next)
  | .openBrace :: _, _, _ => made .mapping (flowEntries? (node? false false) size true c.next)
  | .sequenceStart :: _, true, _ => made .sequence (blockItems? (node? true false) size c.next)
  | .mappingStart :: _, true, _ => made .mapping (blockEntries? (node? true true) size c.next)
  | _, _, _ => if marked then some (.scalar [] .plain tag, c) else none

/-- A node, at most so deep. -/
def node? (handles : List (List Char × TagText)) : Nat → Bool → Bool → Reader Node
  | 0, _, _, _ => none
  | fuel + 1, block, level, c =>
    match c.rest with
    | .reference name :: _ => (c.names.lookup name).map fun number => (.reference number, c.next)
    | _ => do
      let (name, tag, rest) := properties c.rest
      let tag ← match tag with
        | some t => (fullTag? handles t).map some
        | none => some none
      let c := { c with rest := rest }
      let read := content? (node? handles fuel) block level (name.isSome || tag.isSome) tag
      match name with
      | some name =>
        let (number, c) := c.register name
        made (.anchored number) (read c)
      | none => read c

/-! ### Documents -/

/-- What the directives before a document say. -/
structure Preamble where
  /-- A version was given. -/
  versioned : Bool
  /-- The handles that were given. -/
  handles : List (List Char × TagText)

/-- The directives at the front, and the tokens after them; at most one version, and no handle
twice. -/
def preamble? : Preamble → List Token → Option (Preamble × List Token)
  | p, .version major minor :: rest =>
    if p.versioned || major ≠ 1 || (minor ≠ 1 && minor ≠ 2) then none
    else preamble? { p with versioned := true } rest
  | p, .handle name meaning :: rest =>
    if (p.handles.lookup name).isSome then none
    else preamble? { p with handles := p.handles ++ [(name, meaning)] } rest
  | p, rest => some (p, rest)

/-- The only document of a text. -/
def document? (text : String) : Option Node := do
  let tokens ← tokens? text
  let size := tokens.length + 1
  let (n, c) ← match tokens with
    | .version .. :: _ | .handle .. :: _ | .documentStart :: _ =>
      match ← preamble? ⟨false, []⟩ tokens with
      | (p, .documentStart :: rest) =>
        let c : Cursor := ⟨rest, []⟩
        if c.rest.isEmpty || c.isAt [.documentStart, .documentEnd] then some (.absent, c)
        else node? (p.handles ++ defaultHandles) size true false c
      | _ => none
    | _ => node? defaultHandles size true false ⟨tokens, []⟩
  if c.rest.all (· = .documentEnd) then some n else none

end SearchFilter.Yaml
