import SearchFilter.Yaml.Scalar

/-!
# YAML tags

A tag names the kind of a node. Its text counts in octets: a percent sign and two hexadecimal digits
stand for one octet, and the octets that are spelt so have to come in the lengths that the first
octet of a character announces.
-/

namespace SearchFilter.Yaml

/-- The text of a tag, in octets. -/
abbrev TagText := List UInt8

/-- A character of a tag; some only where the tag cannot end a flow entry. -/
def isTagChar (wide : Bool) (c : Char) : Bool :=
  isNameChar c || ";/?:@&=+$.!~*'()%".toList.contains c || (wide && (c = ',' || c = '[' || c = ']'))

namespace TagText

/-- The octets of a text of ASCII characters. -/
def ofAscii (cs : List Char) : TagText := cs.map fun c => c.toNat.toUInt8

/-- How many octets of a character follow its first one. -/
def following? (first : Nat) : Option Nat :=
  if first < 0x80 then some 0
  else if first < 0xc0 then none
  else if first < 0xe0 then some 1
  else if first < 0xf0 then some 2
  else if first < 0xf8 then some 3
  else none

/-- How many octets of a character are owed after one more, given how many were owed before it. -/
def owed? : Nat → Nat → Option Nat
  | 0, octet => following? octet
  | owed + 1, octet => if 0x80 ≤ octet ∧ octet < 0xc0 then some owed else none

/-- The octets that ASCII characters spell, with so many octets of a character owed. Owed octets are
spelt by percent signs. -/
def decode? : Nat → List Char → Option TagText
  | owed, '%' :: a :: b :: rest => do
    let octet ← Digits.hexToNat? [a, b]
    let owed ← owed? owed octet
    (decode? owed rest).map (octet.toUInt8 :: ·)
  | 0, c :: rest => if c = '%' then none else (decode? 0 rest).map (c.toNat.toUInt8 :: ·)
  | 0, [] => some []
  | _ + 1, _ => none

/-- The octets that count: those before the first zero. -/
def visible (text : TagText) : TagText := text.takeWhile (· ≠ 0)

/-- The text of a tag at the front of the input, and the input after it. -/
def read? (wide : Bool) (i : Input) : Option (TagText × Input) :=
  let (text, i) := i.takeWhile (isTagChar wide)
  (decode? 0 text).map fun octets => (octets, i)

/-- A text that is not empty, at the front of the input. -/
def readNonempty? (wide : Bool) (i : Input) : Option (TagText × Input) :=
  (read? wide i).bind fun (text, i) => if text.isEmpty then none else some (text.visible, i)

/-- The beginning of the tags of the language itself. -/
def core : TagText := ofAscii "tag:yaml.org,2002:".toList

/-- A tag of the language itself. -/
def ofCore (name : String) : TagText := core ++ ofAscii name.toList

/-- The mark that is a tag by itself. -/
def lone : TagText := ofAscii ['!']

end TagText

end SearchFilter.Yaml
