import SearchFilter.Json.Basic
import SearchFilter.Text.Blank

/-!
# JSON as it is read

A JSON text is first read into a `Source`, which keeps numbers as they are spelt and remembers which
strings hold half of a surrogate pair. What a number or a string means is decided where it is used:
parts that nobody asks for may hold numbers out of range and broken strings.
-/

namespace SearchFilter.Json

/-- A number as it is spelt. -/
structure Numeral where
  /-- A minus sign stands before it. -/
  negative : Bool
  /-- The digits before the point. -/
  whole : List Char
  /-- The digits after the point; none without a point. -/
  fraction : List Char
  /-- The power of ten, if one is written. -/
  power : Option Int
  deriving DecidableEq

/-- A JSON text, taken apart. -/
inductive Source where
  /-- The value `null`. -/
  | null
  /-- A truth value. -/
  | bool (b : Bool)
  /-- A number. -/
  | number (n : Numeral)
  /-- A string; `none` if an escape in it stands for half of a surrogate pair. -/
  | string (s : Option String)
  /-- A list of values. -/
  | array (items : List Source)
  /-- Named values in order, repeated names included. -/
  | object (fields : List (Option String × Source))

namespace Source

open Text

/-! ### Scanning -/

/-- The character of a short escape such as `\n`. -/
def shortEscape? : Char → Option Char
  | '"' => some '"'
  | '\\' => some '\\'
  | '/' => some '/'
  | 'b' => some '\x08'
  | 'f' => some '\x0c'
  | 'n' => some '\n'
  | 'r' => some '\r'
  | 't' => some '\t'
  | _ => none

/-- The code points of a string after its opening quote, escapes resolved one by one, and what
follows the closing quote. -/
def stringBody : List Char → Option (List Nat × List Char)
  | [] => none
  | '"' :: rest => some ([], rest)
  | '\\' :: 'u' :: a :: b :: c :: d :: rest => do
    let n ← Digits.hexToNat? [a, b, c, d]
    let (ns, rest) ← stringBody rest
    pure (n :: ns, rest)
  | '\\' :: e :: rest => do
    let c ← shortEscape? e
    let (ns, rest) ← stringBody rest
    pure (c.toNat :: ns, rest)
  | c :: rest => do
    if c.toNat < 32 ∨ c = '\\' then none
    else
      let (ns, rest) ← stringBody rest
      pure (c.toNat :: ns, rest)

/-- The characters of code points, two halves of a surrogate pair making one; none if a half stands
alone. -/
def joinPairs : List Nat → Option (List Char)
  | [] => some []
  | high :: ns =>
    if 0xd800 ≤ high ∧ high < 0xdc00 then
      match ns with
      | low :: ns =>
        if 0xdc00 ≤ low ∧ low < 0xe000 then
          (joinPairs ns).map (Char.ofNat (0x10000 + (high - 0xd800) * 0x400 + (low - 0xdc00)) :: ·)
        else none
      | [] => none
    else if 0xdc00 ≤ high ∧ high < 0xe000 then none
    else (joinPairs ns).map (Char.ofNat high :: ·)

/-- A string after its opening quote. -/
def string? (cs : List Char) : Option (Option String × List Char) := do
  let (ns, rest) ← stringBody cs
  pure ((joinPairs ns).map String.ofList, rest)

/-- The digits after a point, at least one; none without a point. -/
def fraction? : List Char → Option (List Char × List Char)
  | '.' :: cs =>
    match Digits.span cs with
    | ([], _) => none
    | found => some found
  | cs => some ([], cs)

/-- A power of ten, if one is written. -/
def power? : List Char → Option (Option Int × List Char)
  | [] => some (none, [])
  | c :: cs =>
    if c = 'e' ∨ c = 'E' then
      let (negative, cs) := readSign cs
      match Digits.span cs with
      | ([], _) => none
      | (ds, rest) => some (some (if negative then -(Digits.toNat ds : Int) else Digits.toNat ds), rest)
    else some (none, c :: cs)

/-- A number: digits without a needless zero in front, then a fraction and a power of ten if
written. -/
def numeral? (cs : List Char) : Option (Numeral × List Char) := do
  let (negative, cs) :=
    match cs with
    | '-' :: cs => (true, cs)
    | cs => (false, cs)
  let (whole, cs) := Digits.span cs
  if whole = [] ∨ (whole.head? = some '0' ∧ whole.length ≠ 1) then none
  else
    let (fraction, cs) ← fraction? cs
    let (power, cs) ← power? cs
    pure (⟨negative, whole, fraction, power⟩, cs)

/-- What follows a given text. -/
def after? (text : List Char) (cs : List Char) : Option (List Char) :=
  if text.isPrefixOf cs then some (cs.drop text.length) else none

/-! ### Reading -/

mutual

/-- A value after optional blanks, and what follows it. The first argument bounds the depth of the
calls. -/
def value? : Nat → List Char → Option (Source × List Char)
  | 0, _ => none
  | fuel + 1, cs =>
    match skipSpaces cs with
    | 'n' :: rest => (after? "ull".toList rest).map fun rest => (null, rest)
    | 't' :: rest => (after? "rue".toList rest).map fun rest => (bool true, rest)
    | 'f' :: rest => (after? "alse".toList rest).map fun rest => (bool false, rest)
    | '"' :: rest => (string? rest).map fun (s, rest) => (string s, rest)
    | '[' :: rest =>
      match skipSpaces rest with
      | ']' :: rest => some (array [], rest)
      | rest => (items? fuel rest).map fun (items, rest) => (array items, rest)
    | '\x7b' :: rest =>
      match skipSpaces rest with
      | '\x7d' :: rest => some (object [], rest)
      | rest => (fields? fuel rest).map fun (fields, rest) => (object fields, rest)
    | rest => (numeral? rest).map fun (n, rest) => (number n, rest)

/-- One or more items up to the closing bracket. -/
def items? : Nat → List Char → Option (List Source × List Char)
  | 0, _ => none
  | fuel + 1, cs => do
    let (item, rest) ← value? fuel cs
    match skipSpaces rest with
    | ']' :: rest => some ([item], rest)
    | ',' :: rest => do
      let (items, rest) ← items? fuel rest
      some (item :: items, rest)
    | _ => none

/-- One or more fields up to the closing brace. -/
def fields? : Nat → List Char → Option (List (Option String × Source) × List Char)
  | 0, _ => none
  | fuel + 1, cs =>
    match skipSpaces cs with
    | '"' :: rest => do
      let (name, rest) ← string? rest
      match skipSpaces rest with
      | ':' :: rest => do
        let (value, rest) ← value? fuel rest
        match skipSpaces rest with
        | '\x7d' :: rest => some ([(name, value)], rest)
        | ',' :: rest => do
          let (fields, rest) ← fields? fuel rest
          some ((name, value) :: fields, rest)
        | _ => none
      | _ => none
    | _ => none

end

/-- A whole JSON text: one value with nothing but blanks around it. Every call reads a character or
is followed by one that does, so twice the length bounds their depth. -/
def read? (text : String) : Option Source :=
  let cs := text.toList
  match value? (2 * cs.length + 2) cs with
  | some (source, rest) => if skipSpaces rest = [] then some source else none
  | none => none

end Source

/-! ### What numbers stand for -/

namespace Numeral

/-- Spelt without a point and without a power of ten. -/
def isWhole (n : Numeral) : Bool := n.fraction.isEmpty && n.power.isNone

/-- The natural below `2 ^ 64` that a number stands for. -/
def toNat? (n : Numeral) : Option Nat :=
  let value := Digits.toNat n.whole
  if n.isWhole && !n.negative && value < UInt64.size then some value else none

/-- The signed 64-bit integer that a number stands for; a zero with a minus sign is none. -/
def toInt64? (n : Numeral) : Option Int64 :=
  let value := Digits.toNat n.whole
  if !n.isWhole then none
  else if n.negative then
    if 0 < value ∧ value ≤ Nat.pow 2 63 then some (Int64.ofInt (-(value : Int))) else none
  else if value < Nat.pow 2 63 then some (Int64.ofInt value)
  else none

/-- The digits of a significand as long as it stays below `2 ^ 64`, and how many digits were left
out. -/
def significand (start : Nat) : List Char → Nat × Nat
  | [] => (start, 0)
  | d :: ds =>
    let next := 10 * start + Digits.value d
    if next < UInt64.size then significand next ds else (start, ds.length + 1)

/-- A double times a power of ten, by one multiplication or division where the power is a double,
and by steps of `10 ^ 308` below that; none if it overflows. -/
def scaleTen? (x : Binary64) (power : Int) : Option Binary64 :=
  if 308 < power then
    if x.isZero then some x else none
  else if 0 ≤ power then
    let y := x.mul (.ofNat (Nat.pow 10 power.toNat))
    if y.isFinite then some y else none
  else if -308 ≤ power then some (x.div (.ofNat (Nat.pow 10 (-power).toNat)))
  else if x.isZero then some x
  else scaleTen? (x.div (.ofNat (Nat.pow 10 308))) (power + 308)
termination_by (-power).toNat
decreasing_by omega

/-- The double that a number stands for: at most 64 bits of its digits are rounded to a double, which
is then scaled by the power of ten. A whole number below `2 ^ 64` is rounded once. -/
def toBinary64? (n : Numeral) : Option Binary64 :=
  let (whole, left) := significand 0 n.whole
  let (digits, rest) := significand whole n.fraction
  let power := (left : Int) - (n.fraction.length - rest : Nat) + n.power.getD 0
  (scaleTen? (.ofNat digits) power).map fun x => if n.negative then x.neg else x

end Numeral

/-! ### Questions to a source -/

namespace Source

/-- The text of a string. -/
def text? : Source → Option String
  | string s => s
  | _ => none

/-- The value of a truth value. -/
def flag? : Source → Option Bool
  | bool b => some b
  | _ => none

/-- The items of a list. -/
def items : Source → Option (List Source)
  | array items => some items
  | _ => none

/-- The value is `null`. -/
def isNull : Source → Bool
  | null => true
  | _ => false

/-- The only value found under a name: `some none` if there is none, `none` if there are several. -/
def only? {α β : Type} [DecidableEq α] (name : α) (fields : List (α × β)) : Option (Option β) :=
  match fields.filter (·.1 = name) with
  | [] => some none
  | [(_, value)] => some (some value)
  | _ => none

/-- The parts of a record with the given names, each if present. A record is an object in which
none of the names is repeated, other names being passed over, or a list of its first parts. -/
def record? (names : List String) : Source → Option (List (Option Source))
  | object fields =>
    if fields.all (·.1.isSome) then names.mapM fun name => only? (some name) fields else none
  | array items =>
    if items.length ≤ names.length then
      some (items.map some ++ List.replicate (names.length - items.length) none)
    else none
  | _ => none

/-- The case a value names, and what it holds: a string alone, or an object with one field. -/
def variant? : Source → Option (String × Option Source)
  | string (some name) => some (name, none)
  | object [(some name, value)] => some (name, some value)
  | _ => none

mutual

/-- A value that can be kept in full: strings whole, numbers in range, nested at most so deep. -/
def isKept : Nat → Source → Bool
  | _, null => true
  | _, bool _ => true
  | _, number n => n.toBinary64?.isSome
  | _, string s => s.isSome
  | depth, array items => 0 < depth && areKept (depth - 1) items
  | depth, object fields => 0 < depth && fieldsKept (depth - 1) fields

/-- All items can be kept. -/
def areKept (depth : Nat) : List Source → Bool
  | [] => true
  | item :: items => item.isKept depth && areKept depth items

/-- All fields can be kept. -/
def fieldsKept (depth : Nat) : List (Option String × Source) → Bool
  | [] => true
  | (name, value) :: fields => name.isSome && value.isKept depth && fieldsKept depth fields

end

end Source

end SearchFilter.Json
