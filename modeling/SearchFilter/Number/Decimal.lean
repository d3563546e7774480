import SearchFilter.Number.Binary64

/-!
# Decimal numbers

A decimal number `± coefficient * 10 ^ exponent`: reading one from text, rounding it to double
precision, and the two layouts it is written in.
-/

namespace SearchFilter

/-- A decimal number `± coefficient * 10 ^ exponent`. -/
structure Decimal where
  /-- The number is below zero, or is a negative zero. -/
  negative : Bool
  /-- The digits, read as one natural. -/
  coefficient : Nat
  /-- The power of ten of the last digit. -/
  exponent : Int
  deriving DecidableEq

/-! ### Digits -/

namespace Digits

/-- The digit a character stands for. -/
def value (c : Char) : Nat := c.toNat - '0'.toNat

/-- The natural a run of digits stands for. -/
def toNat (ds : List Char) : Nat := ds.foldl (fun n d => 10 * n + value d) 0

/-- The decimal digits of a natural, `0` for zero. -/
def ofNat (n : Nat) : List Char := Nat.toDigits 10 n

/-- The decimal digits of an integer, after a minus sign if it is below zero. -/
def ofInt : Int → List Char
  | .ofNat n => ofNat n
  | .negSucc n => '-' :: ofNat (n + 1)

/-- The digits at the front of a text, and what follows them. -/
def span (cs : List Char) : List Char × List Char :=
  (cs.takeWhile Char.isDigit, cs.dropWhile Char.isDigit)

/-- The value of a hexadecimal digit. -/
def hexValue? (c : Char) : Option Nat :=
  if c.isDigit then some (c.toNat - 48)
  else if 'a' ≤ c ∧ c ≤ 'f' then some (c.toNat - 87)
  else if 'A' ≤ c ∧ c ≤ 'F' then some (c.toNat - 55)
  else none

/-- The natural that hexadecimal digits stand for. -/
def hexToNat? (ds : List Char) : Option Nat :=
  ds.foldlM (fun n d => (hexValue? d).map (16 * n + ·)) 0

end Digits

/-! ### Reading -/

/-- An optional sign at the front of a text. -/
def readSign : List Char → Bool × List Char
  | '-' :: cs => (true, cs)
  | '+' :: cs => (false, cs)
  | cs => (false, cs)

/-- A whole number: an optional sign, then one or more digits and nothing else. -/
def readInteger? (cs : List Char) : Option Int :=
  let (negative, ds) := readSign cs
  if ds ≠ [] ∧ ds.all Char.isDigit then
    some (if negative then -(Digits.toNat ds : Int) else Digits.toNat ds)
  else none

namespace Decimal

/-- The power of ten after the digits: nothing, or `e` or `E`, an optional sign and digits. -/
def readExponent? : List Char → Option Int
  | [] => some 0
  | c :: cs => if c = 'e' ∨ c = 'E' then readInteger? cs else none

/-- A decimal number: an optional sign, digits with an optional point among or around them, and an
optional power of ten. -/
def read? (cs : List Char) : Option Decimal := do
  let (negative, cs) := readSign cs
  let (whole, cs) := Digits.span cs
  let (fraction, cs) :=
    match cs with
    | '.' :: cs => Digits.span cs
    | cs => ([], cs)
  if whole ++ fraction = [] then none
  else
    let power ← readExponent? cs
    pure ⟨negative, Digits.toNat (whole ++ fraction), power - fraction.length⟩

/-! ### Rounding to double precision -/

/-- The double nearest to a decimal number, infinite if it is too large. Numbers outside
`10 ^ ± 400` are settled by their size alone. -/
def toBinary64 (d : Decimal) : Binary64 :=
  let size : Int := d.exponent + (Digits.ofNat d.coefficient).length
  if d.coefficient = 0 ∨ size < -400 then .zero d.negative
  else if 400 < size then .infinity d.negative
  else
    .ofRatio d.negative (d.coefficient * Nat.pow 10 d.exponent.toNat)
      (Nat.pow 10 (-d.exponent).toNat)

/-! ### Writing -/

/-- A minus sign if wanted. -/
def signText (negative : Bool) : List Char := if negative then ['-'] else []

/-- The digits around a decimal point, never with a power of ten; `tail` ends a whole number. -/
def positional (d : Decimal) (tail : List Char) : List Char :=
  let ds := Digits.ofNat d.coefficient
  let places := (-d.exponent).toNat
  signText d.negative ++
    if 0 ≤ d.exponent then ds ++ List.replicate d.exponent.toNat '0' ++ tail
    else if places < ds.length then
      ds.take (ds.length - places) ++ '.' :: ds.drop (ds.length - places)
    else '0' :: '.' :: List.replicate (places - ds.length) '0' ++ ds

/-- One digit, a point and the other digits if there are any, then the power of ten with its sign. -/
def scientific (d : Decimal) : List Char :=
  let ds := Digits.ofNat d.coefficient
  let power : Int := d.exponent + ds.length - 1
  signText d.negative ++ ds.take 1 ++
    (if ds.length ≤ 1 then [] else '.' :: ds.drop 1) ++
    'e' :: (if power < 0 then '-' else '+') :: Digits.ofNat power.natAbs

end Decimal

end SearchFilter
