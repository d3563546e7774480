/-!
# Double-precision numbers

A number of the IEEE 754 binary64 format is kept as its 64 bits, so every value of the type is a
number of the format. Arithmetic is exact on naturals, followed by one rounding to the nearest
number, a tie going to the even one.
-/

namespace SearchFilter

/-- A double-precision number, by its bits. -/
structure Binary64 where
  /-- Sign, eleven bits of exponent, fifty-two of fraction. -/
  bits : UInt64
  deriving DecidableEq

namespace Binary64

/-! ### Fields -/

/-- The sign bit is set. -/
def negative (x : Binary64) : Bool := Nat.pow 2 63 ≤ x.bits.toNat

/-- The eleven exponent bits. -/
def exponentField (x : Binary64) : Nat := x.bits.toNat / Nat.pow 2 52 % Nat.pow 2 11

/-- The fifty-two fraction bits. -/
def fractionField (x : Binary64) : Nat := x.bits.toNat % Nat.pow 2 52

/-- Neither infinite nor a NaN. -/
def isFinite (x : Binary64) : Bool := x.exponentField < 2047

/-- Not a number. -/
def isNaN (x : Binary64) : Bool := x.exponentField = 2047 && x.fractionField ≠ 0

/-- Of a finite number, the natural `m` with value `± m * 2 ^ exponent`. -/
def significand (x : Binary64) : Nat :=
  if x.exponentField = 0 then x.fractionField else Nat.pow 2 52 + x.fractionField

/-- Of a finite number, the power of two of the last significand bit. -/
def exponent (x : Binary64) : Int := max 1 (x.exponentField : Int) - 1075

/-- Positive or negative zero. -/
def isZero (x : Binary64) : Bool := x.exponentField = 0 && x.fractionField = 0

/-- The number with the given sign whose other bits, read as a natural, are `magnitude`; a magnitude
past infinity is infinity. -/
def ofMagnitude (negative : Bool) (magnitude : Nat) : Binary64 :=
  ⟨UInt64.ofNat ((if negative then Nat.pow 2 63 else 0) + min magnitude (2047 * Nat.pow 2 52))⟩

/-- Zero of a sign. -/
def zero (negative : Bool) : Binary64 := ofMagnitude negative 0

/-- Infinity of a sign. -/
def infinity (negative : Bool) : Binary64 := ofMagnitude negative (2047 * Nat.pow 2 52)

/-- The quiet NaN. -/
def nan : Binary64 := ⟨UInt64.ofNat (2047 * Nat.pow 2 52 + Nat.pow 2 51)⟩

/-- The number with the other sign. -/
def neg (x : Binary64) : Binary64 :=
  ⟨UInt64.ofNat ((x.bits.toNat + Nat.pow 2 63) % Nat.pow 2 64)⟩

/-! ### Rounding -/

/-- A quotient rounded to the nearest natural, a tie going to the even one. -/
def roundDiv (num den : Nat) : Nat :=
  let q := num / den
  let r := num % den
  if 2 * r < den then q
  else if 2 * r = den then q + q % 2
  else q + 1

/-- A natural times a power of two, for a power that need not be positive: the pair to divide. -/
def scaleTwo (num den : Nat) (power : Int) : Nat × Nat :=
  (num * Nat.pow 2 power.toNat, den * Nat.pow 2 (-power).toNat)

/-- The greatest `k` with `2 ^ k ≤ num / den`, for a positive quotient. -/
def binade (num den : Nat) : Int :=
  let k : Int := (num.log2 : Int) - den.log2
  let (n, d) := scaleTwo num den (-k)
  if d ≤ n then k else k - 1

/-- The number of a sign nearest to the quotient of two naturals. -/
def ofRatio (negative : Bool) (num den : Nat) : Binary64 :=
  if num = 0 then zero negative
  else
    let unit : Int := max (-1074) (binade num den - 52)
    let (n, d) := scaleTwo num den (-unit)
    ofMagnitude negative ((unit + 1074).toNat * Nat.pow 2 52 + roundDiv n d)

/-- The number nearest to a natural. -/
def ofNat (n : Nat) : Binary64 := ofRatio false n 1

/-- The value of a finite number, sign apart, as a quotient. -/
def ratio (x : Binary64) : Nat × Nat := scaleTwo x.significand 1 x.exponent

/-- The product of two finite numbers. -/
def mul (x y : Binary64) : Binary64 :=
  ofRatio (x.negative != y.negative) (x.ratio.1 * y.ratio.1) (x.ratio.2 * y.ratio.2)

/-- The quotient of a finite number by a finite number other than zero. -/
def div (x y : Binary64) : Binary64 :=
  ofRatio (x.negative != y.negative) (x.ratio.1 * y.ratio.2) (x.ratio.2 * y.ratio.1)

end Binary64

end SearchFilter
