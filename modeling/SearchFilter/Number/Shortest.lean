import SearchFilter.Number.Decimal

/-!
# Shortest decimals

The decimal number with the fewest digits among those that round to a given double, and of those
the nearest to it. The texts of a double follow: plain text never has a power of ten, JSON text has
one for very small and very large numbers.
-/

namespace SearchFilter

/-- Which of two equally near decimals is taken. -/
inductive Tie where
  /-- The one farther from zero. -/
  | up
  /-- The one with the even last digit. -/
  | even
  deriving DecidableEq

namespace Binary64

/-- The reals that round to a double, sign apart, as quotients by one denominator. -/
structure Rounding where
  /-- The double itself. -/
  value : Nat
  /-- The least real that may round to it. -/
  low : Nat
  /-- The greatest real that may round to it. -/
  high : Nat
  /-- The common denominator. -/
  den : Nat
  /-- Both ends round to the double too. -/
  closed : Bool

/-- The reals that round to a finite double: half way to each neighbour, and the ends if the
significand is even. Below a power of two the neighbours are twice as dense. -/
def rounding (x : Binary64) : Rounding :=
  let m := x.significand
  let (unit, den) := scaleTwo 1 1 (x.exponent - 2)
  let below := if x.fractionField = 0 ∧ 1 < x.exponentField then 1 else 2
  ⟨4 * m * unit, (4 * m - below) * unit, (4 * m + 2) * unit, den, m % 2 = 0⟩

/-- A multiple of the grid step lies among the reals of a rounding. -/
def Rounding.contains (r : Rounding) (step : Nat) (c : Nat) : Bool :=
  if r.closed then r.low ≤ c * step && c * step ≤ r.high
  else r.low < c * step && c * step < r.high

/-- A rounding in units of `10 ^ power`: the numerators are scaled so that the grid step is the
new denominator. -/
def Rounding.onGrid (r : Rounding) (power : Int) : Rounding :=
  let up := Nat.pow 10 (-power).toNat
  ⟨r.value * up, r.low * up, r.high * up, r.den * Nat.pow 10 power.toNat, r.closed⟩

/-- The multiple of `10 ^ power` that rounds to the double and is nearest to it, of the two around
it. -/
def Rounding.nearest? (r : Rounding) (tie : Tie) (power : Int) : Option Nat :=
  let g := r.onGrid power
  let c := g.value / g.den
  let up := g.value - c * g.den
  let down := (c + 1) * g.den - g.value
  match g.contains g.den c, g.contains g.den (c + 1) with
  | false, false => none
  | true, false => some c
  | false, true => some (c + 1)
  | true, true =>
    if up < down then some c
    else if down < up then some (c + 1)
    else match tie with
      | .up => some (c + 1)
      | .even => some (c + c % 2)

/-- The least power of ten that is tried: every double has a decimal of seventeen digits. -/
def leastPower : Int := -345

/-- The coarsest grid `10 ^ power` that holds a decimal rounding to the double, from `steps` above
the least power downwards. -/
def Rounding.coarsest (r : Rounding) (tie : Tie) : Nat → Nat × Int
  | 0 => ((r.nearest? tie leastPower).getD 0, leastPower)
  | steps + 1 =>
    match r.nearest? tie (leastPower + (steps + 1 : Nat)) with
    | some c => (c, leastPower + (steps + 1 : Nat))
    | none => r.coarsest tie steps

/-- The shortest decimal of a finite double. -/
def shortest (tie : Tie) (x : Binary64) : Decimal :=
  if x.isZero then ⟨x.negative, 0, 0⟩
  else
    let (c, power) := x.rounding.coarsest tie 655
    ⟨x.negative, c, power⟩

/-! ### Texts -/

/-- The plain text of a double: shortest digits, no power of ten, no point in a whole number. -/
def toText (x : Binary64) : List Char :=
  if x.isNaN then "NaN".toList
  else if x.isFinite then (x.shortest .up).positional []
  else Decimal.signText x.negative ++ "inf".toList

/-- The JSON text of a finite double: positional from `10 ^ -5` to below `10 ^ 16`, with `.0` after a
whole number, and scientific outside. -/
def toJsonText (x : Binary64) : List Char :=
  let d := x.shortest .even
  let power : Int := d.exponent + (Digits.ofNat d.coefficient).length - 1
  if -5 ≤ power ∧ power < 16 then d.positional ['.', '0'] else d.scientific

/-- The double a plain text stands for: a decimal number, an infinity, or a NaN. -/
def ofText? (cs : List Char) : Option Binary64 :=
  let (negative, rest) := readSign cs
  if rest = "inf".toList then some (.infinity negative)
  else if cs = "NaN".toList then some nan
  else (Decimal.read? cs).map Decimal.toBinary64

end Binary64

end SearchFilter
