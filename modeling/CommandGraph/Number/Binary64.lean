/-
CommandGraph/Number/Binary64.lean

Doubles as exact numbers.

A finite double is `± mantissa * 2 ^ exponent` with natural mantissa.  Taken apart like
this, the remainder of a division needs no rounding: over the smaller of the two
exponents both operands are integers.

The shortest decimal that reads back is found in the same representation.  A double stands for
all reals that round to it: the interval up to the midpoints to its two neighbours, which belong
to it when the mantissa is even.  On the grid of decimals with `n` digits the candidates are the
two neighbours of the value itself; the least `n` for which one lies in the interval wins, of two
the nearer one.  Everything is computed in quarters of the unit of the mantissa, so that the
midpoints are whole numbers and no rounding enters.
-/
import CommandGraph.Number.Decimal

namespace CommandGraph

/-! ### Mantissa and exponent -/

/-- The number `± mantissa * 2 ^ exponent`. -/
structure Binary64 where
  negative : Bool
  mantissa : Nat
  exponent : Int

namespace Binary64

/-- The exponent of the smallest positive double. -/
def leastExponent : Int :=
  -1074

/-- The leading bit of a mantissa, 2^52, which the bits of a normal double leave out. -/
def hiddenBit : Nat :=
  4503599627370496

/-- One past the largest exponent field of 11 bits. -/
def exponentFields : Nat :=
  2048

/-- The sign, mantissa and exponent of a double that is neither infinite nor NaN. -/
def ofFloat (x : Float) : Binary64 :=
  let bits := x.toBits.toNat
  let fraction := bits % hiddenBit
  let biased := bits / hiddenBit % exponentFields
  { negative := bits / (hiddenBit * exponentFields) == 1
    -- subnormal doubles have no hidden bit, and the exponent of the smallest normal ones
    mantissa := if biased == 0 then fraction else hiddenBit + fraction
    exponent := leastExponent + (biased - 1 : Nat) }

/-- The double that a number with a mantissa below 2^53 denotes. -/
def toFloat (x : Binary64) : Float :=
  let magnitude := (Float.ofNat x.mantissa).scaleB x.exponent
  if x.negative then -magnitude else magnitude

/-- The remainder of a division that rounds the quotient toward zero. -/
def rem (x y : Binary64) : Binary64 :=
  let exponent := min x.exponent y.exponent
  let units (z : Binary64) := z.mantissa * Nat.pow 2 (z.exponent - exponent).toNat
  { negative := x.negative, mantissa := units x % units y, exponent }

end Binary64

/-- The remainder of a division that rounds the quotient toward zero; it has the sign of the
dividend. -/
def remainder (x y : Float) : Float :=
  if x.isNaN || y.isNaN || x.isInf then 0 / 0
  else if y.isInf then x
  else ((Binary64.ofFloat x).rem (Binary64.ofFloat y)).toFloat

/-! ### The shortest decimal -/

/-- Which of two equally near candidates is taken. -/
inductive Tie where
  | up
  | even

/-- A positive fraction. -/
structure Ratio where
  num : Nat
  den : Nat

namespace Ratio

/-- The fraction times a power of ten. -/
def scale (x : Ratio) (power : Int) : Ratio :=
  let factor := Nat.pow 10 power.natAbs
  if power < 0 then ⟨x.num, x.den * factor⟩ else ⟨x.num * factor, x.den⟩

def floor (x : Ratio) : Nat :=
  x.num / x.den

/-- The least `j` from `start` on with `1 ≤ x * 10 ^ j`, looked for in `steps` steps. -/
def leadingZeros (x : Ratio) (start : Nat) : Nat → Nat
  | 0 => start
  | steps + 1 =>
    if x.den ≤ x.num * Nat.pow 10 start then start else leadingZeros x (start + 1) steps

/-- The `k` with `10 ^ (k - 1) ≤ x < 10 ^ k`. -/
def magnitude (x : Ratio) : Int :=
  if x.den ≤ x.num then (Natural.digits x.floor).length
  else 1 - (leadingZeros x 1 Decimal.exponentLimit : Int)

end Ratio

/-- The reals that round to a positive double, between two fractions with one denominator. -/
structure Neighbourhood where
  low : Nat
  value : Nat
  high : Nat
  den : Nat
  /-- Whether the two ends round to the double, too. -/
  closed : Bool

namespace Neighbourhood

/-- The interval of a positive double.  Below a power of two the neighbour is half as far. -/
def ofBinary64 (x : Binary64) : Neighbourhood :=
  -- in quarters of the mantissa's unit a midpoint is one or two away from the value
  let unit := x.exponent - 2
  let factor := if unit < 0 then 1 else Nat.pow 2 unit.natAbs
  let below :=
    if x.mantissa == Binary64.hiddenBit && Binary64.leastExponent < x.exponent then 1 else 2
  { low := (4 * x.mantissa - below) * factor
    value := 4 * x.mantissa * factor
    high := (4 * x.mantissa + 2) * factor
    den := if unit < 0 then Nat.pow 2 unit.natAbs else 1
    closed := x.mantissa % 2 == 0 }

/-- Whether `count * 10 ^ power` lies in the interval. -/
def holds (i : Neighbourhood) (count : Nat) (power : Int) : Bool :=
  let point := Ratio.scale ⟨count, 1⟩ power
  let low := i.low * point.den
  let high := i.high * point.den
  let middle := point.num * i.den
  if i.closed then low ≤ middle && middle ≤ high else low < middle && middle < high

/-- The multiple of `10 ^ power` next to the value that lies in the interval, if one does. -/
def onGrid? (i : Neighbourhood) (tie : Tie) (power : Int) : Option Nat :=
  let scaled := Ratio.scale ⟨i.value, i.den⟩ (-power)
  let below := scaled.floor
  let rest := scaled.num % scaled.den
  let nearer := match compare (2 * rest) scaled.den with
    | .lt => below
    | .gt => below + 1
    | .eq => match tie with
      | .up => below + 1
      | .even => if below % 2 == 0 then below else below + 1
  -- the farther neighbour is in the interval alone where this is narrower on the nearer side
  let other := if nearer == below then below + 1 else below
  if i.holds nearer power then some nearer
  else if i.holds other power then some other
  else none

/-- The first decimal in the interval among those with `count`, `count + 1`, … digits, looked
for in `steps` steps. -/
def search (i : Neighbourhood) (tie : Tie) (magnitude : Int) (count : Nat) : Nat → Decimal
  | 0 => { digits := 0 }
  | steps + 1 =>
    match i.onGrid? tie (magnitude - count) with
    | some digits => { digits, exponent := magnitude - count }
    | none => search i tie magnitude (count + 1) steps

end Neighbourhood

/-- Moves trailing zeros of the digits into the exponent, at most `steps` of them. -/
def Decimal.strip (x : Decimal) : Nat → Decimal
  | 0 => x
  | steps + 1 =>
    if x.digits != 0 && x.digits % 10 == 0 then
      strip { x with digits := x.digits / 10, exponent := x.exponent + 1 } steps
    else x

/-- The shortest decimal that reads back as a finite double.  Seventeen digits always do. -/
def Decimal.shortest (tie : Tie) (x : Float) : Decimal :=
  let parts := Binary64.ofFloat x
  if parts.mantissa == 0 then { negative := parts.negative, digits := 0 }
  else
    let i := Neighbourhood.ofBinary64 parts
    let found := i.search tie (Ratio.magnitude ⟨i.value, i.den⟩) 1 17
    { found.strip 20 with negative := parts.negative }

end CommandGraph
