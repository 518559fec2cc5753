/-
CommandGraph/Number/Decimal.lean

Numbers in decimal.

Natural numbers stand in keys, counts and node ids: they are written without a sign or leading
zeros, and read with any number of leading zeros as long as the value fits 64 bits.  The digits
of a number denote it (`Natural.ofDigits_digits`).

A number with an exponent is read from a literal: an optional sign, digits with at most one point
and at least one digit, and an optional exponent.  Its double is the nearest one, ties to even;
literals beyond the largest double denote infinity.

A decimal is written positionally, or as one digit, a fraction and a power of ten.  A `Layout`
holds the choices of a format: the exponents (of the first digit) that are written positionally,
and whether a whole number keeps a zero behind the point.
-/

namespace CommandGraph

/-! ### Natural numbers -/

namespace Natural

/-- One past the largest number that is read. -/
def bound : Nat := UInt64.size

/-- The decimal digits of a number. -/
def digits (n : Nat) : List Char :=
  Nat.toDigits 10 n

/-- The number that a list of decimal digits denotes. -/
def ofDigits (cs : List Char) : Nat :=
  cs.foldl (fun n c => 10 * n + (c.toNat - '0'.toNat)) 0

/-- Whether a text consists of decimal digits, at least one. -/
def isDigits (cs : List Char) : Bool :=
  !cs.isEmpty && cs.all Char.isDigit

/-- The number below `bound` that a digit text denotes. -/
def ofDigits? (cs : List Char) : Option Nat :=
  if isDigits cs && ofDigits cs < bound then some (ofDigits cs) else none

/-- Like `ofDigits?`, with a plus sign allowed in front. -/
def ofText? : List Char → Option Nat
  | '+' :: cs => ofDigits? cs
  | cs => ofDigits? cs

/-! ### What is written reads back -/

theorem ofDigits_append_digit (cs : List Char) {d : Nat} (hd : d < 10) :
    ofDigits (cs ++ [d.digitChar]) = 10 * ofDigits cs + d := by
  have h : d.digitChar.toNat - '0'.toNat = d := by
    have : ∀ d : Fin 10, (d : Nat).digitChar.toNat - '0'.toNat = d := by decide
    exact this ⟨d, hd⟩
  simpa [ofDigits] using h

theorem ofDigits_digits (n : Nat) : ofDigits (digits n) = n := by
  induction n using Nat.strongRecOn with
  | ind n ih =>
    unfold digits at *
    rcases Nat.lt_or_ge n 10 with h | h
    · rw [Nat.toDigits_of_lt_base h]
      simpa [ofDigits] using ofDigits_append_digit [] h
    · have e := Nat.toDigits_append_toDigits (b := 10) (n := n / 10) (d := n % 10) (by decide)
        (by omega) (Nat.mod_lt _ (by decide))
      rw [Nat.toDigits_of_lt_base (Nat.mod_lt n (by decide)), Nat.div_add_mod] at e
      rw [← e, ofDigits_append_digit _ (Nat.mod_lt n (by decide)), ih _ (by omega)]
      omega

end Natural

/-! ### Decimals with an exponent -/

/-- The number `± digits * 10 ^ exponent`. -/
structure Decimal where
  negative : Bool := false
  digits : Nat
  exponent : Int := 0
  deriving DecidableEq

namespace Decimal

/-- Exponents that are certain to leave the range of doubles, whatever the digits. -/
def exponentLimit : Nat :=
  400

/-- The double nearest to a number. -/
def toFloat (x : Decimal) : Float :=
  let size : Int := x.exponent + (Natural.digits x.digits).length
  let magnitude : Float :=
    if x.digits == 0 || size < -exponentLimit then 0
    else if size > exponentLimit then 1 / 0
    else Float.ofScientific x.digits (x.exponent < 0) x.exponent.natAbs
  if x.negative then -magnitude else magnitude

/-- A sign in front of the rest of a text. -/
def splitSign : List Char → Bool × List Char
  | '-' :: cs => (true, cs)
  | '+' :: cs => (false, cs)
  | cs => (false, cs)

/-- The exponent that follows the digits of a literal, up to the end of the text. -/
def exponentOf? : List Char → Option Int
  | [] => some 0
  | c :: cs =>
    if c == 'e' || c == 'E' then
      let (negative, power) := splitSign cs
      if Natural.isDigits power then
        some (if negative then -Natural.ofDigits power else Natural.ofDigits power)
      else none
    else none

/-- The number that a literal denotes. -/
def ofChars? (cs : List Char) : Option Decimal := do
  let (negative, cs) := splitSign cs
  let whole := cs.takeWhile Char.isDigit
  let (fraction, rest) := match cs.dropWhile Char.isDigit with
    | '.' :: cs => (cs.takeWhile Char.isDigit, cs.dropWhile Char.isDigit)
    | cs => ([], cs)
  let exponent ← exponentOf? rest
  if whole.isEmpty && fraction.isEmpty then none
  else return {
    negative
    digits := Natural.ofDigits (whole ++ fraction)
    exponent := exponent - fraction.length }

end Decimal

/-! ### Formats -/

/-- The choices of a number format. -/
structure Layout where
  /-- Whether a number whose first digit has this exponent is written positionally. -/
  positional : Int → Bool
  /-- Whether a whole number is written with a zero behind the point. -/
  pointed : Bool

namespace Layout

/-- The digits with a point in front of the last `places`. -/
def withPoint (digits : List Char) (places : Nat) : List Char :=
  let padded := List.replicate (places + 1 - digits.length) '0' ++ digits
  let whole := padded.take (padded.length - places)
  whole ++ '.' :: padded.drop (padded.length - places)

/-- A power of ten with its sign. -/
def power (exponent : Int) : List Char :=
  'e' :: (if exponent < 0 then '-' else '+') :: Natural.digits exponent.natAbs

/-- The magnitude of a number in the given format. -/
def magnitude (layout : Layout) (x : Decimal) : List Char :=
  let digits := Natural.digits x.digits
  let first : Int := if x.digits == 0 then 0 else x.exponent + digits.length - 1
  if layout.positional first then
    if x.exponent < 0 then withPoint digits x.exponent.natAbs
    else
      let whole := digits ++ List.replicate x.exponent.natAbs '0'
      if layout.pointed then whole ++ ['.', '0'] else whole
  else
    match digits with
    | digit :: [] => digit :: power first
    | digit :: fraction => digit :: '.' :: fraction ++ power first
    | [] => []

/-- A number in the given format. -/
def chars (layout : Layout) (x : Decimal) : List Char :=
  if x.negative then '-' :: layout.magnitude x else layout.magnitude x

end Layout

end CommandGraph
