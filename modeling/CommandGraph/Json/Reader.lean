/-
CommandGraph/Json/Reader.lean

Reading JSON text.

The grammar is strict: no trailing commas, comments, control characters inside strings
or text behind the value.  Containers may be nested 127 deep; deeper ones are read to
their end and are `unreadable`, like numbers that are too large and strings with half
a surrogate pair.

A number literal without fraction and exponent that fits 64 bits, signed or unsigned, is an
integer; a negative zero is not.  All others are doubles, found in two steps: as many
leading digits as fit 64 bits form the significand (the digits behind them only count
toward the exponent), and the significand is multiplied or divided by a power of ten.
The result is the nearest double whenever both steps are exact, and close to it
otherwise; a literal beyond the largest double denotes no value.

`value?` reads a value from the front of a text and returns what follows it.  Every step
consumes a character, so that the length of the text is fuel enough.
-/
import CommandGraph.Json.Basic
import CommandGraph.Number.Decimal

namespace CommandGraph

/-! ### Values of number literals -/

namespace Json

/-- The parts of a number literal. -/
structure Literal where
  negative : Bool
  whole : List Char
  fraction : List Char
  /-- The power of ten behind the digits, if one is written. -/
  power : Option Int

/-- Appends digits to a number as long as it fits 64 bits; the digits left over. -/
def absorb (n : Nat) : List Char → Nat × List Char
  | [] => (n, [])
  | c :: cs =>
    let next := 10 * n + (c.toNat - '0'.toNat)
    if next < Natural.bound then absorb next cs else (n, c :: cs)

/-- The largest exponent of ten of a double. -/
def largestPower : Nat :=
  308

/-- A power of ten up to the largest. -/
def powerOfTen (n : Nat) : Float :=
  Float.ofScientific 1 false n

/-- Divides by a power of ten, in steps of the largest one. -/
def scaleDown (x : Float) (power : Nat) : Float :=
  if power ≤ largestPower then x / powerOfTen power
  else if x == 0 then x
  else scaleDown (x / powerOfTen largestPower) (power - largestPower)
termination_by power
decreasing_by simp only [largestPower] at *; omega

/-- A significand times a power of ten, unless it is beyond the largest double. -/
def scale? (significand : Nat) (power : Int) : Option Float :=
  let x := Float.ofNat significand
  if power ≤ 0 then some (scaleDown x power.natAbs)
  else if power.natAbs ≤ largestPower then
    let scaled := x * powerOfTen power.natAbs
    if scaled.isInf then none else some scaled
  else if significand == 0 then some x
  else none

namespace Literal

/-- The double that a literal denotes. -/
def float? (literal : Literal) : Option Float :=
  let (leading, dropped) := absorb 0 literal.whole
  let (significand, rest) := absorb leading literal.fraction
  -- digits dropped in front of the point raise the power, those kept behind it lower it
  let places : Int := dropped.length - (literal.fraction.length - rest.length : Nat)
  (scale? significand (places + literal.power.getD 0)).map fun x =>
    if literal.negative then -x else x

/-- The integer that a literal denotes, if it is written as one and fits 64 bits. -/
def int? (literal : Literal) : Option Int :=
  let n := Natural.ofDigits literal.whole
  if !literal.fraction.isEmpty || literal.power.isSome then none
  -- a negative zero keeps its sign as a double
  else if literal.negative then if 0 < n && Int64.minValue.toInt ≤ -n then some (-n) else none
  else if n < Natural.bound then some n
  else none

/-- The value of a literal. -/
def value (literal : Literal) : Json :=
  match literal.int? with
  | some n => .int n
  | none => match literal.float? with
    | some x => .float x
    | none => .unreadable

end Literal

/-! ### Layout -/

/-- How deep containers may be nested. -/
def depthLimit : Nat :=
  127

/-- The four characters that may stand between tokens. -/
def isLayout (c : Char) : Bool :=
  c == ' ' || c == '\n' || c == '\t' || c == '\r'

/-- A text without the layout in front. -/
def skipLayout (cs : List Char) : List Char :=
  cs.dropWhile isLayout

/-! ### Strings -/

/-- The value of a hexadecimal digit. -/
def hexDigit? (c : Char) : Option Nat :=
  if c.isDigit then some (c.toNat - '0'.toNat)
  else if 'a' ≤ c ∧ c ≤ 'f' then some (c.toNat - 'a'.toNat + 10)
  else if 'A' ≤ c ∧ c ≤ 'F' then some (c.toNat - 'A'.toNat + 10)
  else none

/-- The number written by four hexadecimal digits. -/
def hexUnit? (a b c d : Char) : Option Nat := do
  return 4096 * (← hexDigit? a) + 256 * (← hexDigit? b) + 16 * (← hexDigit? c) + (← hexDigit? d)

/-- Whether a code unit is the first half of a surrogate pair. -/
def isLeading (unit : Nat) : Bool :=
  0xD800 ≤ unit && unit < 0xDC00

/-- Whether a code unit is the second half of a surrogate pair. -/
def isTrailing (unit : Nat) : Bool :=
  0xDC00 ≤ unit && unit < 0xE000

/-- The character that a surrogate pair stands for. -/
def ofPair (leading trailing : Nat) : Char :=
  Char.ofNat (0x10000 + 1024 * (leading - 0xD800) + (trailing - 0xDC00))

/-- The character behind a backslash, other than `u`, stands for this one. -/
def unescape? : Char → Option Char
  | '"' => some '"'
  | '\\' => some '\\'
  | '/' => some '/'
  | 'b' => some '\x08'
  | 'f' => some '\x0c'
  | 'n' => some '\n'
  | 'r' => some '\r'
  | 't' => some '\t'
  | _ => none

/-- A character of a string, or a code unit written in hexadecimal. -/
inductive Part where
  | char (c : Char)
  | unit (n : Nat)

/-- Puts a part in front of the parts that have been read. -/
def consPart (part : Part) : List Part × List Char → List Part × List Char
  | (parts, rest) => (part :: parts, rest)

/-- Reads a string behind its opening quote. -/
def parts? : List Char → Option (List Part × List Char)
  | [] => none
  | '"' :: rest => some ([], rest)
  | '\\' :: 'u' :: a :: b :: c :: d :: rest =>
    match hexUnit? a b c d with
    | some unit => (parts? rest).map (consPart (.unit unit))
    | none => none
  | '\\' :: c :: rest =>
    match unescape? c with
    | some escaped => (parts? rest).map (consPart (.char escaped))
    | none => none
  | c :: rest =>
    if c.toNat < 0x20 then none else (parts? rest).map (consPart (.char c))

/-- The characters that the parts of a string stand for, unless there is half a pair. -/
def join? : List Part → Option (List Char)
  | [] => some []
  | .char c :: parts => (join? parts).map (c :: ·)
  | .unit leading :: .unit trailing :: parts =>
    if isLeading leading && isTrailing trailing then
      (join? parts).map (ofPair leading trailing :: ·)
    else if isLeading leading || isTrailing leading then none
    else (join? (.unit trailing :: parts)).map (Char.ofNat leading :: ·)
  | .unit unit :: parts =>
    if isLeading unit || isTrailing unit then none
    else (join? parts).map (Char.ofNat unit :: ·)

/-- The text of a string that has been read. -/
def text? (parts : List Part) : Option String :=
  (join? parts).map String.ofList

/-! ### Numbers -/

/-- The digits in front of a text, at least one. -/
def digits? (cs : List Char) : Option (List Char × List Char) :=
  match cs.takeWhile Char.isDigit with
  | [] => none
  | digits => some (digits, cs.dropWhile Char.isDigit)

/-- The part of a number in front of the point: without leading zeros. -/
def whole? : List Char → Option (List Char × List Char)
  | '0' :: rest => some (['0'], rest)
  | cs => digits? cs

/-- The digits behind a point, if there is one. -/
def fraction? : List Char → Option (List Char × List Char)
  | '.' :: rest => digits? rest
  | cs => some ([], cs)

/-- The exponent, if there is one. -/
def power? : List Char → Option (Option Int × List Char)
  | [] => some (none, [])
  | c :: cs =>
    if c == 'e' || c == 'E' then
      let (negative, rest) := match cs with
        | '-' :: rest => (true, rest)
        | '+' :: rest => (false, rest)
        | rest => (false, rest)
      (digits? rest).map fun (digits, rest) =>
        let n : Int := Natural.ofDigits digits
        (some (if negative then -n else n), rest)
    else some (none, c :: cs)

/-- Reads a number. -/
def number? (cs : List Char) : Option (Json × List Char) := do
  let (negative, cs) := match cs with
    | '-' :: rest => (true, rest)
    | rest => (false, rest)
  let (whole, cs) ← whole? cs
  let (fraction, cs) ← fraction? cs
  let (power, cs) ← power? cs
  return (Literal.value { negative, whole, fraction, power }, cs)

/-! ### Values -/

/-- Reads items separated by commas, up to and including a closing character. -/
def separated? {α : Type} (read : List Char → Option (α × List Char)) (close : Char) :
    Nat → List Char → Option (List α × List Char)
  | 0, _ => none
  | fuel + 1, cs =>
    match read cs with
    | none => none
    | some (item, rest) =>
      match skipLayout rest with
      | [] => none
      | c :: rest =>
        if c == ',' then
          (separated? read close fuel (skipLayout rest)).map fun (items, rest) =>
            (item :: items, rest)
        else if c == close then some ([item], rest)
        else none

/-- Reads a member of an object: its name, if that is readable, and its value. -/
def member? (read : List Char → Option (Json × List Char)) :
    List Char → Option ((Option String × Json) × List Char)
  | '"' :: rest =>
    match parts? rest with
    | none => none
    | some (parts, rest) =>
      match skipLayout rest with
      | ':' :: rest => (read (skipLayout rest)).map fun (value, rest) =>
        ((text? parts, value), rest)
      | _ => none
  | _ => none

/-- A container with room for so many levels, itself included. -/
def bounded (room : Nat) (value : Json) : Json :=
  if room = 0 then .unreadable else value

/-- An object with the given members, if their names are readable. -/
def ofMembers (members : List (Option String × Json)) : Json :=
  match members.mapM fun (name, value) => name.map (·, value) with
  | some members => .object members
  | none => .unreadable

/-- Reads the value at the front of a text. -/
def value? : Nat → Nat → List Char → Option (Json × List Char)
  | 0, _, _ => none
  | fuel + 1, room, cs =>
    match cs with
    | 'n' :: 'u' :: 'l' :: 'l' :: rest => some (.null, rest)
    | 't' :: 'r' :: 'u' :: 'e' :: rest => some (.bool true, rest)
    | 'f' :: 'a' :: 'l' :: 's' :: 'e' :: rest => some (.bool false, rest)
    | '"' :: rest => (parts? rest).map fun (parts, rest) =>
      ((text? parts).elim .unreadable .string, rest)
    -- without room the items are read all the same, so that faults in them are found
    | '[' :: rest =>
      match skipLayout rest with
      | ']' :: rest => some (bounded room (.array []), rest)
      | rest => (separated? (value? fuel (room - 1)) ']' fuel rest).map fun (items, rest) =>
        (bounded room (.array items), rest)
    | '\x7b' :: rest =>
      match skipLayout rest with
      | '\x7d' :: rest => some (bounded room (.object []), rest)
      | rest =>
        (separated? (member? (value? fuel (room - 1))) '\x7d' fuel rest).map fun (members, rest) =>
          (bounded room (ofMembers members), rest)
    | cs => number? cs

/-- The value that a text denotes. -/
def ofChars? (cs : List Char) : Option Json :=
  match value? (cs.length + 1) depthLimit (skipLayout cs) with
  | some (value, rest) => if (skipLayout rest).isEmpty then some value else none
  | none => none

/-- The value that a text denotes. -/
def ofText? (text : String) : Option Json :=
  ofChars? text.toList

end Json

end CommandGraph
