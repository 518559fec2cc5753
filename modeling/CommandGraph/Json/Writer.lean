/-
CommandGraph/Json/Writer.lean

Writing JSON text, on one line or indented.

Indented text has two spaces per level, a member as `"name": value`, and empty
containers without a line break.  Strings escape quotes, backslashes and control
characters and nothing else.  Doubles have a fraction, or an exponent of ten from
1e16 up and below 1e-5, with the fewest digits that read back.
-/
import CommandGraph.Json.Basic
import CommandGraph.Number.Binary64
import CommandGraph.Number.Decimal

namespace CommandGraph.Json

/-! ### Numbers and strings -/

/-- How doubles are written. -/
def numberLayout : Layout where
  positional exponent := -5 ≤ exponent && exponent < 16
  pointed := true

/-- A finite double as text; anything else is null. -/
def floatChars (x : Float) : List Char :=
  if x.isFinite then numberLayout.chars (Decimal.shortest .even x) else "null".toList

/-- An integer as text. -/
def intChars (n : Int) : List Char :=
  if n < 0 then '-' :: Natural.digits n.natAbs else Natural.digits n.natAbs

/-- A character inside a string. -/
def escape (c : Char) : List Char :=
  match c with
  | '"' => ['\\', '"']
  | '\\' => ['\\', '\\']
  | '\x08' => ['\\', 'b']
  | '\x0c' => ['\\', 'f']
  | '\n' => ['\\', 'n']
  | '\r' => ['\\', 'r']
  | '\t' => ['\\', 't']
  | c =>
    -- two hexadecimal digits are enough for the control characters that are left
    if c.toNat < 0x20 then
      ['\\', 'u', '0', '0', Nat.digitChar (c.toNat / 16), Nat.digitChar (c.toNat % 16)]
    else [c]

/-- A quoted string. -/
def stringChars (s : String) : List Char :=
  '"' :: s.toList.flatMap escape ++ ['"']

/-! ### Containers -/

/-- The layout between the tokens of a container. -/
structure Spacing where
  /-- What stands in front of an item at a given depth, and of the end of the container. -/
  lineBreak : Nat → List Char
  /-- What stands behind a colon. -/
  gap : List Char

/-- Everything on one line. -/
def Spacing.compact : Spacing where
  lineBreak _ := []
  gap := []

/-- One line per item, two spaces per level. -/
def Spacing.indented : Spacing where
  lineBreak depth := '\n' :: List.replicate (2 * depth) ' '
  gap := [' ']

mutual

/-- A value as text, at a given depth. -/
def chars (spacing : Spacing) (depth : Nat) : Json → List Char
  | null | unreadable => "null".toList
  | bool b => if b then "true".toList else "false".toList
  | int n => intChars n
  | float x => floatChars x
  | string s => stringChars s
  | array [] => ['[', ']']
  | array (item :: items) =>
    '[' :: spacing.lineBreak (depth + 1) ++ chars spacing (depth + 1) item ++
      itemChars spacing (depth + 1) items ++ spacing.lineBreak depth ++ [']']
  | object [] => ['\x7b', '\x7d']
  | object ((name, value) :: members) =>
    '\x7b' :: spacing.lineBreak (depth + 1) ++ stringChars name ++ ':' :: spacing.gap ++
      chars spacing (depth + 1) value ++ memberChars spacing (depth + 1) members ++
      spacing.lineBreak depth ++ ['\x7d']

/-- The items behind the first one. -/
def itemChars (spacing : Spacing) (depth : Nat) : List Json → List Char
  | [] => []
  | item :: items =>
    ',' :: spacing.lineBreak depth ++ chars spacing depth item ++ itemChars spacing depth items

/-- The members behind the first one. -/
def memberChars (spacing : Spacing) (depth : Nat) : List (String × Json) → List Char
  | [] => []
  | (name, value) :: members =>
    ',' :: spacing.lineBreak depth ++ stringChars name ++ ':' :: spacing.gap ++
      chars spacing depth value ++ memberChars spacing depth members

end

/-! ### Whole texts -/

/-- A value on one line. -/
def compact (value : Json) : String :=
  String.ofList (value.chars .compact 0)

/-- A value in indented form. -/
def pretty (value : Json) : String :=
  String.ofList (value.chars .indented 0)

end CommandGraph.Json
