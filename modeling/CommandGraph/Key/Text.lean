/-
CommandGraph/Key/Text.lean

The text form of keys: segments joined by slashes.

A position is written in decimal, the bracket parameter as `@param`, a marker with a
leading `#`, and a name as it is, with a backslash before every slash and backslash in
it.  A name that could be read as one of the other kinds (decimal digits only, or a
first character `#` or `@`) gets a backslash in front.

Reading first splits the text into pieces at the slashes that stand alone and removes
the escapes; a piece whose first character was escaped is a name, whatever it holds.
Any other piece is read by its shape.  The empty text is the root.
-/
import CommandGraph.Key.Basic
import CommandGraph.Number.Decimal

namespace CommandGraph

namespace Marker

/-- The written form of a marker. -/
def text : Marker → String
  | enabled => "#enabled"
  | count => "#count"
  | result => "#result"
  | flow => "#flow"

/-- The marker with the given written form. -/
def ofText? (text : String) : Option Marker :=
  [enabled, count, result, flow].find? (·.text == text)

@[simp] theorem ofText?_text (m : Marker) : ofText? m.text = some m := by
  cases m <;> rfl

end Marker

/-- The written form of the bracket parameter. -/
def arrayParamText : String :=
  "@param"

namespace Segment

/-- Whether a name starts like a marker or a parameter. -/
def isSigil (c : Char) : Bool :=
  c == '#' || c == '@'

/-- Whether a name needs a leading escape to be read as a name. -/
def isAmbiguous (name : List Char) : Bool :=
  name.head?.any isSigil || Natural.isDigits name

/-- Slashes and backslashes of a name, escaped. -/
def escapeSeparators (name : List Char) : List Char :=
  name.flatMap fun c => if c == '/' || c == '\\' then ['\\', c] else [c]

/-- The written form of a segment. -/
def chars : Segment → List Char
  | ordinal index => Natural.digits index
  | name text =>
    let escaped := escapeSeparators text.toList
    if isAmbiguous text.toList then '\\' :: escaped else escaped
  | arrayParam => arrayParamText.toList
  | marker m => m.text.toList

end Segment

namespace Key

/-- The written form of a key, as characters. -/
def chars (key : Key) : List Char :=
  ['/'].intercalate (key.segments.map Segment.chars)

/-- The written form of a key. -/
def text (key : Key) : String :=
  String.ofList key.chars

/-! ### Reading -/

/-- The characters between two separators, escapes removed. -/
structure Piece where
  body : List Char := []
  /-- Whether the first character was escaped. -/
  literal : Bool := false

/-- A piece with one more character in front. -/
def Piece.cons (c : Char) (escaped : Bool) (piece : Piece) : Piece where
  body := c :: piece.body
  literal := escaped

/-- The pieces of a text, the first one apart.  A text that ends inside an escape has none. -/
def pieces? : List Char → Option (Piece × List Piece)
  | [] => some ({}, [])
  | '\\' :: [] => none
  | '\\' :: c :: rest => (pieces? rest).map fun (first, others) => (first.cons c true, others)
  | '/' :: rest => (pieces? rest).map fun (first, others) => ({}, first :: others)
  | c :: rest => (pieces? rest).map fun (first, others) => (first.cons c false, others)

/-- The segment that a piece stands for. -/
def Piece.segment? (piece : Piece) : Option Segment :=
  let text := String.ofList piece.body
  if piece.literal then some (.name text)
  else if text == arrayParamText then some .arrayParam
  else match Marker.ofText? text with
    | some m => some (.marker m)
    | none =>
      if Natural.isDigits piece.body then (Natural.ofDigits? piece.body).map .ordinal
      else match piece.body with
        | [] => none
        | c :: _ => if Segment.isSigil c then none else some (.name text)

/-- The key that a text denotes, if it is well formed. -/
def ofChars? : List Char → Option Key
  | [] => some root
  | cs => do
    let (first, others) ← pieces? cs
    let segments ← (first :: others).mapM Piece.segment?
    return ⟨segments⟩

/-- A text that denotes no key. -/
structure Malformed where
  text : String
  deriving DecidableEq

/-- How a malformed key is reported. -/
def Malformed.message (e : Malformed) : String :=
  "malformed argument key '" ++ e.text ++ "'"

/-- The key that a text denotes. -/
def ofText (text : String) : Except Malformed Key :=
  match ofChars? text.toList with
  | some key => .ok key
  | none => .error ⟨text⟩

end Key

end CommandGraph
