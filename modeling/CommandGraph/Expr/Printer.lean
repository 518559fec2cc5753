/-
CommandGraph/Expr/Printer.lean

Writing expressions, with parentheses only where the precedences ask for them.

Binary operators associate to the left, so that a right operand of the same precedence
is put in parentheses.  Texts are quoted, and everything in them that could be misread is
escaped: quotes, backslashes and the common control characters have short escapes; other
characters without a glyph, and marks that would attach themselves to the character before
them, are written by their code point.
-/
import CommandGraph.Expr.Basic
import CommandGraph.Text.Unprintable

namespace CommandGraph

/-! ### Quoted text -/

namespace Quoted

/-- A character by its code point. -/
def codePoint (c : Char) : List Char :=
  ['\\', 'u', '\x7b'] ++ Nat.toDigits 16 c.toNat ++ ['\x7d']

/-- A character inside quotes. -/
def escape (c : Char) : List Char :=
  match c with
  | '\x00' => ['\\', '0']
  | '\t' => ['\\', 't']
  | '\r' => ['\\', 'r']
  | '\n' => ['\\', 'n']
  | '\\' => ['\\', '\\']
  | '"' => ['\\', '"']
  | c => if isExtending c || isUnprintable c then codePoint c else [c]

/-- A text in quotes. -/
def chars (cs : List Char) : List Char :=
  '"' :: cs.flatMap escape ++ ['"']

end Quoted

/-! ### Expressions -/

/-- A literal as it stands in an expression: texts are quoted. -/
def Datum.chars : Datum → List Char
  | text s => Quoted.chars s.toList
  | value => value.display.toList

namespace Expr

/-- Puts parentheses around a text. -/
def parenthesize (needed : Bool) (cs : List Char) : List Char :=
  if needed then '(' :: cs ++ [')'] else cs

mutual

/-- An expression as text, in a place where operators bind with `outer`. -/
def chars (outer : Nat) : Expr → List Char
  | literal value => value.chars
  | name text => text.toList
  | unary op operand =>
    parenthesize (unaryPrecedence < outer) (op.text.toList ++ chars unaryPrecedence operand)
  | binary op left right =>
    parenthesize (op.precedence < outer)
      (chars op.precedence left ++ ' ' :: op.text.toList ++ ' ' :: chars (op.precedence + 1) right)
  | conditional condition yes no =>
    parenthesize (1 < outer)
      (chars 2 condition ++ " ? ".toList ++ chars 1 yes ++ " : ".toList ++ chars 1 no)
  | call function args => function.toList ++ '(' :: argChars args ++ [')']

/-- Arguments, separated by commas. -/
def argChars : List Expr → List Char
  | [] => []
  | [e] => chars 0 e
  | e :: es => chars 0 e ++ ", ".toList ++ argChars es

end

/-- An expression as text. -/
def display (e : Expr) : String :=
  String.ofList (e.chars 0)

end Expr

end CommandGraph
