/-
CommandGraph/Expr/Basic.lean

Embedded expressions, their operators and their values.

Values are written as people expect them: numbers positionally with the fewest digits
that read back, without a sign on zero.  An argument text becomes a number or a truth
value if it reads as one, and stays text otherwise.

Every operator has a precedence; the higher one binds more tightly.  The same numbers
drive the reader, which descends from the lowest to the highest, and the writer, which
sets parentheses only where they are needed.
-/
import CommandGraph.Number.Binary64
import CommandGraph.Number.Decimal
import CommandGraph.Text.Characters

namespace CommandGraph

/-! ### Values -/

/-- A value of an expression. -/
inductive Datum where
  | number (x : Float)
  | bool (b : Bool)
  | text (s : String)
  | null

namespace Datum

/-- The name of a value's type. -/
def typeName : Datum → String
  | number _ => "Number"
  | bool _ => "Bool"
  | text _ => "Text"
  | null => "Null"

/-- Whether a value counts as true in a condition. -/
def isTruthy : Datum → Bool
  | number x => x != 0 && !x.isNaN
  | bool b => b
  | text s => !s.isEmpty
  | null => false

/-- How numbers are written: always positionally. -/
def numberLayout : Layout where
  positional _ := true
  pointed := false

/-- A number as text. -/
def numberChars (x : Float) : List Char :=
  if x.isNaN then "NaN".toList
  else if x.isInf then if x < 0 then "-inf".toList else "inf".toList
  else if x == 0 then ['0']
  else numberLayout.chars (Decimal.shortest .up x)

/-- A value as text. -/
def display : Datum → String
  | number x => String.ofList (numberChars x)
  | bool b => if b then "true" else "false"
  | text s => s
  | null => "null"

/-- Equality of values.  It is that of doubles on numbers: NaN differs from itself. -/
def equal : Datum → Datum → Bool
  | number x, number y => x == y
  | bool a, bool b => a == b
  | text s, text t => s == t
  | null, null => true
  | _, _ => false

/-- The finite number that a text denotes. -/
def finite? (cs : List Char) : Option Float :=
  ((Decimal.ofChars? cs).map Decimal.toFloat).filter Float.isFinite

/-- The value that an argument text stands for. -/
def ofArgument (argument : String) : Datum :=
  let trimmed := trimBlanks argument.toList
  if trimmed == "true".toList then bool true
  else if trimmed == "false".toList then bool false
  else match finite? trimmed with
    | some x => number x
    | none => text argument

end Datum

/-! ### Operators -/

/-- Operators with two operands. -/
inductive BinaryOp where
  | or
  | and
  | equal
  | notEqual
  | less
  | lessEqual
  | greater
  | greaterEqual
  | add
  | subtract
  | multiply
  | divide
  | modulo
  deriving DecidableEq

namespace BinaryOp

def text : BinaryOp → String
  | or => "||"
  | and => "&&"
  | equal => "=="
  | notEqual => "!="
  | less => "<"
  | lessEqual => "<="
  | greater => ">"
  | greaterEqual => ">="
  | add => "+"
  | subtract => "-"
  | multiply => "*"
  | divide => "/"
  | modulo => "%"

def precedence : BinaryOp → Nat
  | or => 2
  | and => 3
  | equal | notEqual => 4
  | less | lessEqual | greater | greaterEqual => 5
  | add | subtract => 6
  | multiply | divide | modulo => 7

end BinaryOp

/-- Operators with one operand. -/
inductive UnaryOp where
  | not
  | negate
  deriving DecidableEq

def UnaryOp.text : UnaryOp → String
  | not => "!"
  | negate => "-"

/-- An embedded expression. -/
inductive Expr where
  | literal (value : Datum)
  | name (text : String)
  | unary (op : UnaryOp) (operand : Expr)
  | binary (op : BinaryOp) (left right : Expr)
  | conditional (condition yes no : Expr)
  | call (function : String) (args : List Expr)

namespace Expr

/-- The precedence of unary operators. -/
def unaryPrecedence : Nat :=
  8

/-- How tightly the outermost operator of an expression binds. -/
def precedence : Expr → Nat
  | conditional .. => 1
  | binary op .. => op.precedence
  | unary .. => unaryPrecedence
  | literal _ | name _ | call .. => 9

mutual

/-- The number of nodes of an expression. -/
def size : Expr → Nat
  | literal _ | name _ => 1
  | unary _ operand => operand.size + 1
  | binary _ left right => left.size + right.size + 1
  | conditional condition yes no => condition.size + yes.size + no.size + 1
  | call _ args => sizeList args + 1

def sizeList : List Expr → Nat
  | [] => 0
  | e :: es => e.size + sizeList es

end

mutual

/-- The number of nodes on the longest path from the root to a leaf. -/
def height : Expr → Nat
  | literal _ | name _ => 1
  | unary _ operand => operand.height + 1
  | binary _ left right => max left.height right.height + 1
  | conditional condition yes no => max condition.height (max yes.height no.height) + 1
  | call _ args => heightList args + 1

def heightList : List Expr → Nat
  | [] => 0
  | e :: es => max e.height (heightList es)

end

end Expr

end CommandGraph
