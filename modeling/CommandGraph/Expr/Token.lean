/-
CommandGraph/Expr/Token.lean

The tokens of expressions, what can go wrong with an expression, and how it is reported.
-/
import CommandGraph.Expr.Basic

namespace CommandGraph

/-! ### Tokens -/

/-- The written operators; what a minus sign means depends on its place. -/
inductive Operator where
  | binary (op : BinaryOp)
  | not
  deriving DecidableEq

namespace Operator

def text : Operator → String
  | binary op => op.text
  | not => UnaryOp.not.text

/-- The operator with two operands of the given precedence, if this is one. -/
def binary? (precedence : Nat) : Operator → Option BinaryOp
  | binary op => if op.precedence = precedence then some op else none
  | not => none

/-- The operator with one operand, if this can be one. -/
def unary? : Operator → Option UnaryOp
  | binary .subtract => some .negate
  | not => some .not
  | _ => none

/-- The operator in front of a text, the longest one possible, and what follows. -/
def scan? : List Char → Option (Operator × List Char)
  | '=' :: '=' :: rest => some (binary .equal, rest)
  | '!' :: '=' :: rest => some (binary .notEqual, rest)
  | '<' :: '=' :: rest => some (binary .lessEqual, rest)
  | '>' :: '=' :: rest => some (binary .greaterEqual, rest)
  | '&' :: '&' :: rest => some (binary .and, rest)
  | '|' :: '|' :: rest => some (binary .or, rest)
  | '+' :: rest => some (binary .add, rest)
  | '-' :: rest => some (binary .subtract, rest)
  | '*' :: rest => some (binary .multiply, rest)
  | '/' :: rest => some (binary .divide, rest)
  | '%' :: rest => some (binary .modulo, rest)
  | '<' :: rest => some (binary .less, rest)
  | '>' :: rest => some (binary .greater, rest)
  | '!' :: rest => some (not, rest)
  | _ => none

theorem scan?_length {cs rest : List Char} {op : Operator} (h : scan? cs = some (op, rest)) :
    rest.length < cs.length := by
  unfold scan? at h
  split at h <;> simp at h <;> obtain ⟨-, rfl⟩ := h <;> simp only [List.length_cons] <;> omega

end Operator

/-- A token that holds no value. -/
inductive Symbol where
  | op (operator : Operator)
  | lparen
  | rparen
  | comma
  | question
  | colon
  deriving DecidableEq

namespace Symbol

/-- How a symbol is named in messages. -/
def describe : Symbol → String
  | op operator => "Op(\"" ++ operator.text ++ "\")"
  | lparen => "LParen"
  | rparen => "RParen"
  | comma => "Comma"
  | question => "Question"
  | colon => "Colon"

/-- The symbol that a single character stands for, operators aside. -/
def ofChar? : Char → Option Symbol
  | '(' => some lparen
  | ')' => some rparen
  | ',' => some comma
  | '?' => some question
  | ':' => some colon
  | _ => none

end Symbol

/-- A token of an expression. -/
inductive Token where
  | number (x : Float)
  | text (s : String)
  | ident (s : String)
  | symbol (symbol : Symbol)

/-- A token and the position of its first character. -/
structure Lexeme where
  position : Nat
  token : Token

/-! ### Errors -/

/-- Why a text is not an expression. -/
inductive SyntaxFault where
  | empty
  | invalidNumber (literal : String)
  | unterminatedString
  | danglingEscape
  | unexpectedCharacter (c : Char)
  | unexpectedSymbol (symbol : Symbol)
  | unexpectedEnd
  | missingColon
  | missingParenthesis
  | badArgumentList
  | trailingInput

def SyntaxFault.message : SyntaxFault → String
  | empty => "empty expression"
  | invalidNumber literal => "invalid number '" ++ literal ++ "'"
  | unterminatedString => "unterminated string"
  | danglingEscape => "dangling escape"
  | unexpectedCharacter c => "unexpected character '" ++ String.singleton c ++ "'"
  | unexpectedSymbol symbol => "unexpected token " ++ symbol.describe
  | unexpectedEnd => "unexpected end of expression"
  | missingColon => "expected ':' in conditional expression"
  | missingParenthesis => "expected ')'"
  | badArgumentList => "expected ',' or ')' in argument list"
  | trailingInput => "unexpected trailing input"

/-- What an operation asks of its operands. -/
inductive Expected where
  | number
  | text
  | numberOrText

def Expected.describe : Expected → String
  | number => "Number"
  | text => "Text"
  | numberOrText => "Number or Text"

/-- How many arguments a function takes. -/
inductive Arity where
  | one
  | atLeastOne

def Arity.text : Arity → String
  | one => "1"
  | atLeastOne => "at least 1"

/-- Why an expression has no value. -/
inductive ScriptError where
  | malformed (position : Nat) (fault : SyntaxFault)
  | unboundName (name : String)
  | unknownFunction (name : String)
  | arity (function : String) (expected : Arity) (found : Nat)
  | typeMismatch (operation : String) (expected : Expected) (found : Datum)
  | divisionByZero
  | budgetExceeded (limit : Nat)
  | tooDeep (limit : Nat)

def ScriptError.message : ScriptError → String
  | malformed position fault => s!"Syntax error at position {position}: " ++ fault.message
  | unboundName name => "Variable '" ++ name ++ "' is not bound"
  | unknownFunction name => "Function '" ++ name ++ "' is not available"
  | arity function expected found =>
    "Function '" ++ function ++ "' expects " ++ expected.text ++
      s!" arguments, but received {found}"
  | typeMismatch operation expected found =>
    "Type mismatch during operation '" ++ operation ++ "': expected " ++ expected.describe ++
      ", but found value '" ++ found.display ++ "'"
  | divisionByZero => "Division by zero"
  | budgetExceeded limit => s!"Evaluation exceeded the step budget of {limit}"
  | tooDeep limit => s!"Expression nesting exceeds the depth limit of {limit}"

end CommandGraph
