/-
CommandGraph/Expr/Eval.lean

Evaluating expressions, with a bound on the number of steps.

Every node that is visited takes one step of the budget; operands that `&&`, `||` and
conditionals skip are not visited.  Expressions see their bindings and a fixed set of
functions, nothing else.
-/
import CommandGraph.Expr.Parser

namespace CommandGraph

/-- The names that an expression may use, the newest binding of a name first. -/
abbrev Bindings :=
  List (String × Datum)

/-- The bounds on reading and evaluating one expression. -/
structure ScriptLimits where
  maxSteps : Nat := 10000
  maxDepth : Nat := 64
  deriving DecidableEq

/-! ### Operators -/

namespace BinaryOp

/-- The operator applied to two numbers, with its outcome wrapped. -/
def applyNumbers (op : BinaryOp) (f : Float → Float → Except ScriptError Datum) :
    Datum → Datum → Except ScriptError Datum
  | .number x, .number y => f x y
  | .number _, right => .error (.typeMismatch op.text .number right)
  | left, _ => .error (.typeMismatch op.text .number left)

/-- Addition of numbers; as soon as one side is a text, concatenation. -/
def applyAdd : Datum → Datum → Except ScriptError Datum
  | .number x, .number y => .ok (.number (x + y))
  | .text s, right => .ok (.text (s ++ right.display))
  | left, .text s => .ok (.text (left.display ++ s))
  | left, _ => .error (.typeMismatch add.text .numberOrText left)

/-- The operator applied to the values of both operands. -/
def apply (op : BinaryOp) (left right : Datum) : Except ScriptError Datum :=
  match op with
  | add => applyAdd left right
  | subtract => op.applyNumbers (fun x y => .ok (.number (x - y))) left right
  | multiply => op.applyNumbers (fun x y => .ok (.number (x * y))) left right
  | divide =>
    op.applyNumbers (fun x y => if y == 0 then .error .divisionByZero else .ok (.number (x / y)))
      left right
  | modulo =>
    op.applyNumbers
      (fun x y => if y == 0 then .error .divisionByZero else .ok (.number (remainder x y)))
      left right
  | less => op.applyNumbers (fun x y => .ok (.bool (x < y))) left right
  | lessEqual => op.applyNumbers (fun x y => .ok (.bool (x ≤ y))) left right
  | greater => op.applyNumbers (fun x y => .ok (.bool (y < x))) left right
  | greaterEqual => op.applyNumbers (fun x y => .ok (.bool (y ≤ x))) left right
  | equal => .ok (.bool (left.equal right))
  | notEqual => .ok (.bool (!left.equal right))
  -- reached only where the left operand leaves the decision to the right one
  | and => .ok (.bool (left.isTruthy && right.isTruthy))
  | or => .ok (.bool (left.isTruthy || right.isTruthy))

/-- The value that the left operand decides alone. -/
def shortcut? (op : BinaryOp) (left : Datum) : Option Datum :=
  match op with
  | and => if left.isTruthy then none else some (.bool false)
  | or => if left.isTruthy then some (.bool true) else none
  | _ => none

end BinaryOp

/-- The operator applied to the value of its operand. -/
def UnaryOp.apply : UnaryOp → Datum → Except ScriptError Datum
  | negate, .number x => .ok (.number (-x))
  | negate, value => .error (.typeMismatch negate.text .number value)
  | not, value => .ok (.bool (!value.isTruthy))

/-! ### Functions -/

namespace Builtin

/-- The lesser of two numbers, the first one if they are equal.  NaN gives way. -/
def minimum (x y : Float) : Float :=
  if x.isNaN then y else if y < x then y else x

/-- The greater of two numbers, the first one if they are equal.  NaN gives way. -/
def maximum (x y : Float) : Float :=
  if x.isNaN then y else if x < y then y else x

/-- The only argument of a function that takes one. -/
def single (function : String) : List Datum → Except ScriptError Datum
  | [value] => .ok value
  | args => .error (.arity function .one args.length)

/-- A function of one number. -/
def ofNumber (function : String) (f : Float → Float) (args : List Datum) :
    Except ScriptError Datum := do
  match ← single function args with
  | .number x => return .number (f x)
  | value => throw (.typeMismatch function .number value)

/-- The numbers among the arguments, which all have to be numbers. -/
def numbers (function : String) : List Datum → Except ScriptError (List Float)
  | [] => .ok []
  | .number x :: args => (numbers function args).map (x :: ·)
  | value :: _ => .error (.typeMismatch function .number value)

/-- A function that combines any number of numbers, at least one. -/
def ofNumbers (function : String) (f : Float → Float → Float) (args : List Datum) :
    Except ScriptError Datum := do
  if args.isEmpty then
    throw (.arity function .atLeastOne 0)
  match ← numbers function args with
  | [] => return .null
  | x :: xs => return .number (xs.foldl f x)

/-- Calls a function by its name. -/
def call (function : String) (args : List Datum) : Except ScriptError Datum :=
  match function with
  | "abs" => ofNumber function Float.abs args
  | "floor" => ofNumber function Float.floor args
  | "ceil" => ofNumber function Float.ceil args
  | "round" => ofNumber function Float.round args
  | "min" => ofNumbers function minimum args
  | "max" => ofNumbers function maximum args
  | "len" => do
    match ← single function args with
    | .text s => return .number (Float.ofNat s.length)
    | value => throw (.typeMismatch function .text value)
  | "str" => do return .text (← single function args).display
  | _ => .error (.unknownFunction function)

end Builtin

/-! ### Evaluation -/

/-- What an evaluation needs besides the expression. -/
structure EvalContext where
  bindings : Bindings
  maxSteps : Nat

/-- An evaluation: it has a number of steps left, and a result or an error. -/
abbrev EvalM :=
  StateT Nat (Except ScriptError)

/-- Takes one step of the budget. -/
def EvalContext.spend (ctx : EvalContext) : EvalM Unit
  | 0 => .error (.budgetExceeded ctx.maxSteps)
  | steps + 1 => .ok ((), steps)

/-- The value that a name is bound to. -/
def EvalContext.lookup (ctx : EvalContext) (name : String) : Except ScriptError Datum :=
  match ctx.bindings.lookup name with
  | some value => .ok value
  | none => .error (.unboundName name)

namespace Expr

mutual

/-- Evaluates an expression. -/
def eval (ctx : EvalContext) : Expr → EvalM Datum
  | literal value => do
    ctx.spend
    return value
  | name text => do
    ctx.spend
    ctx.lookup text
  | unary op operand => do
    ctx.spend
    let value ← eval ctx operand
    op.apply value
  | binary op left right => do
    ctx.spend
    let leftValue ← eval ctx left
    match op.shortcut? leftValue with
    | some value => return value
    | none =>
      let rightValue ← eval ctx right
      op.apply leftValue rightValue
  | conditional condition yes no => do
    ctx.spend
    let value ← eval ctx condition
    if value.isTruthy then eval ctx yes else eval ctx no
  | call function args => do
    ctx.spend
    let values ← evalList ctx args
    Builtin.call function values

/-- Evaluates expressions from left to right. -/
def evalList (ctx : EvalContext) : List Expr → EvalM (List Datum)
  | [] => return []
  | e :: es => do
    let value ← eval ctx e
    let values ← evalList ctx es
    return value :: values

end

/-- The value of an expression. -/
def evaluate (e : Expr) (bindings : Bindings) (limits : ScriptLimits) :
    Except ScriptError Datum :=
  (e.eval { bindings, maxSteps := limits.maxSteps }).run' limits.maxSteps

end Expr

/-- Reads and evaluates an expression. -/
def evaluateText (source : String) (bindings : Bindings) (limits : ScriptLimits) :
    Except ScriptError Datum := do
  (← Expr.ofText source limits.maxDepth).evaluate bindings limits

end CommandGraph
