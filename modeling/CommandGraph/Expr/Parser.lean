/-
CommandGraph/Expr/Parser.lean

Reading expressions, with a bound on their depth.

The reader descends through the precedences.  It carries the room that is left for
nesting: conditionals, unary operators and every operator of a run of equal precedence
take one level, since each of them makes the tree one level deeper.  Where no level is
left, the expression is too deep.

All functions take the lexemes that are left and return the expression in front of
them together with the rest.
-/
import CommandGraph.Expr.Lexer

namespace CommandGraph

/-! ### Results and faults -/

/-- What a reader of expressions knows besides the lexemes. -/
structure ParseContext where
  /-- The position behind the last character. -/
  sourceLength : Nat
  maxDepth : Nat

/-- An expression and the lexemes behind it. -/
abbrev Parsed :=
  Except ScriptError (Expr × List Lexeme)

namespace ParseContext

/-- A fault at the first of the lexemes that are left. -/
def fault {α : Type} (ctx : ParseContext) (lexemes : List Lexeme) (fault : SyntaxFault) :
    Except ScriptError α :=
  .error (.malformed ((lexemes.head?.map (·.position)).getD ctx.sourceLength) fault)

/-- No level is left. -/
def tooDeep {α : Type} (ctx : ParseContext) : Except ScriptError α :=
  .error (.tooDeep ctx.maxDepth)

/-! ### What stands in front -/

/-- The symbol in front, and what follows it. -/
def symbol? : List Lexeme → Option (Symbol × List Lexeme)
  | ⟨_, .symbol symbol⟩ :: rest => some (symbol, rest)
  | _ => none

/-- The rest behind a symbol that has to stand in front. -/
def expect (ctx : ParseContext) (symbol : Symbol) (fault : SyntaxFault) (lexemes : List Lexeme) :
    Except ScriptError (List Lexeme) :=
  match symbol? lexemes with
  | some (found, rest) => if found = symbol then .ok rest else ctx.fault lexemes fault
  | none => ctx.fault lexemes fault

/-- The binary operator of the given precedence in front, and what follows it. -/
def binary? (precedence : Nat) (lexemes : List Lexeme) : Option (BinaryOp × List Lexeme) :=
  match symbol? lexemes with
  | some (.op operator, rest) => (operator.binary? precedence).map (·, rest)
  | _ => none

/-- The unary operator in front, and what follows it. -/
def unary? (lexemes : List Lexeme) : Option (UnaryOp × List Lexeme) :=
  match symbol? lexemes with
  | some (.op operator, rest) => operator.unary?.map (·, rest)
  | _ => none

/-- The value of a name that is reserved for one. -/
def reserved? : String → Option Datum
  | "true" => some (.bool true)
  | "false" => some (.bool false)
  | "null" => some .null
  | _ => none

/-! ### Readers -/

/-- Reads arguments up to the closing parenthesis.  There are at most `fuel` of them. -/
def arguments (ctx : ParseContext) (item : List Lexeme → Parsed) :
    Nat → List Lexeme → Except ScriptError (List Expr × List Lexeme)
  | 0, lexemes => ctx.fault lexemes .badArgumentList
  | fuel + 1, lexemes =>
    match item lexemes with
    | .error e => .error e
    | .ok (arg, rest) =>
      match symbol? rest with
      | some (.comma, rest) =>
        (arguments ctx item fuel rest).map fun (args, rest) => (arg :: args, rest)
      | some (.rparen, rest) => .ok ([arg], rest)
      | _ => ctx.fault rest .badArgumentList

mutual

/-- Reads an expression of any kind. -/
def conditional (ctx : ParseContext) (room : Nat) (lexemes : List Lexeme) : Parsed :=
  match room with
  | 0 => ctx.tooDeep
  | room + 1 => do
    let (condition, rest) ← operand ctx 2 room lexemes
    match symbol? rest with
    | some (.question, rest) =>
      let (yes, rest) ← conditional ctx room rest
      let rest ← ctx.expect .colon .missingColon rest
      let (no, rest) ← conditional ctx room rest
      return (.conditional condition yes no, rest)
    | _ => return (condition, rest)
termination_by (room, 0)

/-- Reads operands of at least the given precedence, and the operators between them. -/
def operand (ctx : ParseContext) (precedence room : Nat) (lexemes : List Lexeme) : Parsed :=
  if precedence < Expr.unaryPrecedence then do
    let (first, rest) ← operand ctx (precedence + 1) room lexemes
    run ctx precedence room first rest
  else unary ctx room lexemes
termination_by (room, 4 + (Expr.unaryPrecedence - precedence))

/-- Continues a run of operators of one precedence, which associate to the left. -/
def run (ctx : ParseContext) (precedence room : Nat) (left : Expr) (lexemes : List Lexeme) :
    Parsed :=
  match binary? precedence lexemes with
  | none => .ok (left, lexemes)
  | some (op, rest) =>
    match room with
    | 0 => ctx.tooDeep
    | room + 1 => do
      let (right, rest) ← operand ctx (precedence + 1) room rest
      -- the level stays taken for the rest of the run, and only for it: `room` is local
      run ctx precedence room (.binary op left right) rest
termination_by (room, 3)

/-- Reads unary operators and what they apply to. -/
def unary (ctx : ParseContext) (room : Nat) (lexemes : List Lexeme) : Parsed :=
  match unary? lexemes with
  | none => primary ctx room lexemes
  | some (op, rest) =>
    match room with
    | 0 => ctx.tooDeep
    | room + 1 => do
      let (operand, rest) ← unary ctx room rest
      return (.unary op operand, rest)
termination_by (room, 2)

/-- Reads a literal, a name, a call or an expression in parentheses. -/
def primary (ctx : ParseContext) (room : Nat) (lexemes : List Lexeme) : Parsed :=
  match lexemes with
  | [] => ctx.fault [] .unexpectedEnd
  | ⟨_, .number x⟩ :: rest => .ok (.literal (.number x), rest)
  | ⟨_, .text s⟩ :: rest => .ok (.literal (.text s), rest)
  | ⟨_, .ident name⟩ :: rest =>
    match reserved? name with
    | some value => .ok (.literal value, rest)
    | none =>
      match symbol? rest with
      | some (.lparen, rest) =>
        match symbol? rest with
        | some (.rparen, rest) => .ok (.call name [], rest)
        | _ => do
          -- every argument takes a lexeme at least, so that their number is fuel enough
          let (args, rest) ← ctx.arguments (conditional ctx room) (rest.length + 1) rest
          return (.call name args, rest)
      | _ => .ok (.name name, rest)
  | ⟨_, .symbol .lparen⟩ :: rest => do
    let (inner, rest) ← conditional ctx room rest
    let rest ← ctx.expect .rparen .missingParenthesis rest
    return (inner, rest)
  | ⟨position, .symbol symbol⟩ :: _ => .error (.malformed position (.unexpectedSymbol symbol))
termination_by (room, 1)

end

end ParseContext

/-! ### Whole texts -/

/-- The expression that a text denotes, nested at most `maxDepth` deep. -/
def Expr.ofText (source : String) (maxDepth : Nat) : Except ScriptError Expr := do
  let lexemes ← Lexeme.ofText source
  if lexemes.isEmpty then
    throw (.malformed 0 .empty)
  let ctx : ParseContext := { sourceLength := source.length, maxDepth }
  let (e, rest) ← ctx.conditional maxDepth lexemes
  if rest.isEmpty then return e else ctx.fault rest .trailingInput

end CommandGraph
