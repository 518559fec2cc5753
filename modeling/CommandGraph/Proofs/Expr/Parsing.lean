/-
CommandGraph/Proofs/Expr/Parsing.lean

Reading the tokens that an expression is written with.

With room for its nesting, the tokens of an expression are read as this expression, at each
precedence for which they are meant, whatever follows them, as long as it does not go on with
the expression (`Ends`).  `Reads` collects this for the readers of expressions, of operands
and of runs, and `Expr.reads` shows it along the expression.

A left operand of the same precedence needs no parentheses, so that the reader gets to it as the
beginning of a run: it has taken `runLength` levels when it comes to the next operator.
-/
import CommandGraph.Proofs.Expr.Tokens
import Mathlib.Data.Nat.Init

namespace CommandGraph

/-- Operators with two operands bind more tightly than conditionals, and less than those with
one. -/
theorem BinaryOp.precedence_bounds (op : BinaryOp) :
    2 ≤ op.precedence ∧ op.precedence < Expr.unaryPrecedence := by
  cases op <;> decide

namespace Expr

/-! ### Nesting -/

/-- The number of operators of a precedence one after the other, down to the first operand. -/
def runLength (precedence : Nat) : Expr → Nat
  | binary op left _ => if op.precedence = precedence then left.runLength precedence + 1 else 0
  | _ => 0

/-- The level that parentheses take, if they are needed. -/
def parenLevel (outer : Nat) (e : Expr) : Nat :=
  if e.precedence < outer then 1 else 0

mutual

/-- The levels that the reader takes inside an expression. -/
def nesting : Expr → Nat
  | literal _ | name _ => 0
  | unary _ operand => operand.nesting + operand.parenLevel unaryPrecedence + 1
  | binary op left right =>
    max (left.nesting + left.parenLevel op.precedence)
      (left.runLength op.precedence + 1 + (right.nesting + right.parenLevel (op.precedence + 1)))
  | conditional condition yes no =>
    max (condition.nesting + condition.parenLevel 2) (max (yes.nesting + 1) (no.nesting + 1))
  | call _ args => nestingList args

/-- The levels that the reader takes inside arguments. -/
def nestingList : List Expr → Nat
  | [] => 0
  | e :: es => max (e.nesting + 1) (nestingList es)

end

theorem parenLevel_le_one (outer : Nat) (e : Expr) : e.parenLevel outer ≤ 1 := by
  unfold parenLevel
  split <;> decide

theorem parenLevel_eq_zero {outer : Nat} {e : Expr} (h : outer ≤ e.precedence) :
    e.parenLevel outer = 0 :=
  if_neg (Nat.not_lt.2 h)

/-- A run has fewer operators than there are nodes. -/
theorem runLength_lt_size (precedence : Nat) (e : Expr) : e.runLength precedence < e.size := by
  induction e using inductionOn with
  | binary op left right ih _ =>
    rw [runLength, size]
    split <;> omega
  | _ =>
    rw [size]
    exact Nat.succ_pos _

/-- Only operators of a precedence are in a run of this precedence. -/
theorem runLength_eq_zero {e : Expr} {precedence : Nat} (ne : e.precedence ≠ precedence) :
    e.runLength precedence = 0 := by
  cases e with
  | binary op left right => exact if_neg ne
  | _ => rfl

theorem nesting_name (text : String) : (name text).nesting = 0 := by
  rw [nesting]

/-- Arguments take two levels for each of their nodes at most. -/
theorem nestingList_le_sizeList {args : List Expr} (h : ∀ arg ∈ args, arg.nesting < 2 * arg.size) :
    nestingList args ≤ 2 * sizeList args := by
  induction args with
  | nil => exact Nat.zero_le _
  | cons first args ih =>
    rw [nestingList, sizeList]
    have here := h first List.mem_cons_self
    have behind := ih fun arg mem => h arg (List.mem_cons_of_mem _ mem)
    omega

/-- Each node takes two levels at most: one by itself and one for parentheses around it. -/
theorem nesting_lt_size (e : Expr) : e.nesting < 2 * e.size := by
  induction e using inductionOn with
  | literal value => exact Nat.two_pos
  | name text => exact Nat.two_pos
  | unary op operand ih =>
    have := operand.parenLevel_le_one unaryPrecedence
    rw [nesting, size]
    omega
  | binary op left right ih_left ih_right =>
    have := left.parenLevel_le_one op.precedence
    have := right.parenLevel_le_one (op.precedence + 1)
    have := left.runLength_lt_size op.precedence
    rw [nesting, size]
    omega
  | conditional condition yes no ih_condition ih_yes ih_no =>
    have := condition.parenLevel_le_one 2
    rw [nesting, size]
    omega
  | call function args ih =>
    have := nestingList_le_sizeList ih
    rw [nesting, size]
    omega

/-! ### Tokens in front -/

theorem enclose_of_le {outer precedence : Nat} (h : outer ≤ precedence) (tokens : List Token) :
    enclose (precedence < outer) tokens = tokens := by
  rw [enclose, if_neg (by simpa using h)]

theorem enclose_of_lt {outer precedence : Nat} (h : precedence < outer) (tokens : List Token) :
    enclose (precedence < outer) tokens =
      .symbol .lparen :: tokens ++ [.symbol .rparen] := by
  rw [enclose, if_pos (by simpa using h)]

/-- Parentheses are put around an expression that binds less tightly than what is around it. -/
theorem tokens_eq {outer : Nat} (h : outer ≤ 9) (e : Expr) :
    e.tokens outer = enclose (e.precedence < outer) (e.tokens 0) := by
  cases e with
  | literal value =>
    rw [precedence, enclose_of_le h, tokens, tokens]
  | name text =>
    rw [precedence, enclose_of_le h, tokens, tokens]
  | call function args =>
    rw [precedence, enclose_of_le h, tokens, tokens]
  | unary op operand =>
    rw [tokens, tokens, enclose_of_le (Nat.zero_le _), precedence]
  | binary op left right =>
    rw [tokens, tokens, enclose_of_le (Nat.zero_le _), precedence]
  | conditional condition yes no =>
    rw [tokens, tokens, enclose_of_le (Nat.zero_le _), precedence]

/-- Only an expression of just this precedence is written in another way one level up. -/
theorem tokens_succ {e : Expr} {outer : Nat} (le : outer < unaryPrecedence)
    (ne : e.precedence ≠ outer) : e.tokens (outer + 1) = e.tokens outer := by
  have nine : outer + 1 ≤ 9 := Nat.le_succ_of_le le
  have same : (e.precedence < outer + 1) = (e.precedence < outer) := by
    rw [eq_iff_iff]
    omega
  rw [tokens_eq nine, tokens_eq (Nat.le_of_succ_le nine)]
  simp only [same]

theorem one_le_precedence (e : Expr) : 1 ≤ e.precedence := by
  cases e with
  | binary op left right => exact Nat.le_of_succ_le op.precedence_bounds.1
  | _ =>
    simp only [precedence]
    decide

/-- No expression starts with a closing parenthesis. -/
theorem exists_cons_tokens (outer : Nat) (e : Expr) :
    ∃ token behind, e.tokens outer = token :: behind ∧ token ≠ .symbol .rparen := by
  have enclosed {token : Token} (ne : token ≠ .symbol .rparen) (needed : Bool)
      (behind : List Token) : ∃ first others,
        enclose needed (token :: behind) = first :: others ∧ first ≠ .symbol .rparen := by
    cases needed with
    | false => exact ⟨token, behind, rfl, ne⟩
    | true => exact ⟨.symbol .lparen, _, rfl, by simp⟩
  induction e using inductionOn generalizing outer with
  | literal value =>
    rw [tokens]
    refine ⟨value.token, [], rfl, ?_⟩
    cases value <;> simp [Datum.token]
  | name text =>
    rw [tokens]
    exact ⟨.ident text, [], rfl, by simp⟩
  | unary op operand _ =>
    rw [tokens]
    exact enclosed (by simp) _ _
  | binary op left right ih _ =>
    obtain ⟨token, behind, e, ne⟩ := ih op.precedence
    rw [tokens, e]
    exact enclosed ne _ _
  | conditional condition yes no ih _ _ =>
    obtain ⟨token, behind, e, ne⟩ := ih 2
    rw [tokens, e]
    exact enclosed ne _ _
  | call function args _ =>
    rw [tokens]
    exact ⟨.ident function, _, rfl, by simp⟩

/-- No list of arguments starts with a closing parenthesis. -/
theorem exists_cons_argTokens {args : List Expr} (nonempty : args ≠ []) :
    ∃ token behind, argTokens args = token :: behind ∧ token ≠ .symbol .rparen := by
  cases args with
  | nil => exact absurd rfl nonempty
  | cons first args =>
    obtain ⟨token, behind, start, ne⟩ := first.exists_cons_tokens 0
    cases args with
    | nil =>
      rw [argTokens]
      exact ⟨token, behind, start, ne⟩
    | cons second args =>
      rw [argTokens_cons_cons, start]
      exact ⟨token, _, rfl, ne⟩

/-- There are at least as many tokens as arguments. -/
theorem length_le_argTokens (args : List Expr) : args.length ≤ (argTokens args).length := by
  induction args with
  | nil => exact Nat.le_refl 0
  | cons first args ih =>
    obtain ⟨token, behind, start, -⟩ := first.exists_cons_tokens 0
    cases args with
    | nil =>
      rw [argTokens, start]
      exact Nat.succ_le_succ (Nat.zero_le _)
    | cons second args =>
      rw [argTokens_cons_cons]
      simp only [List.length_append, List.length_cons] at ih ⊢
      omega

end Expr

namespace ParseContext

open CommandGraph.Expr (unaryPrecedence)

/-! ### What may follow -/

/-- Whether what follows does not go on with an expression that has been read as an operand of a
precedence. -/
structure Ends (precedence : Nat) (rest : List Lexeme) : Prop where
  call : ∀ others, symbol? rest ≠ some (.lparen, others)
  conditional : precedence ≤ 1 → ∀ others, symbol? rest ≠ some (.question, others)
  operator : ∀ other, precedence ≤ other → binary? other rest = none

namespace Ends

variable {precedence position : Nat} {rest : List Lexeme}

theorem mono {higher : Nat} (h : Ends precedence rest) (le : precedence ≤ higher) :
    Ends higher rest where
  call := h.call
  conditional := fun le' => h.conditional (Nat.le_trans le le')
  operator := fun other le' => h.operator other (Nat.le_trans le le')

theorem nil : Ends precedence [] where
  call := by simp [symbol?]
  conditional := by simp [symbol?]
  operator := by simp [binary?, symbol?]

theorem closing {symbol : Symbol} (mem : symbol ∈ [Symbol.rparen, .comma, .colon]) :
    Ends precedence (⟨position, .symbol symbol⟩ :: rest) := by
  simp only [List.mem_cons, List.not_mem_nil, or_false] at mem
  rcases mem with rfl | rfl | rfl <;>
    exact ⟨by simp [symbol?], by simp [symbol?], by simp [binary?, symbol?]⟩

theorem question (le : 2 ≤ precedence) :
    Ends precedence (⟨position, .symbol .question⟩ :: rest) where
  call := by simp [symbol?]
  conditional := by omega
  operator := by simp [binary?, symbol?]

/-- An operand ends in front of an operator that binds less tightly. -/
theorem binary {op : BinaryOp} (lt : op.precedence < precedence) :
    Ends precedence (⟨position, .symbol (.op (.binary op))⟩ :: rest) where
  call := by simp [symbol?]
  conditional := by simp [symbol?]
  operator := by
    intro other le
    have ne : op.precedence ≠ other := by omega
    simp [binary?, symbol?, Operator.binary?, ne]

end Ends

/-! ### Tokens and their positions -/

theorem exists_cons_of_map {lexemes : List Lexeme} {token : Token} {tokens : List Token}
    (h : lexemes.map (·.token) = token :: tokens) : ∃ position behind,
      lexemes = ⟨position, token⟩ :: behind ∧ behind.map (·.token) = tokens := by
  obtain ⟨⟨position, _⟩, behind, rfl, rfl, behind_tokens⟩ := List.map_eq_cons_iff.1 h
  exact ⟨position, behind, rfl, behind_tokens⟩

theorem exists_singleton_of_map {lexemes : List Lexeme} {token : Token}
    (h : lexemes.map (·.token) = [token]) : ∃ position, lexemes = [⟨position, token⟩] := by
  obtain ⟨position, behind, rfl, none⟩ := exists_cons_of_map h
  obtain rfl := List.map_eq_nil_iff.1 none
  exact ⟨position, rfl⟩

theorem exists_cons_of_symbol? {lexemes rest : List Lexeme} {symbol : Symbol}
    (h : symbol? lexemes = some (symbol, rest)) :
    ∃ position, lexemes = ⟨position, .symbol symbol⟩ :: rest := by
  rw [symbol?.eq_def] at h
  split at h
  · next position found behind =>
    obtain ⟨rfl, rfl⟩ := Prod.mk.inj (Option.some.inj h)
    exact ⟨position, rfl⟩
  · cases h

theorem binary?_cons (op : BinaryOp) (position : Nat) (rest : List Lexeme) :
    binary? op.precedence (⟨position, .symbol (.op (.binary op))⟩ :: rest) = some (op, rest) := by
  simp [binary?, symbol?, Operator.binary?]

theorem unary?_cons (op : UnaryOp) (position : Nat) (rest : List Lexeme) :
    unary? (⟨position, .symbol (.op op.operator)⟩ :: rest) = some (op, rest) := by
  cases op <;> rfl

/-! ### Readers -/

/-- Whether the readers read an expression from its tokens. -/
structure Reads (ctx : ParseContext) (e : Expr) : Prop where
  expression {outer room : Nat} {lexemes rest : List Lexeme} : outer ≤ 1 →
    lexemes.map (·.token) = e.tokens outer → Ends 1 rest → e.nesting ≤ room →
      ctx.conditional (room + 1) (lexemes ++ rest) = .ok (e, rest)
  operand {precedence room : Nat} {lexemes rest : List Lexeme} : 2 ≤ precedence →
    precedence ≤ unaryPrecedence → lexemes.map (·.token) = e.tokens precedence →
      Ends precedence rest → e.nesting + e.parenLevel precedence ≤ room →
        ctx.operand precedence room (lexemes ++ rest) = .ok (e, rest)
  /-- An expression may be the beginning of a run. -/
  run {precedence room : Nat} {lexemes rest : List Lexeme} : 2 ≤ precedence →
    precedence < unaryPrecedence → lexemes.map (·.token) = e.tokens precedence →
      Ends (precedence + 1) rest → e.nesting + e.parenLevel precedence ≤ room →
        ctx.operand precedence room (lexemes ++ rest) =
          ctx.run precedence (room - e.runLength precedence) e rest

variable {ctx : ParseContext} {e : Expr} {precedence room : Nat} {lexemes rest : List Lexeme}

theorem run_of_ends (ends : Ends precedence rest) :
    ctx.run precedence room e rest = .ok (e, rest) := by
  rw [run.eq_def, ends.operator precedence (Nat.le_refl _)]

/-- An operand begins a run of operators that bind less tightly. -/
theorem operand_eq_run (lt : precedence < unaryPrecedence)
    (found : ctx.operand (precedence + 1) room lexemes = .ok (e, rest)) :
    ctx.operand precedence room lexemes = ctx.run precedence room e rest := by
  rw [operand, if_pos lt, found]
  rfl

/-- An operand is also one for operators that bind less tightly. -/
theorem operand_of_le {own : Nat} (le : precedence ≤ own) (le' : own ≤ unaryPrecedence)
    (ends : Ends precedence rest) (found : ctx.operand own room lexemes = .ok (e, rest)) :
    ctx.operand precedence room lexemes = .ok (e, rest) := by
  -- of the precedences in between, no operator follows: their runs are empty
  induction le using Nat.decreasingInduction with
  | self => exact found
  | of_succ precedence lt ih =>
    rw [operand_eq_run (Nat.lt_of_lt_of_le lt le') (ih (ends.mono (Nat.le_succ _))),
      run_of_ends ends]

/-- What is no operator in front is an operand at every precedence. -/
theorem operand_of_primary (le : precedence ≤ unaryPrecedence) (ends : Ends precedence rest)
    (plain : unary? lexemes = none) (found : ctx.primary room lexemes = .ok (e, rest)) :
    ctx.operand precedence room lexemes = .ok (e, rest) := by
  refine operand_of_le le (Nat.le_refl _) ends ?_
  rw [operand, if_neg (Nat.lt_irrefl _), unary.eq_def, plain]
  exact found

/-- An operand that no question mark follows is an expression by itself. -/
theorem conditional_of_operand (ends : Ends 1 rest)
    (found : ctx.operand 2 room lexemes = .ok (e, rest)) :
    ctx.conditional (room + 1) lexemes = .ok (e, rest) := by
  rw [conditional.eq_def]
  dsimp only
  rw [found]
  dsimp only [bind, Except.bind]
  split
  · next others front => exact absurd front (ends.conditional (Nat.le_refl 1) others)
  · rfl

/-! ### Parentheses -/

/-- Parentheses around an expression take a level. -/
theorem operand_of_parentheses
    (expression : ∀ {lexemes rest}, lexemes.map (·.token) = e.tokens 0 → Ends 1 rest →
      ctx.conditional (room + 1) (lexemes ++ rest) = .ok (e, rest))
    (le : precedence ≤ unaryPrecedence) (lt : e.precedence < precedence)
    (tokens : lexemes.map (·.token) = e.tokens precedence) (ends : Ends precedence rest) :
    ctx.operand precedence (room + 1) (lexemes ++ rest) = .ok (e, rest) := by
  rw [Expr.tokens_eq (Nat.le_succ_of_le le), Expr.enclose_of_lt lt] at tokens
  obtain ⟨front, closing, rfl, front_tokens, closing_tokens⟩ := List.map_eq_append_iff.1 tokens
  obtain ⟨position, inner, rfl, inner_tokens⟩ := exists_cons_of_map front_tokens
  obtain ⟨last, rfl⟩ := exists_singleton_of_map closing_tokens
  have found : ctx.conditional (room + 1) (inner ++ ⟨last, .symbol .rparen⟩ :: rest) =
      .ok (e, ⟨last, .symbol .rparen⟩ :: rest) :=
    expression inner_tokens (.closing (by decide))
  refine operand_of_primary le ends rfl ?_
  rw [List.append_assoc, List.cons_append, List.singleton_append, primary.eq_def]
  dsimp only
  rw [found]
  rfl

/-- All readers read an expression if those do that come to it without parentheses. -/
theorem Reads.intro
    (expression : ∀ {room lexemes rest}, lexemes.map (·.token) = e.tokens 0 → Ends 1 rest →
      e.nesting ≤ room → ctx.conditional (room + 1) (lexemes ++ rest) = .ok (e, rest))
    (operand : ∀ {precedence room lexemes rest}, 2 ≤ precedence → precedence ≤ unaryPrecedence →
      precedence ≤ e.precedence → lexemes.map (·.token) = e.tokens 0 → Ends precedence rest →
        e.nesting ≤ room → ctx.operand precedence room (lexemes ++ rest) = .ok (e, rest))
    (run : ∀ {room lexemes rest}, 2 ≤ e.precedence → e.precedence < unaryPrecedence →
      lexemes.map (·.token) = e.tokens 0 → Ends (e.precedence + 1) rest → e.nesting ≤ room →
        ctx.operand e.precedence room (lexemes ++ rest) =
          ctx.run e.precedence (room - e.runLength e.precedence) e rest) :
    ctx.Reads e := by
  -- without parentheses an expression has the same tokens wherever it stands
  have bare {outer : Nat} (le : outer ≤ e.precedence) (nine : outer ≤ 9) :
      e.tokens outer = e.tokens 0 := by
    rw [Expr.tokens_eq nine, Expr.enclose_of_le le]
  have as_operand {precedence room : Nat} {lexemes rest : List Lexeme} (two : 2 ≤ precedence)
      (le : precedence ≤ unaryPrecedence) (tokens : lexemes.map (·.token) = e.tokens precedence)
      (ends : Ends precedence rest) (fits : e.nesting + e.parenLevel precedence ≤ room) :
      ctx.operand precedence room (lexemes ++ rest) = .ok (e, rest) := by
    -- parentheses are needed exactly if the expression binds less tightly
    rcases Nat.lt_or_ge e.precedence precedence with lt | ge
    · have level : e.parenLevel precedence = 1 := if_pos lt
      obtain ⟨below, rfl⟩ : ∃ below, room = below + 1 := ⟨room - 1, by omega⟩
      exact operand_of_parentheses (fun tokens ends => expression tokens ends (by omega)) le lt
        tokens ends
    · rw [bare ge (Nat.le_succ_of_le le)] at tokens
      exact operand two le ge tokens ends (Nat.le_of_add_right_le fits)
  refine ⟨fun le tokens ends fits => ?_, as_operand,
    fun {precedence _ _ _} two lt tokens ends fits => ?_⟩
  · rw [bare (Nat.le_trans le e.one_le_precedence) (Nat.le_trans le (by decide))] at tokens
    exact expression tokens ends fits
  · -- only operators of its own precedence make an expression a longer run than one operand
    by_cases own : e.precedence = precedence
    · subst own
      rw [bare (Nat.le_refl _) (Nat.le_of_lt (Nat.lt_succ_of_lt lt))] at tokens
      exact run two lt tokens ends (Nat.le_of_add_right_le fits)
    · have same : e.parenLevel (precedence + 1) = e.parenLevel precedence := by
        unfold Expr.parenLevel
        split <;> split <;> omega
      rw [Expr.runLength_eq_zero own, Nat.sub_zero]
      refine operand_eq_run lt (as_operand (Nat.le_succ_of_le two) lt ?_ ends ?_)
      · rw [Expr.tokens_succ lt own, tokens]
      · rw [same]
        exact fits

/-- The reader gets through all precedences to what binds at least as tightly as unary operators. -/
theorem Reads.of_unaryPrecedence (le : unaryPrecedence ≤ e.precedence)
    (operand : ∀ {room lexemes rest}, lexemes.map (·.token) = e.tokens 0 →
      Ends unaryPrecedence rest → e.nesting ≤ room →
        ctx.operand unaryPrecedence room (lexemes ++ rest) = .ok (e, rest)) :
    ctx.Reads e := by
  have bare {precedence room : Nat} {lexemes rest : List Lexeme} (le : precedence ≤ unaryPrecedence)
      (tokens : lexemes.map (·.token) = e.tokens 0) (ends : Ends precedence rest)
      (fits : e.nesting ≤ room) :
      ctx.operand precedence room (lexemes ++ rest) = .ok (e, rest) :=
    operand_of_le le (Nat.le_refl _) ends (operand tokens (ends.mono le) fits)
  refine .intro (fun tokens ends fits => ?_) (fun _ le _ => bare le)
    (fun _ lt => absurd lt (Nat.not_lt.2 le))
  exact conditional_of_operand ends (bare (by decide) tokens (ends.mono (by decide)) fits)

/-- An expression that ends a run. -/
theorem Reads.of_run (two : 2 ≤ e.precedence) (lt : e.precedence < unaryPrecedence)
    (run : ∀ {room lexemes rest}, lexemes.map (·.token) = e.tokens 0 →
      Ends (e.precedence + 1) rest → e.nesting ≤ room →
        ctx.operand e.precedence room (lexemes ++ rest) =
          ctx.run e.precedence (room - e.runLength e.precedence) e rest) :
    ctx.Reads e := by
  have bare {precedence room : Nat} {lexemes rest : List Lexeme} (le : precedence ≤ e.precedence)
      (tokens : lexemes.map (·.token) = e.tokens 0) (ends : Ends precedence rest)
      (fits : e.nesting ≤ room) :
      ctx.operand precedence room (lexemes ++ rest) = .ok (e, rest) := by
    refine operand_of_le le (Nat.le_of_lt lt) ends ?_
    have own := ends.mono le
    rw [run tokens (own.mono (Nat.le_succ _)) fits, run_of_ends own]
  refine .intro (fun tokens ends fits => ?_) (fun _ _ le => bare le) (fun _ _ => run)
  exact conditional_of_operand ends (bare two tokens (ends.mono (by decide)) fits)

/-! ### The readers along an expression -/

/-- Literals are read from their single token. -/
theorem reads_literal (ctx : ParseContext) (value : Datum) : ctx.Reads (.literal value) := by
  have atomic : unaryPrecedence ≤ (Expr.literal value).precedence := Nat.le_succ _
  refine .of_unaryPrecedence atomic fun {room lexemes rest} tokens ends _ => ?_
  rw [Expr.tokens] at tokens
  obtain ⟨position, rfl⟩ := exists_singleton_of_map tokens
  refine operand_of_primary (Nat.le_refl _) ends ?_ ?_
  · cases value <;> rfl
  · rw [List.singleton_append, primary.eq_def]
    rcases value with x | b | s | _
    · rfl
    · cases b <;> rfl
    · rfl
    · rfl

/-- Names that are not reserved are read. -/
theorem reads_name {text : String} (free : reserved? text = none) : ctx.Reads (.name text) := by
  have atomic : unaryPrecedence ≤ (Expr.name text).precedence := Nat.le_succ _
  refine .of_unaryPrecedence atomic fun {room lexemes rest} tokens ends _ => ?_
  rw [Expr.tokens] at tokens
  obtain ⟨position, rfl⟩ := exists_singleton_of_map tokens
  refine operand_of_primary (Nat.le_refl _) ends rfl ?_
  rw [List.singleton_append, primary.eq_def]
  dsimp only
  rw [free]
  dsimp only
  split
  · next others front => exact absurd front (ends.call others)
  · rfl

/-- An operator in front of an operand is read if the operand is. -/
theorem reads_unary (op : UnaryOp) {operand : Expr} (reads : ctx.Reads operand) :
    ctx.Reads (.unary op operand) := by
  refine .of_unaryPrecedence (Nat.le_refl _) fun {room lexemes rest} tokens ends fits => ?_
  rw [Expr.tokens, Expr.enclose_of_le (Nat.zero_le _)] at tokens
  obtain ⟨position, inner, rfl, inner_tokens⟩ := exists_cons_of_map tokens
  rw [Expr.nesting] at fits
  obtain ⟨below, rfl⟩ : ∃ below, room = below + 1 := ⟨room - 1, by omega⟩
  have found := reads.operand (by decide) (Nat.le_refl _) inner_tokens ends
    (Nat.le_of_succ_le_succ fits)
  rw [ParseContext.operand, if_neg (Nat.lt_irrefl _)] at found ⊢
  rw [List.cons_append, unary.eq_def, unary?_cons]
  dsimp only
  rw [found]
  rfl

/-- An operator between two operands is read if the operands are. -/
theorem reads_binary (op : BinaryOp) {left right : Expr} (reads_left : ctx.Reads left)
    (reads_right : ctx.Reads right) : ctx.Reads (.binary op left right) := by
  obtain ⟨two, lt⟩ := op.precedence_bounds
  refine .of_run two lt fun {room lexemes rest} tokens ends fits => ?_
  have own : (Expr.binary op left right).precedence = op.precedence := rfl
  have length : (Expr.binary op left right).runLength op.precedence =
      left.runLength op.precedence + 1 := if_pos rfl
  rw [own] at ends ⊢
  rw [Expr.tokens, Expr.enclose_of_le (Nat.zero_le _)] at tokens
  obtain ⟨front, behind, rfl, front_tokens, behind_tokens⟩ := List.map_eq_append_iff.1 tokens
  obtain ⟨position, back, rfl, back_tokens⟩ := exists_cons_of_map behind_tokens
  rw [Expr.nesting] at fits
  obtain ⟨below, room_eq⟩ : ∃ below, room - left.runLength op.precedence = below + 1 :=
    ⟨room - left.runLength op.precedence - 1, by omega⟩
  have right_fits : right.nesting + right.parenLevel (op.precedence + 1) ≤ below := by omega
  have room_behind : room - (left.runLength op.precedence + 1) = below := by omega
  -- what is to the left ends at the operator, which binds less tightly than anything inside it
  have left_ends : Ends (op.precedence + 1)
      (⟨position, .symbol (.op (.binary op))⟩ :: (back ++ rest)) := .binary (Nat.lt_succ_self _)
  have left_found := reads_left.run two lt front_tokens left_ends
    (Nat.le_trans (Nat.le_max_left _ _) fits)
  have right_found := reads_right.operand (Nat.le_succ_of_le two) lt back_tokens ends right_fits
  -- the left operand begins the run, and this operator continues it
  rw [List.append_assoc, List.cons_append, left_found, room_eq, run.eq_def, binary?_cons]
  dsimp only
  rw [right_found, length, room_behind]
  rfl

/-- A conditional is read if its parts are. -/
theorem reads_conditional {condition yes no : Expr} (reads_condition : ctx.Reads condition)
    (reads_yes : ctx.Reads yes) (reads_no : ctx.Reads no) :
    ctx.Reads (.conditional condition yes no) := by
  have low : (Expr.conditional condition yes no).precedence = 1 := rfl
  refine .intro (fun {room lexemes rest} tokens ends fits => ?_) (by omega) (by omega)
  rw [Expr.tokens, Expr.enclose_of_le (Nat.zero_le _)] at tokens
  obtain ⟨first, behind, rfl, first_tokens, behind_tokens⟩ := List.map_eq_append_iff.1 tokens
  obtain ⟨question, others, rfl, others_tokens⟩ := exists_cons_of_map behind_tokens
  obtain ⟨second, behind, rfl, second_tokens, behind_tokens⟩ :=
    List.map_eq_append_iff.1 others_tokens
  obtain ⟨colon, third, rfl, third_tokens⟩ := exists_cons_of_map behind_tokens
  rw [Expr.nesting] at fits
  obtain ⟨below, rfl⟩ : ∃ below, room = below + 1 := ⟨room - 1, by omega⟩
  -- the parts are read from the last one on, since each of them ends with what follows it
  have no_found := reads_no.expression (Nat.le_refl 1) third_tokens ends (show _ ≤ below by omega)
  have yes_ends : Ends 1 (⟨colon, .symbol .colon⟩ :: (third ++ rest)) := .closing (by decide)
  have yes_found := reads_yes.expression (Nat.le_refl 1) second_tokens yes_ends
    (show _ ≤ below by omega)
  have condition_ends (behind : List Lexeme) : Ends 2 (⟨question, .symbol .question⟩ :: behind) :=
    .question (Nat.le_refl 2)
  have condition_found (behind : List Lexeme) := reads_condition.operand (Nat.le_refl 2)
    (by decide) first_tokens (condition_ends behind) (Nat.le_trans (Nat.le_max_left _ _) fits)
  rw [List.append_assoc, List.cons_append, List.append_assoc, List.cons_append,
    conditional.eq_def]
  dsimp only
  rw [condition_found]
  dsimp only [bind, Except.bind, symbol?]
  rw [yes_found]
  dsimp only [expect, symbol?]
  rw [if_pos rfl]
  dsimp only
  rw [no_found]
  rfl

/-- Arguments are read one by one up to the closing parenthesis. -/
theorem arguments_of_reads {args : List Expr} (nonempty : args ≠ [])
    (reads : ∀ arg ∈ args, ctx.Reads arg) (position : Nat) (rest : List Lexeme) {fuel : Nat}
    (enough : args.length ≤ fuel) (tokens : lexemes.map (·.token) = Expr.argTokens args)
    (fits : Expr.nestingList args ≤ room) :
    ctx.arguments (ctx.conditional room) fuel
      (lexemes ++ ⟨position, .symbol .rparen⟩ :: rest) = .ok (args, rest) := by
  induction args generalizing fuel lexemes with
  | nil => exact absurd rfl nonempty
  | cons first args ih =>
    rw [List.length_cons] at enough
    rw [Expr.nestingList] at fits
    obtain ⟨fuel, rfl⟩ : ∃ less, fuel = less + 1 := ⟨fuel - 1, by omega⟩
    obtain ⟨below, rfl⟩ : ∃ below, room = below + 1 := ⟨room - 1, by omega⟩
    have read := reads first List.mem_cons_self
    rw [arguments]
    -- the last argument ends at the closing parenthesis, and all others at a comma
    cases args with
    | nil =>
      rw [Expr.argTokens] at tokens
      have ends : Ends 1 (⟨position, .symbol .rparen⟩ :: rest) := .closing (by decide)
      have found := read.expression (Nat.zero_le 1) tokens ends (show _ ≤ below by omega)
      rw [found]
      rfl
    | cons second args =>
      rw [Expr.argTokens_cons_cons] at tokens
      obtain ⟨front, behind, rfl, front_tokens, behind_tokens⟩ := List.map_eq_append_iff.1 tokens
      obtain ⟨comma, back, rfl, back_tokens⟩ := exists_cons_of_map behind_tokens
      have ends (behind : List Lexeme) : Ends 1 (⟨comma, .symbol .comma⟩ :: behind) :=
        .closing (by decide)
      have found (behind : List Lexeme) :=
        read.expression (Nat.zero_le 1) front_tokens (ends behind) (show _ ≤ below by omega)
      have more := ih (List.cons_ne_nil _ _)
        (fun arg mem => reads arg (List.mem_cons_of_mem _ mem))
        (Nat.le_of_succ_le_succ enough) back_tokens (Nat.le_trans (Nat.le_max_right _ _) fits)
      rw [List.append_assoc, List.cons_append, found]
      dsimp only [symbol?]
      rw [more]
      rfl

/-- A call is read if its arguments are. -/
theorem reads_call {function : String} {args : List Expr} (free : reserved? function = none)
    (reads : ∀ arg ∈ args, ctx.Reads arg) : ctx.Reads (.call function args) := by
  have atomic : unaryPrecedence ≤ (Expr.call function args).precedence := Nat.le_succ _
  refine .of_unaryPrecedence atomic fun {room lexemes rest} tokens ends fits => ?_
  rw [Expr.tokens] at tokens
  obtain ⟨front, closing, rfl, front_tokens, closing_tokens⟩ := List.map_eq_append_iff.1 tokens
  obtain ⟨position, behind, rfl, behind_tokens⟩ := exists_cons_of_map front_tokens
  obtain ⟨opening, inner, rfl, inner_tokens⟩ := exists_cons_of_map behind_tokens
  obtain ⟨last, rfl⟩ := exists_singleton_of_map closing_tokens
  refine operand_of_primary (Nat.le_refl _) ends rfl ?_
  rw [List.append_assoc, List.singleton_append, List.cons_append, List.cons_append, primary.eq_def]
  dsimp only
  rw [free]
  dsimp only [symbol?]
  -- empty parentheses are told from arguments by the symbol that follows
  by_cases empty : args = []
  · subst empty
    obtain rfl := List.map_eq_nil_iff.1 inner_tokens
    rfl
  · rw [Expr.nesting] at fits
    have enough : args.length ≤ (inner ++ ⟨last, .symbol .rparen⟩ :: rest).length + 1 := by
      have := Expr.length_le_argTokens args
      rw [← inner_tokens, List.length_map] at this
      rw [List.length_append]
      omega
    have found := arguments_of_reads empty reads last rest enough inner_tokens fits
    split
    · next others front =>
      obtain ⟨token, others, start, ne⟩ := Expr.exists_cons_argTokens empty
      rw [start] at inner_tokens
      obtain ⟨first, inner, rfl, -⟩ := exists_cons_of_map inner_tokens
      obtain ⟨_, same⟩ := exists_cons_of_symbol? front
      exact absurd (Lexeme.mk.inj (List.cons.inj same).1).2 ne
    · rw [found]
      rfl

end ParseContext

/-- An expression is read from the tokens that it is written with. -/
theorem Expr.reads {e : Expr} (legible : ∀ node ∈ e.nodes, node.IsLegible) (ctx : ParseContext) :
    ctx.Reads e := by
  induction e using inductionOn with
  | literal value => exact ctx.reads_literal value
  | name text => exact ParseContext.reads_name (legible _ (List.mem_singleton.2 rfl)).2
  | unary op operand ih => exact ParseContext.reads_unary op (ih (forall_nodes_unary.1 legible).2)
  | binary op left right ih_left ih_right =>
    obtain ⟨-, left_legible, right_legible⟩ := forall_nodes_binary.1 legible
    exact ParseContext.reads_binary op (ih_left left_legible) (ih_right right_legible)
  | conditional condition yes no ih_condition ih_yes ih_no =>
    obtain ⟨-, condition_legible, yes_legible, no_legible⟩ :=
      forall_nodes_conditional.1 legible
    exact ParseContext.reads_conditional (ih_condition condition_legible) (ih_yes yes_legible)
      (ih_no no_legible)
  | call function args ih =>
    obtain ⟨here, args_legible⟩ := forall_nodes_call.1 legible
    exact ParseContext.reads_call here.2 fun arg mem => ih arg mem (args_legible arg mem)

end CommandGraph
