/-
CommandGraph/Proofs/Expr/Room.lean

The room that an expression takes when it is read.

The reader carries the room that is left for nesting.  `Expr.Fits` is its grammar without
the lexemes: it tells which expressions fit into some room, and every expression that is
read fits into the room that there is for it (`ParseContext.sound`).

An operator of a run takes a level for the time of the run only, and for what stands to its
right only: the left operand of `Fits.next` has had more room than is left, and a run that
has ended leaves its whole room to the next one (`Fits.operand`).
-/
import CommandGraph.Expr.Parser
import CommandGraph.Proofs.Except
import Mathlib.Data.Nat.Init

namespace CommandGraph

/-- What the reader is about to read. -/
inductive Stage where
  | expression
  | operand (precedence : Nat)
  /-- A run of operators, for which there has been some room in total. -/
  | run (precedence total : Nat)
  | primary

namespace Expr

/-! ### Expressions and room -/

/-- Whether there is room for an expression. -/
inductive Fits : Stage → Nat → Expr → Prop
  | literal (room : Nat) (value : Datum) : Fits .primary room (literal value)
  | name (room : Nat) (text : String) : Fits .primary room (name text)
  | call {room : Nat} {args : List Expr} (function : String)
    (h : ∀ arg ∈ args, Fits .expression room arg) : Fits .primary room (call function args)
  | parenthesized {room : Nat} {e : Expr} (h : Fits .expression room e) : Fits .primary room e
  | atom {room : Nat} {e : Expr} (h : Fits .primary room e) :
    Fits (.operand unaryPrecedence) room e
  | unary {room : Nat} {e : Expr} (op : UnaryOp) (h : Fits (.operand unaryPrecedence) room e) :
    Fits (.operand unaryPrecedence) (room + 1) (unary op e)
  | first {precedence room : Nat} {e : Expr} (h : Fits (.operand (precedence + 1)) room e) :
    Fits (.run precedence room) room e
  | next {total room : Nat} {op : BinaryOp} {left right : Expr}
    (h : Fits (.run op.precedence total) (room + 1) left)
    (h' : Fits (.operand (op.precedence + 1)) room right) :
    Fits (.run op.precedence total) room (binary op left right)
  | operand {precedence total room : Nat} {e : Expr} (lt : precedence < unaryPrecedence)
    (h : Fits (.run precedence total) room e) : Fits (.operand precedence) total e
  | plain {room : Nat} {e : Expr} (h : Fits (.operand 2) room e) : Fits .expression (room + 1) e
  | conditional {room : Nat} {condition yes no : Expr} (h : Fits (.operand 2) room condition)
    (h' : Fits .expression room yes) (h'' : Fits .expression room no) :
    Fits .expression (room + 1) (conditional condition yes no)

end Expr

namespace ParseContext

open CommandGraph.Expr (Fits unaryPrecedence)

variable {ctx : ParseContext} {room precedence : Nat} {lexemes rest : List Lexeme} {e left : Expr}

/-- What the reader of arguments gives has been given by the reader of single ones. -/
theorem forall_of_arguments {P : Expr → Prop} {item : List Lexeme → Parsed}
    (h : ∀ {lexemes arg rest}, item lexemes = .ok (arg, rest) → P arg) {fuel : Nat}
    {args : List Expr} (ok : ctx.arguments item fuel lexemes = .ok (args, rest)) :
    ∀ arg ∈ args, P arg := by
  induction fuel generalizing lexemes args with
  | zero => cases ok
  | succ fuel ih =>
    rw [arguments] at ok
    split at ok
    · cases ok
    · next arg behind found =>
      split at ok
      · next others _ =>
        cases more : ctx.arguments item fuel others with
        | error error =>
          rw [more] at ok
          cases ok
        | ok result =>
          rw [more] at ok
          obtain ⟨rfl, rfl⟩ := eq_of_ok_eq ok
          exact List.forall_mem_cons.2 ⟨h found, ih more⟩
      · obtain ⟨rfl, rfl⟩ := eq_of_ok_eq ok
        exact List.forall_mem_singleton.2 (h found)
      · cases ok

/-- A run takes up operators of its own precedence only. -/
theorem precedence_of_binary? {op : BinaryOp}
    (h : binary? precedence lexemes = some (op, rest)) : op.precedence = precedence := by
  rw [binary?.eq_def] at h
  split at h
  · next operator _ _ =>
    cases operator with
    | binary other =>
      rw [Operator.binary?] at h
      split at h
      · next e =>
        obtain ⟨rfl, -⟩ := Prod.mk.inj (Option.some.inj h)
        exact e
      · cases h
    | not => cases h
  · cases h

/-! ### What is read fits -/

/-- Whether the readers of expressions and operands give what there is room for. -/
structure Sound (ctx : ParseContext) (room : Nat) : Prop where
  conditional {lexemes rest : List Lexeme} {e : Expr} :
    ctx.conditional room lexemes = .ok (e, rest) → e.Fits .expression room
  operand {precedence : Nat} {lexemes rest : List Lexeme} {e : Expr} :
    precedence ≤ unaryPrecedence → ctx.operand precedence room lexemes = .ok (e, rest) →
      e.Fits (.operand precedence) room

/-- A primary is a token, a call or an expression in parentheses, for which it leaves the whole
room. -/
theorem fits_of_primary
    (sound : ∀ {lexemes rest e}, ctx.conditional room lexemes = .ok (e, rest) →
      e.Fits .expression room)
    (ok : ctx.primary room lexemes = .ok (e, rest)) : e.Fits .primary room := by
  rw [primary.eq_def] at ok
  split at ok
  · cases ok
  · obtain ⟨rfl, rfl⟩ := eq_of_ok_eq ok
    exact .literal room _
  · obtain ⟨rfl, rfl⟩ := eq_of_ok_eq ok
    exact .literal room _
  · split at ok
    · obtain ⟨rfl, rfl⟩ := eq_of_ok_eq ok
      exact .literal room _
    · -- a name with a parenthesis behind it is a call
      split at ok
      · split at ok
        · obtain ⟨rfl, rfl⟩ := eq_of_ok_eq ok
          exact .call _ fun arg mem => absurd mem List.not_mem_nil
        · obtain ⟨⟨args, behind⟩, found, ok⟩ := bind_eq_ok.1 ok
          obtain ⟨rfl, rfl⟩ := eq_of_ok_eq ok
          exact .call _ (forall_of_arguments sound found)
      · obtain ⟨rfl, rfl⟩ := eq_of_ok_eq ok
        exact .name room _
  · obtain ⟨⟨inner, behind⟩, found, ok⟩ := bind_eq_ok.1 ok
    obtain ⟨_, -, ok⟩ := bind_eq_ok.1 ok
    obtain ⟨rfl, rfl⟩ := eq_of_ok_eq ok
    exact .parenthesized (sound found)
  · cases ok

/-- An operand of a unary operator has a level less. -/
theorem fits_of_unary
    (conditional : ∀ {lexemes rest e}, ctx.conditional room lexemes = .ok (e, rest) →
      e.Fits .expression room)
    (less : ∀ below < room, ctx.Sound below) (ok : ctx.unary room lexemes = .ok (e, rest)) :
    e.Fits (.operand unaryPrecedence) room := by
  rw [unary.eq_def] at ok
  split at ok
  · exact .atom (fits_of_primary conditional ok)
  · split at ok
    · cases ok
    · next op inner _ _ below =>
      obtain ⟨⟨operand, behind⟩, found, ok⟩ := bind_eq_ok.1 ok
      obtain ⟨rfl, rfl⟩ := eq_of_ok_eq ok
      -- the operand is a unary expression again, which is an operand of the tightest level
      have as_operand : ctx.operand unaryPrecedence below inner = .ok (operand, behind) := by
        rw [ParseContext.operand, if_neg (Nat.lt_irrefl _)]
        exact found
      exact .unary op ((less below (Nat.lt_succ_self below)).operand (Nat.le_refl _) as_operand)

/-- A run goes on with less room for every operator, and nothing is known about what is left at its
end. -/
theorem fits_of_run {total : Nat} (lt : precedence < unaryPrecedence)
    (less : ∀ below < room, ctx.Sound below) (fits : left.Fits (.run precedence total) room)
    (ok : ctx.run precedence room left lexemes = .ok (e, rest)) :
    ∃ unused, e.Fits (.run precedence total) unused := by
  induction room generalizing left lexemes with
  | zero =>
    rw [run] at ok
    split at ok
    · obtain ⟨rfl, rfl⟩ := eq_of_ok_eq ok
      exact ⟨0, fits⟩
    · cases ok
  | succ room ih =>
    rw [run] at ok
    split at ok
    · obtain ⟨rfl, rfl⟩ := eq_of_ok_eq ok
      exact ⟨room + 1, fits⟩
    · next op behind operator =>
      obtain ⟨⟨right, behind⟩, found, ok⟩ := bind_eq_ok.1 ok
      -- what stands to the right fits into the room behind the operator; the left one had more
      have right_fits := (less room (Nat.lt_succ_self room)).operand lt found
      obtain rfl := precedence_of_binary? operator
      exact ih (fun below h => less below (Nat.lt_succ_of_lt h)) (.next fits right_fits) ok

/-- An operand is one of the next tighter level with the run behind it, down to unary operators. -/
theorem fits_of_operand
    (conditional : ∀ {lexemes rest e}, ctx.conditional room lexemes = .ok (e, rest) →
      e.Fits .expression room)
    (less : ∀ below < room, ctx.Sound below) (le : precedence ≤ unaryPrecedence)
    (ok : ctx.operand precedence room lexemes = .ok (e, rest)) :
    e.Fits (.operand precedence) room := by
  -- from the operators that bind most tightly to the others
  induction le using Nat.decreasingInduction generalizing e lexemes rest with
  | self =>
    rw [operand, if_neg (Nat.lt_irrefl _)] at ok
    exact fits_of_unary conditional less ok
  | of_succ precedence lt ih =>
    rw [operand, if_pos lt] at ok
    obtain ⟨⟨first, behind⟩, found, ok⟩ := bind_eq_ok.1 ok
    obtain ⟨unused, fits⟩ := fits_of_run lt less (.first (ih found)) ok
    exact .operand lt fits

/-- What is read fits into the room that there is for it. -/
theorem sound (ctx : ParseContext) (room : Nat) : ctx.Sound room := by
  induction room using Nat.strongRecOn with
  | ind room less =>
    -- conditionals first, since operands may hold them in parentheses with the same room
    have conditional {lexemes rest : List Lexeme} {e : Expr}
        (ok : ctx.conditional room lexemes = .ok (e, rest)) : e.Fits .expression room := by
      rw [ParseContext.conditional.eq_def] at ok
      split at ok
      · cases ok
      · next room =>
        have below := less room (Nat.lt_succ_self room)
        have two : 2 ≤ unaryPrecedence := by decide
        obtain ⟨⟨condition, behind⟩, found, ok⟩ := bind_eq_ok.1 ok
        have condition_fits := below.operand two found
        dsimp only at ok
        split at ok
        · obtain ⟨⟨yes, behind⟩, found_yes, ok⟩ := bind_eq_ok.1 ok
          obtain ⟨_, -, ok⟩ := bind_eq_ok.1 ok
          obtain ⟨⟨no, behind⟩, found_no, ok⟩ := bind_eq_ok.1 ok
          obtain ⟨rfl, rfl⟩ := eq_of_ok_eq ok
          exact .conditional condition_fits (below.conditional found_yes)
            (below.conditional found_no)
        · obtain ⟨rfl, rfl⟩ := eq_of_ok_eq ok
          exact .plain condition_fits
    exact ⟨conditional, fun le ok => fits_of_operand conditional less le ok⟩

end ParseContext

end CommandGraph
