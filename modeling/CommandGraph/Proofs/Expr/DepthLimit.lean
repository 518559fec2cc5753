/-
CommandGraph/Proofs/Expr/DepthLimit.lean

What the limit on the depth does to a reader.

Readers with different limits take the same steps until one of them has no level left.  So the
limit does not show in what is read, nor in the position and the kind of a fault: if a text is not
too deep for a limit, all higher limits give the same (`Expr.ofText_eq_of_le`).

`ParseContext.Gates` says this of two results.  It holds of steps that take no level and is kept
by sequences, so that it goes through all readers together, by induction on the room that the
lower limit leaves (`ParseContext.gated`).
-/
import CommandGraph.Proofs.Expr.Height

namespace CommandGraph

/-! ### Results that do not depend on the limit -/

/-- Whether an error tells of a limit that was too low. -/
def ScriptError.IsTooDeep : ScriptError → Prop
  | tooDeep _ => True
  | _ => False

/-- Whether a result is not that of a limit that was too low. -/
abbrev IsDeepEnough {α : Type} (result : Except ScriptError α) : Prop :=
  Avoids ScriptError.IsTooDeep result

namespace ParseContext

variable {α β : Type} {ctx : ParseContext}

/-- Whether a result is replaced by that of a reader with a higher limit only if it is too deep for
the reader at hand. -/
def Gates (ctx : ParseContext) (result higher : Except ScriptError α) : Prop :=
  result = ctx.tooDeep ∨ (result = higher ∧ IsDeepEnough result)

namespace Gates

/-- A reader without a level left may be replaced by anything. -/
theorem tooDeep (higher : Except ScriptError α) : ctx.Gates ctx.tooDeep higher :=
  .inl rfl

/-- A result that does not look at the limit is the same for both readers. -/
theorem refl {result : Except ScriptError α} (h : IsDeepEnough result) :
    ctx.Gates result result :=
  .inr ⟨rfl, h⟩

/-- What is read is kept. -/
theorem ok (a : α) : ctx.Gates (.ok a) (.ok a) :=
  refl (.ok a)

/-- A fault is kept, and its position. -/
theorem malformed (position : Nat) (fault : SyntaxFault) :
    ctx.Gates (.error (.malformed position fault) : Except ScriptError α)
      (.error (.malformed position fault)) :=
  refl (.error not_false)

/-- Sequences: if the first step runs out of levels so does the sequence, otherwise both readers go
on behind the same result. -/
theorem bind {first first' : Except ScriptError α} {next next' : α → Except ScriptError β}
    (h : ctx.Gates first first') (h' : ∀ a, ctx.Gates (next a) (next' a)) :
    ctx.Gates (first >>= next) (first' >>= next') := by
  rcases h with rfl | ⟨rfl, deep_enough⟩
  · exact .inl rfl
  · cases first with
    | ok a => exact h' a
    | error e => exact .inr ⟨rfl, deep_enough.of_error⟩

/-- Applying a function to what is read is a sequence whose second step takes no level. -/
theorem map {first first' : Except ScriptError α} (h : ctx.Gates first first') (f : α → β) :
    ctx.Gates (first.map f) (first'.map f) := by
  have as_bind (result : Except ScriptError α) :
      result.map f = result >>= fun a => .ok (f a) := by
    cases result <;> rfl
  rw [as_bind, as_bind]
  exact h.bind fun a => .ok (f a)

end Gates

/-! ### Readers with different limits -/

/-- The reader with another limit. -/
def withLimit (ctx : ParseContext) (limit : Nat) : ParseContext :=
  { ctx with maxDepth := limit }

variable {room more limit : Nat}

/-- A symbol takes no level. -/
theorem gates_expect (symbol : Symbol) (fault : SyntaxFault) (lexemes : List Lexeme) :
    ctx.Gates (ctx.expect symbol fault lexemes)
      ((ctx.withLimit limit).expect symbol fault lexemes) := by
  show ctx.Gates (ctx.expect symbol fault lexemes) (ctx.expect symbol fault lexemes)
  rw [expect]
  split
  · split
    · exact .ok _
    · exact .malformed _ _
  · exact .malformed _ _

/-- Arguments are read by the same steps as soon as each of them is. -/
theorem gates_arguments {item item' : List Lexeme → Parsed}
    (h : ∀ lexemes, ctx.Gates (item lexemes) (item' lexemes)) (fuel : Nat) (lexemes : List Lexeme) :
    ctx.Gates (ctx.arguments item fuel lexemes)
      ((ctx.withLimit limit).arguments item' fuel lexemes) := by
  induction fuel generalizing lexemes with
  | zero => exact .malformed _ _
  | succ fuel ih =>
    rw [arguments, arguments]
    -- the first argument is too deep, and with it the list, or both readers find the same one
    rcases h lexemes with deep | ⟨same, deep_enough⟩
    · rw [deep]
      exact .inl rfl
    · rw [← same]
      cases found : item lexemes with
      | error error =>
        rw [found] at deep_enough
        exact .inr ⟨rfl, deep_enough.of_error⟩
      | ok result =>
        dsimp only
        split
        · exact (ih _).map _
        · exact .ok _
        · exact .malformed _ _

/-- The operators that bind most tightly are the unary ones. -/
theorem operand_unaryPrecedence (ctx : ParseContext) (room : Nat) (lexemes : List Lexeme) :
    ctx.operand Expr.unaryPrecedence room lexemes = ctx.unary room lexemes := by
  rw [operand, if_neg (Nat.lt_irrefl _)]

/-- An operand of a looser operator is one of the next tighter level and the run of operators behind
it. -/
theorem operand_eq_bind {precedence : Nat} (lt : precedence < Expr.unaryPrecedence)
    (ctx : ParseContext) (room : Nat) (lexemes : List Lexeme) :
    ctx.operand precedence room lexemes =
      ctx.operand (precedence + 1) room lexemes >>= fun (first, rest) =>
        ctx.run precedence room first rest := by
  rw [operand, if_pos lt]

/-- Whether readers of expressions and operands with some room are replaced by ones with more room
only where something is too deep for them. -/
structure Gated (ctx : ParseContext) (limit room : Nat) : Prop where
  conditional {more : Nat} (le : room ≤ more) (lexemes : List Lexeme) :
    ctx.Gates (ctx.conditional room lexemes) ((ctx.withLimit limit).conditional more lexemes)
  operand {precedence more : Nat} (tight : precedence ≤ Expr.unaryPrecedence) (le : room ≤ more)
    (lexemes : List Lexeme) :
    ctx.Gates (ctx.operand precedence room lexemes)
      ((ctx.withLimit limit).operand precedence more lexemes)

/-- A primary hands its room on to what stands in parentheses and to arguments. -/
theorem gates_primary
    (conditional : ∀ lexemes, ctx.Gates (ctx.conditional room lexemes)
      ((ctx.withLimit limit).conditional more lexemes)) (lexemes : List Lexeme) :
    ctx.Gates (ctx.primary room lexemes) ((ctx.withLimit limit).primary more lexemes) := by
  rw [primary.eq_def, primary.eq_def]
  split
  · exact .malformed _ _
  · exact .ok _
  · exact .ok _
  · split
    · exact .ok _
    · split
      · split
        · exact .ok _
        · exact (gates_arguments conditional _ _).bind fun _ => .ok _
      · exact .ok _
  · -- in parentheses
    refine (conditional _).bind fun inner => ?_
    exact (gates_expect _ _ _).bind fun _ => .ok _
  · exact .malformed _ _

/-- A unary operator takes one level for its operand. -/
theorem gates_unary
    (conditional : ∀ lexemes, ctx.Gates (ctx.conditional room lexemes)
      ((ctx.withLimit limit).conditional more lexemes))
    (less : ∀ below < room, ctx.Gated limit below) (le : room ≤ more) (lexemes : List Lexeme) :
    ctx.Gates (ctx.unary room lexemes) ((ctx.withLimit limit).unary more lexemes) := by
  rw [unary.eq_def, unary.eq_def]
  split
  · exact gates_primary conditional lexemes
  · next op rest _ =>
    cases room with
    | zero => exact .tooDeep _
    | succ room =>
      -- the higher limit leaves a level, as the lower one does
      obtain ⟨more, rfl⟩ : ∃ n, more = n + 1 := ⟨more - 1, by omega⟩
      have operand := (less room (Nat.lt_succ_self room)).operand (Nat.le_refl _)
        (Nat.le_of_succ_le_succ le) rest
      rw [operand_unaryPrecedence, operand_unaryPrecedence] at operand
      exact operand.bind fun _ => .ok _

/-- A run of operators takes one level for each of them.  The induction is on the room of the lower
limit, with the left operand that has been read so far. -/
theorem gates_run {precedence : Nat} (lt : precedence < Expr.unaryPrecedence)
    (less : ∀ below < room, ctx.Gated limit below) (le : room ≤ more) (left : Expr)
    (lexemes : List Lexeme) :
    ctx.Gates (ctx.run precedence room left lexemes)
      ((ctx.withLimit limit).run precedence more left lexemes) := by
  induction room generalizing more left lexemes with
  | zero =>
    rw [run.eq_def, run.eq_def]
    split
    · exact .ok _
    · exact .tooDeep _
  | succ room ih =>
    obtain ⟨more, rfl⟩ : ∃ n, more = n + 1 := ⟨more - 1, by omega⟩
    have le := Nat.le_of_succ_le_succ le
    rw [run.eq_def, run.eq_def]
    split
    · exact .ok _
    · refine ((less room (Nat.lt_succ_self room)).operand lt le _).bind fun right => ?_
      exact ih (fun below h => less below (Nat.lt_succ_of_lt h)) le _ _

/-- Operands, given what is known about conditionals with the same room and about everything with
less. -/
theorem gates_operand {precedence : Nat}
    (conditional : ∀ lexemes, ctx.Gates (ctx.conditional room lexemes)
      ((ctx.withLimit limit).conditional more lexemes))
    (less : ∀ below < room, ctx.Gated limit below)
    (tight : precedence ≤ Expr.unaryPrecedence) (le : room ≤ more) (lexemes : List Lexeme) :
    ctx.Gates (ctx.operand precedence room lexemes)
      ((ctx.withLimit limit).operand precedence more lexemes) := by
  -- from the operators that bind most tightly to the others
  induction tight using Nat.decreasingInduction generalizing lexemes with
  | self =>
    rw [operand_unaryPrecedence, operand_unaryPrecedence]
    exact gates_unary conditional less le lexemes
  | of_succ precedence lt ih =>
    rw [operand_eq_bind lt, operand_eq_bind lt]
    exact (ih lexemes).bind fun first => gates_run lt less le _ _

/-- Readers with more room take the same steps as long as there is room for both. -/
theorem gated (ctx : ParseContext) (limit room : Nat) : ctx.Gated limit room := by
  induction room using Nat.strongRecOn with
  | ind room less =>
    -- a conditional takes a level, so that its parts have less room; it has to come first, since
    -- operands may hold one in parentheses, with the room that they have themselves
    have conditional {more : Nat} (le : room ≤ more) (lexemes : List Lexeme) :
        ctx.Gates (ctx.conditional room lexemes)
          ((ctx.withLimit limit).conditional more lexemes) := by
      rw [ParseContext.conditional.eq_def, ParseContext.conditional.eq_def]
      cases room with
      | zero => exact .tooDeep _
      | succ room =>
        obtain ⟨more, rfl⟩ : ∃ n, more = n + 1 := ⟨more - 1, by omega⟩
        have le := Nat.le_of_succ_le_succ le
        have below := less room (Nat.lt_succ_self room)
        refine (below.operand (by decide) le lexemes).bind fun read => ?_
        dsimp only
        split
        · refine (below.conditional le _).bind fun yes => ?_
          refine (gates_expect _ _ _).bind fun rest => ?_
          exact (below.conditional le rest).bind fun _ => .ok _
        · exact .ok _
    refine ⟨conditional, fun tight le => ?_⟩
    exact gates_operand (conditional le) less tight le

end ParseContext

/-! ### Tokens -/

namespace Lexeme

/-- The scanner of texts knows no limit: its faults are that a text or an escape does not end. -/
theorem isDeepEnough_scanText (quote : Char) (start position : Nat) (cs : List Char) :
    IsDeepEnough (scanText quote start position cs) := by
  fun_induction scanText quote start position cs with
  | case1 | case2 => exact .error not_false
  | case3 _ _ _ ih => exact ih.map _
  | case4 => exact .ok _
  | case5 _ _ _ _ _ _ ih => exact ih.map _

/-- No token is too deep. -/
theorem isDeepEnough_scan (position : Nat) (c : Char) (cs : List Char) :
    IsDeepEnough (scan position c cs) := by
  rw [scan.eq_def]
  split
  · -- a number
    dsimp only
    split
    · exact .ok _
    · exact .error not_false
  split
  · -- a text in quotes
    split
    · exact .ok _
    · next e found => exact (found ▸ isDeepEnough_scanText _ _ _ cs).of_error
  split
  · exact .ok _
  split
  · exact .ok _
  · split
    · exact .ok _
    · exact .error not_false

/-- Splitting a text into tokens does not depend on the limit, so that it is the same step for both
readers. -/
theorem isDeepEnough_ofChars (position : Nat) (cs : List Char) :
    IsDeepEnough (ofChars position cs) := by
  fun_induction ofChars position cs with
  | case1 => exact .ok _
  | case2 _ _ _ _ ih => exact ih
  | case3 position c cs _ e found =>
    exact (found ▸ isDeepEnough_scan position c cs).of_error
  | case4 _ _ _ _ _ _ _ _ ih => exact ih.map _

end Lexeme

namespace Expr

/-- **The limit only gates.**  A text is too deep for a limit, or it is read like with every higher
one: as the same expression, or with the same fault at the same position. -/
theorem ofText_eq_of_le {source : String} {maxDepth more : Nat} (le : maxDepth ≤ more) :
    ofText source maxDepth = .error (.tooDeep maxDepth) ∨
      (ofText source maxDepth = ofText source more ∧
        ∀ limit, ofText source maxDepth ≠ .error (.tooDeep limit)) := by
  have gates : ParseContext.Gates { sourceLength := source.length, maxDepth }
      (ofText source maxDepth) (ofText source more) := by
    rw [ofText, ofText]
    -- the tokens are the same; then the reader of expressions, and the check that nothing is left
    refine ParseContext.Gates.bind (.inr ⟨rfl, Lexeme.isDeepEnough_ofChars 0 _⟩) fun lexemes => ?_
    split
    · exact .malformed _ _
    · refine ((ParseContext.gated _ more maxDepth).conditional le lexemes).bind fun read => ?_
      dsimp only
      split
      · exact .ok _
      · exact .malformed _ _
  exact gates.imp_right fun same => ⟨same.1, fun limit => same.2 _ trivial⟩

/-- Four levels are enough for a subtraction with a negated divisor on its right, and more make no
difference. -/
theorem ofText_eq_of_le_leaning :
    4 ≤ 64 ∧ ofText "x - y / -z" 4 = .ok leaning ∧
      ofText "x - y / -z" 64 = ofText "x - y / -z" 4 := by
  have le : 4 ≤ 64 := by decide
  have text : leaning.display = "x - y / -z" := by decide +kernel
  have read : ofText leaning.display 4 = .ok leaning :=
    ofText_display_of_nesting (by decide +kernel) (by decide)
  rw [text] at read
  refine ⟨le, read, ?_⟩
  rcases @ofText_eq_of_le "x - y / -z" 4 64 le with deep | ⟨same, -⟩
  · rw [read] at deep
    cases deep
  · exact same.symm

end Expr

end CommandGraph
