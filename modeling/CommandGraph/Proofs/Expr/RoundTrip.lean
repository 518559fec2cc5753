/-
CommandGraph/Proofs/Expr/RoundTrip.lean

Written expressions are read back.

A legible expression is split into the tokens that it is written with (`Expr.lexes_chars`),
and these are read as the expression (`Expr.reads`), so that reading is a left inverse of
writing (`Expr.ofText_display`).  The parentheses that are left out are thus not missed.

The reader needs one level more than the nesting of the expression, and two levels for each node are
always enough.  That the texts of numbers denote these numbers is a hypothesis here: it is a
property of the conversions between doubles and decimals, not of expressions.
-/
import CommandGraph.Proofs.Expr.Parsing

namespace CommandGraph.Expr

variable {e : Expr} {maxDepth : Nat}

/-! ### Tokens and nesting -/

/-- The text of an expression has just the tokens that the expression is written with. -/
theorem tokens_ofText_display (h : ∀ node ∈ e.nodes, node.IsReadable) :
    ∃ lexemes, Lexeme.ofText e.display = .ok lexemes ∧ lexemes.map (·.token) = e.tokens 0 := by
  obtain ⟨lexemes, tokens, found⟩ := lexes_chars h 0 Lexeme.stops_nil 0
  refine ⟨lexemes, ?_, tokens⟩
  rw [Lexeme.ofText, display, String.toList_ofList]
  rw [List.append_nil, Lexeme.ofChars] at found
  rw [found]
  exact congrArg Except.ok (List.append_nil lexemes)

/-- A readable expression is read from its text with one level more than it is nested. -/
theorem ofText_display_of_nesting (h : ∀ node ∈ e.nodes, node.IsReadable)
    (deep : e.nesting < maxDepth) : ofText e.display maxDepth = .ok e := by
  obtain ⟨room, rfl⟩ : ∃ room, maxDepth = room + 1 := ⟨maxDepth - 1, by omega⟩
  obtain ⟨lexemes, split, tokens⟩ := tokens_ofText_display h
  obtain ⟨token, behind, start, -⟩ := e.exists_cons_tokens 0
  have some_token : lexemes.isEmpty = false := by
    rw [start] at tokens
    obtain ⟨_, _, rfl, -⟩ := ParseContext.exists_cons_of_map tokens
    rfl
  -- the run of tokens is read up to its end, where nothing goes on with the expression
  have read (ctx : ParseContext) : ctx.conditional (room + 1) lexemes = .ok (e, []) := by
    have reads := e.reads (fun node mem => (h node mem).isLegible) ctx
    have found := reads.expression (Nat.zero_le 1) tokens .nil (Nat.le_of_lt_succ deep)
    rw [List.append_nil] at found
    exact found
  rw [ofText, split]
  dsimp only [bind, Except.bind]
  rw [some_token]
  dsimp only [pure, Except.pure]
  rw [if_neg Bool.false_ne_true, read]
  rfl

/-! ### Reading is inverse to writing -/

/-- **Reading is inverse to writing.**  The text of a legible expression is read as this
expression, if there are two levels for each of its nodes. -/
theorem ofText_display (legible : ∀ node ∈ e.nodes, node.IsLegible)
    (numbers : ∀ x, literal (.number x) ∈ e.nodes → Datum.ReadsBack x)
    (deep : 2 * e.size ≤ maxDepth) : ofText e.display maxDepth = .ok e := by
  refine ofText_display_of_nesting (fun node mem => ?_)
    (Nat.lt_of_lt_of_le e.nesting_lt_size deep)
  have here := legible node mem
  unfold IsReadable
  split
  · next x => exact ⟨here, numbers x mem⟩
  · exact here

/-! ### An expression with nodes of all kinds -/

/-- An expression with nodes of all kinds. -/
def mixed : Expr :=
  conditional
    (binary .and (unary .not (name "open"))
      (binary .less (call "size" [name "größe", literal (.number 2.5)]) (literal (.number 10))))
    (literal (.text "a \"b\"\n"))
    (binary .subtract (name "x") (binary .subtract (unary .negate (name "y")) (literal .null)))

/-- The text of such an expression has parentheses only where they are needed, and is read back. -/
theorem ofText_display_mixed :
    mixed.display = "!open && size(größe, 2.5) < 10 ? \"a \\\"b\\\"\\n\" : x - (-y - null)" ∧
      ofText mixed.display 32 = .ok mixed := by
  refine ⟨by decide +kernel, ofText_display (by decide +kernel) (fun x mem => ?_) (by decide)⟩
  simp only [mixed, nodes, nodesOfList, List.mem_cons, List.mem_append, List.not_mem_nil,
    reduceCtorEq, or_false, false_or, literal.injEq, Datum.number.injEq] at mem
  rcases mem with rfl | rfl <;> decide +kernel

end CommandGraph.Expr
