/-
CommandGraph/Proofs/Expr/Tokens.lean

The tokens of a written expression.

`Expr.tokens` lists what an expression is written with, parentheses included, and the
written text is split into just these tokens (`Expr.lexes_chars`).  This takes that the
names, numbers and texts of the expression are legible by themselves
(`Expr.IsLegible`); what stands between them is decided here.
-/
import CommandGraph.Proofs.Expr.Lexing
import CommandGraph.Proofs.Expr.Nodes

namespace CommandGraph

/-! ### The tokens that are written -/

/-- The token of a value. -/
def Datum.token : Datum → Token
  | number x => .number x
  | bool b => .ident (if b then "true" else "false")
  | text s => .text s
  | null => .ident "null"

/-- Whether the text of a number denotes this number. -/
def Datum.ReadsBack (x : Float) : Prop :=
  (Decimal.ofChars? (numberChars x)).map Decimal.toFloat = some x

instance : DecidablePred Datum.ReadsBack :=
  fun _ => inferInstanceAs (Decidable (_ = _))

namespace Expr

/-- Puts parentheses around tokens. -/
def enclose (needed : Bool) (tokens : List Token) : List Token :=
  if needed then .symbol .lparen :: tokens ++ [.symbol .rparen] else tokens

mutual

/-- The tokens of an expression in a place where operators bind with `outer`. -/
def tokens (outer : Nat) : Expr → List Token
  | literal value => [value.token]
  | name text => [.ident text]
  | unary op operand =>
    enclose (unaryPrecedence < outer) (.symbol (.op op.operator) :: tokens unaryPrecedence operand)
  | binary op left right =>
    enclose (op.precedence < outer)
      (tokens op.precedence left ++
        .symbol (.op (.binary op)) :: tokens (op.precedence + 1) right)
  | conditional condition yes no =>
    enclose (1 < outer)
      (tokens 2 condition ++
        .symbol .question :: (tokens 1 yes ++ .symbol .colon :: tokens 1 no))
  | call function args =>
    .ident function :: .symbol .lparen :: argTokens args ++ [.symbol .rparen]

/-- The tokens of arguments. -/
def argTokens : List Expr → List Token
  | [] => []
  | [e] => tokens 0 e
  | e :: es => tokens 0 e ++ .symbol .comma :: argTokens es

end

/-- Arguments in front of others end with a comma.  A single argument is a case of its own in the
definition, which has to be ruled out first. -/
theorem argTokens_cons_cons (first second : Expr) (args : List Expr) :
    argTokens (first :: second :: args) =
      first.tokens 0 ++ .symbol .comma :: argTokens (second :: args) := by
  rw [argTokens]
  intro e
  cases e

/-- The text of arguments is put together like their tokens. -/
theorem argChars_cons_cons (first second : Expr) (args : List Expr) :
    argChars (first :: second :: args) =
      first.chars 0 ++ ", ".toList ++ argChars (second :: args) := by
  rw [argChars]
  intro e
  cases e

/-! ### Single tokens -/

/-- Whether what a node holds itself is legible: names are single tokens that are not reserved,
numbers are finite and have no sign, and texts have no characters with other escapes than those
that are read. -/
def IsLegible : Expr → Prop
  | literal (.number x) => x.isFinite = true ∧ (Binary64.ofFloat x).negative = false
  | literal (.text s) => ∀ c ∈ s.toList, Lexeme.IsPlain c
  | name text | call text _ => Lexeme.IsName text ∧ ParseContext.reserved? text = none
  | _ => True

instance : DecidablePred IsLegible
  | literal (.number _) | name _ | call _ _ => inferInstanceAs (Decidable (_ ∧ _))
  | literal (.text s) =>
    decidable_of_iff (s.toList.all (fun c => decide (Lexeme.IsPlain c)) = true) <| by
      simp only [List.all_eq_true, decide_eq_true_eq, IsLegible]
  | literal (.bool _) | literal .null | unary .. | binary .. | conditional .. => isTrue trivial

/-- Whether a node is legible and, if it is a number, is read back. -/
def IsReadable : Expr → Prop
  | literal (.number x) => (literal (.number x)).IsLegible ∧ Datum.ReadsBack x
  | e => e.IsLegible

instance : DecidablePred IsReadable
  | literal (.number _) => inferInstanceAs (Decidable (_ ∧ _))
  | literal (.text s) => inferInstanceAs (Decidable (literal (.text s)).IsLegible)
  | name text => inferInstanceAs (Decidable (name text).IsLegible)
  | call function args => inferInstanceAs (Decidable (call function args).IsLegible)
  | literal (.bool _) | literal .null | unary .. | binary .. | conditional .. => isTrue trivial

/-- Reading back is asked of numbers only, so that a node that reads back is legible in any case. -/
theorem IsReadable.isLegible {e : Expr} (h : e.IsReadable) : e.IsLegible := by
  unfold IsReadable at h
  split at h
  · exact h.1
  · exact h

open Lexeme (Lexes Stops NameChars)

variable {rest : List Char}

/-! ### Literals

Truth values and null are written as names, so that the three reserved names have to be single
tokens, too. -/

/-- The truth values and null are single tokens. -/
theorem nameChars_true : NameChars "true" := by
  decide +kernel

theorem nameChars_false : NameChars "false" := by
  decide +kernel

theorem nameChars_null : NameChars "null" := by
  decide +kernel

/-- A value is read as the one token that stands for it. -/
theorem lexes_literal {value : Datum} (h : (literal value).IsReadable) (stops : Stops rest) :
    Lexes value.chars [value.token] rest := by
  cases value with
  | number x =>
    obtain ⟨c, cs, e, digit, all⟩ := Lexeme.exists_cons_numberChars h.1.1 h.1.2
    -- `ReadsBack` is about the text of the number, which is a digit and what stands behind it
    have read : Datum.ReadsBack x := h.2
    rw [Datum.ReadsBack, e] at read
    have text : (Datum.number x).chars = c :: cs := by
      rw [← e]
      exact String.toList_ofList
    rw [text]
    exact .number digit all read stops
  | bool b =>
    cases b with
    | false => exact .name nameChars_false stops
    | true => exact .name nameChars_true stops
  | text s => exact .text h rest
  | null => exact .name nameChars_null stops

/-! ### Expressions -/

/-- No written expression starts with an equals sign. -/
def Starts (cs : List Char) : Prop :=
  ∃ c behind, cs = c :: behind ∧ c ≠ '='

/-- What a text starts with is not changed by what follows it. -/
theorem Starts.append {cs : List Char} (h : Starts cs) (more : List Char) :
    Starts (cs ++ more) := by
  obtain ⟨c, behind, rfl, ne⟩ := h
  exact ⟨c, behind ++ more, rfl, ne⟩

/-- A parenthesis is no equals sign either. -/
theorem Starts.parenthesize {cs : List Char} (h : Starts cs) (needed : Bool) :
    Starts (parenthesize needed cs) := by
  cases needed with
  | false => exact h
  | true => exact ⟨'(', cs ++ [')'], rfl, by decide⟩

/-- Names start with a letter or an underscore. -/
theorem starts_of_nameChars {name : String} (h : NameChars name) : Starts name.toList := by
  obtain ⟨c, cs, e, -, -, -, start, -⟩ := h
  refine ⟨c, cs, e, ?_⟩
  rintro rfl
  exact absurd start (by decide +kernel)

/-- Values start with a digit, a letter or a quote. -/
theorem starts_literal {value : Datum} (h : (literal value).IsReadable) : Starts value.chars := by
  cases value with
  | number x =>
    obtain ⟨c, cs, e, digit, -⟩ := Lexeme.exists_cons_numberChars h.1.1 h.1.2
    refine ⟨c, cs, ?_, ?_⟩
    · rw [← e]
      exact String.toList_ofList
    · rintro rfl
      cases digit
  | bool b =>
    cases b with
    | false => exact starts_of_nameChars nameChars_false
    | true => exact starts_of_nameChars nameChars_true
  | text s => exact ⟨'"', _, rfl, by decide⟩
  | null => exact starts_of_nameChars nameChars_null

/-- No expression starts with an equals sign, so that an operator in front of one is read alone: a
`!` does not become a `!=`. -/
theorem starts_chars {e : Expr} (h : ∀ node ∈ e.nodes, node.IsReadable) (outer : Nat) :
    Starts (e.chars outer) := by
  induction e using inductionOn generalizing outer with
  | literal value =>
    rw [chars]
    exact starts_literal (h _ (List.mem_singleton.2 rfl))
  | name text =>
    rw [chars]
    exact starts_of_nameChars (.of_isName (h _ (List.mem_singleton.2 rfl)).1)
  | unary op operand _ =>
    rw [chars]
    refine Starts.parenthesize (Starts.append ?_ _) _
    cases op with
    | not => exact ⟨'!', [], rfl, by decide⟩
    | negate => exact ⟨'-', [], rfl, by decide⟩
  | binary op left right ih_left _ =>
    rw [chars]
    refine Starts.parenthesize ?_ _
    -- the left operand comes first, whatever stands behind it
    simp only [List.append_assoc]
    exact Starts.append (ih_left (forall_nodes_binary.1 h).2.1 _) _
  | conditional condition yes no ih_condition _ _ =>
    rw [chars]
    refine Starts.parenthesize ?_ _
    simp only [List.append_assoc]
    exact Starts.append (ih_condition (forall_nodes_conditional.1 h).2.1 _) _
  | call function args _ =>
    rw [chars]
    have start : Starts function.toList :=
      starts_of_nameChars (.of_isName (forall_nodes_call.1 h).1.1)
    exact Starts.append (Starts.append start _) _

/-- Parentheses add their two tokens.  A closing one stops whatever token stands in front of it, so
that the text inside is read as it is in any other place. -/
theorem lexes_parenthesize {cs : List Char} {tokens : List Token}
    (h : ∀ rest, Stops rest → Lexes cs tokens rest) (needed : Bool) (stops : Stops rest) :
    Lexes (parenthesize needed cs) (enclose needed tokens) rest := by
  cases needed with
  | false => exact h rest stops
  | true =>
    have closing : Stops ([')'] ++ rest) := Lexeme.stops_of_mem_marks (by decide) rest
    show Lexes (['('] ++ cs ++ [')']) ([.symbol .lparen] ++ tokens ++ [.symbol .rparen]) rest
    exact ((Lexes.symbol rfl).append (h _ closing)).append (.symbol rfl)

/-- A blank in front of a text adds no token to it. -/
theorem lexes_blank (rest : List Char) : Lexes [' '] [] rest :=
  .blank (by decide +kernel)

/-- The marks of a conditional stand between blanks. -/
theorem lexes_mark {c : Char} {symbol : Symbol} (h : Symbol.ofChar? c = some symbol)
    (rest : List Char) : Lexes [' ', c, ' '] [.symbol symbol] rest :=
  (lexes_blank _).append ((Lexes.symbol h).append (lexes_blank rest))

/-- Arguments that are read in front of everything that stops a token are read between commas,
too. -/
theorem lexes_argChars {args : List Expr}
    (h : ∀ arg ∈ args, ∀ rest, Stops rest → Lexes (arg.chars 0) (arg.tokens 0) rest)
    (stops : Stops rest) : Lexes (argChars args) (argTokens args) rest := by
  induction args with
  | nil => exact .nil rest
  | cons first args ih =>
    cases args with
    | nil => exact h first List.mem_cons_self rest stops
    | cons second args =>
      have others := ih fun arg mem => h arg (List.mem_cons_of_mem _ mem)
      have comma : Lexes [','] [.symbol .comma] (([' '] ++ argChars (second :: args)) ++ rest) :=
        .symbol rfl
      -- the comma and the blank behind it, then the other arguments
      have behind := comma.append ((lexes_blank _).append others)
      have ends (cs : List Char) : Stops (',' :: cs) := Lexeme.stops_of_mem_marks (by decide) cs
      rw [argChars_cons_cons, argTokens_cons_cons, List.append_assoc]
      exact (h first List.mem_cons_self _ (ends _)).append behind

/-- A written expression has the tokens that it is written with. -/
theorem lexes_chars {e : Expr} (h : ∀ node ∈ e.nodes, node.IsReadable) (outer : Nat)
    (stops : Stops rest) : Lexes (e.chars outer) (e.tokens outer) rest := by
  induction e using inductionOn generalizing outer rest with
  | literal value =>
    rw [chars, tokens]
    exact lexes_literal (h _ (List.mem_singleton.2 rfl)) stops
  | name text =>
    rw [chars, tokens]
    exact .name (.of_isName (h _ (List.mem_singleton.2 rfl)).1) stops
  | unary op operand ih =>
    rw [chars, tokens]
    obtain ⟨-, nodes⟩ := forall_nodes_unary.1 h
    refine lexes_parenthesize (fun rest stops => ?_) _ stops
    -- the operator is read alone, since the operand does not start with an equals sign
    obtain ⟨c, behind, start, ne⟩ := starts_chars nodes unaryPrecedence
    have sign : Lexes op.text.toList [.symbol (.op op.operator)]
        (operand.chars unaryPrecedence ++ rest) := by
      refine .unary op fun d mem => ?_
      rw [start] at mem
      obtain rfl := Option.some.inj mem
      exact ne
    exact sign.append (ih nodes unaryPrecedence stops)
  | binary op left right ih_left ih_right =>
    rw [chars, tokens]
    obtain ⟨-, left_nodes, right_nodes⟩ := forall_nodes_binary.1 h
    refine lexes_parenthesize (fun rest stops => ?_) _ stops
    have behind := ih_right right_nodes (op.precedence + 1) stops
    have sign := ((lexes_blank _).append (Lexes.binary op)).append ((lexes_blank _).append behind)
    -- a blank stops the left operand, and what stops the whole stops the right one
    have front := (ih_left left_nodes op.precedence (Lexeme.stops_blank _)).append sign
    simpa using front
  | conditional condition yes no ih_condition ih_yes ih_no =>
    rw [chars, tokens]
    obtain ⟨-, condition_nodes, yes_nodes, no_nodes⟩ := forall_nodes_conditional.1 h
    refine lexes_parenthesize (fun rest stops => ?_) _ stops
    -- from right to left: each part is read in front of the text that follows it
    have last := (lexes_mark (c := ':') rfl _).append (ih_no no_nodes 1 stops)
    have branches := (ih_yes yes_nodes 1 (Lexeme.stops_blank _)).append last
    have front := (ih_condition condition_nodes 2 (Lexeme.stops_blank _)).append
      ((lexes_mark (c := '?') rfl _).append branches)
    simpa using front
  | call function args ih =>
    rw [chars, tokens]
    obtain ⟨here, args_nodes⟩ := forall_nodes_call.1 h
    have named : NameChars function := .of_isName here.1
    have closing : Stops ([')'] ++ rest) := Lexeme.stops_of_mem_marks (by decide) rest
    -- the arguments end at the closing parenthesis, and the name at the opening one
    have listed := lexes_argChars
      (fun arg mem rest stops => ih arg mem (args_nodes arg mem) 0 stops) closing
    have opening (cs : List Char) : Stops ('(' :: cs) := Lexeme.stops_of_mem_marks (by decide) cs
    have front := (Lexes.name named (opening _)).append
      ((Lexes.symbol (c := '(') rfl).append (listed.append (.symbol (c := ')') rfl)))
    simpa using front

end Expr

end CommandGraph
