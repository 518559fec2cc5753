/-
CommandGraph/Proofs/Expr/Budget.lean

What a budget does to an evaluation.

`Expr.value` evaluates without a budget, and `Expr.visited` lists the nodes that such an evaluation
visits before it has a value or an error; operands that are skipped are not among them.  With a
budget the outcome is

    if maxSteps < e.visited.length then budgetExceeded else e.value

(`Expr.evaluate_eq`), whatever would have gone wrong behind the last step that was paid for.
`EvalContext.Spends` says this of single actions with whatever is left of the budget; it holds of
a step for one node and of sequences.
-/
import CommandGraph.Expr.Eval
import CommandGraph.Proofs.Except
import CommandGraph.Proofs.Expr.Nodes

namespace CommandGraph

/-- What is done after a step, which is nothing where the step has failed. -/
def afterwards {ε α β : Type} (first : Except ε α) (next : α → List β) : List β :=
  match first with
  | .ok a => next a
  | .error _ => []

/-- Whatever comes after a step is a part of what may come after it. -/
theorem afterwards_sublist {ε α β : Type} {first : Except ε α} {next : α → List β} {l : List β}
    (h : ∀ a, (next a).Sublist l) : (afterwards first next).Sublist l := by
  cases first with
  | ok a => exact h a
  | error e => exact l.nil_sublist

namespace Expr

/-! ### Evaluation without a budget -/

variable (bindings : Bindings)

mutual

/-- The value of an expression, whatever number of steps it takes. -/
def value : Expr → Except ScriptError Datum
  | literal value => .ok value
  | name text =>
    match bindings.lookup text with
    | some value => .ok value
    | none => .error (.unboundName text)
  | unary op operand => do op.apply (← operand.value)
  | binary op left right => do
    let leftValue ← left.value
    match op.shortcut? leftValue with
    | some value => return value
    | none => op.apply leftValue (← right.value)
  | conditional condition yes no => do
    if (← condition.value).isTruthy then yes.value else no.value
  | call function args => do Builtin.call function (← valueList args)

/-- The values of arguments, up to the first error. -/
def valueList : List Expr → Except ScriptError (List Datum)
  | [] => return []
  | e :: es => do
    let value ← e.value
    return value :: (← valueList es)

end

mutual

/-- The nodes that are visited until there is a value or an error. -/
def visited : Expr → List Expr
  | literal value => [literal value]
  | name text => [name text]
  | unary op operand => unary op operand :: operand.visited
  | binary op left right =>
    binary op left right :: (left.visited ++ afterwards (left.value bindings) fun leftValue =>
      if (op.shortcut? leftValue).isSome then [] else right.visited)
  | conditional condition yes no =>
    conditional condition yes no ::
      (condition.visited ++ afterwards (condition.value bindings) fun value =>
        if value.isTruthy then yes.visited else no.visited)
  | call function args => call function args :: visitedList args

/-- The nodes that are visited for arguments, up to the first error. -/
def visitedList : List Expr → List Expr
  | [] => []
  | e :: es => e.visited ++ afterwards (e.value bindings) fun _ => visitedList es

end

end Expr

/-! ### Evaluation with a budget -/

namespace EvalContext

/-- Whether an evaluation takes a step for each of some nodes and then has a result. -/
def Spends (ctx : EvalContext) {α : Type} (action : EvalM α) (nodes : List Expr)
    (result : Except ScriptError α) : Prop :=
  ∀ steps, action.run steps =
    if nodes.length ≤ steps then result.map (·, steps - nodes.length)
    else .error (.budgetExceeded ctx.maxSteps)

namespace Spends

variable {ctx : EvalContext} {α β : Type} {nodes : List Expr}

theorem pure (a : α) : ctx.Spends (Pure.pure a) [] (.ok a) :=
  fun _ => rfl

theorem lift (result : Except ScriptError α) : ctx.Spends (liftM result) [] result := by
  intro steps
  cases result <;> rfl

theorem visit {action : EvalM α} {result : Except ScriptError α} (node : Expr)
    (h : ctx.Spends action nodes result) :
    ctx.Spends (ctx.spend >>= fun _ => action) (node :: nodes) result := by
  intro steps
  rw [StateT.run_bind]
  -- without a step left, the budget is exceeded at the node
  cases steps with
  | zero => rfl
  | succ steps =>
    show action.run steps = _
    rw [h steps, List.length_cons, Nat.add_sub_add_right]
    simp only [Nat.add_le_add_iff_right]

/-- The nodes of two actions, one after the other.  The second one is not begun if the first one
fails, and so visits nothing then. -/
theorem bind {first : EvalM α} {next : α → EvalM β} {result : Except ScriptError α}
    {following : α → Except ScriptError β} {more : α → List Expr}
    (h : ctx.Spends first nodes result)
    (h' : ∀ a, ctx.Spends (next a) (more a) (following a)) :
    ctx.Spends (first >>= next) (nodes ++ afterwards result more) (result >>= following) := by
  intro steps
  rw [StateT.run_bind, h steps, List.length_append]
  -- either the budget covers the first action, and the rest of it is what the second one has, or it
  -- ends in the first
  by_cases enough : nodes.length ≤ steps
  · rw [if_pos enough]
    cases result with
    | error e =>
      show Except.error e = _
      rw [afterwards, List.length_nil, Nat.add_zero, if_pos enough]
      rfl
    | ok a =>
      show (next a).run (steps - nodes.length) = _
      rw [h' a, afterwards, Nat.sub_sub]
      congr 1
      exact propext (by omega)
  · rw [if_neg enough, if_neg fun le => enough (Nat.le_of_add_right_le le)]
    rfl

/-- What is done with a value without visiting nodes takes no steps. -/
theorem bind_lift {first : EvalM α} {result : Except ScriptError α}
    (h : ctx.Spends first nodes result) (f : α → Except ScriptError β) :
    ctx.Spends (first >>= fun a => liftM (f a)) nodes (result >>= f) := by
  have none_more : nodes ++ afterwards result (fun _ => []) = nodes := by
    cases result <;> exact List.append_nil nodes
  rw [← none_more]
  exact h.bind fun a => lift (f a)

end Spends

end EvalContext

namespace Expr

mutual

/-- An evaluation takes a step for each node that is visited without a budget. -/
theorem spends_eval (ctx : EvalContext) :
    ∀ e : Expr, ctx.Spends (e.eval ctx) (e.visited ctx.bindings) (e.value ctx.bindings)
  | literal value => by
    rw [eval, visited, Expr.value]
    exact .visit _ (.pure value)
  | name text => by
    rw [eval, visited, Expr.value]
    exact .visit _ (.lift _)
  | unary op operand => by
    rw [eval, visited, Expr.value]
    exact .visit _ ((spends_eval ctx operand).bind_lift op.apply)
  | binary op left right => by
    rw [eval, visited, Expr.value]
    refine .visit _ ((spends_eval ctx left).bind fun leftValue => ?_)
    -- the right operand is skipped if the left one decides
    cases op.shortcut? leftValue with
    | some value => exact .pure value
    | none => exact (spends_eval ctx right).bind_lift (op.apply leftValue)
  | conditional condition yes no => by
    rw [eval, visited, Expr.value]
    refine .visit _ ((spends_eval ctx condition).bind fun value => ?_)
    split
    · exact spends_eval ctx yes
    · exact spends_eval ctx no
  | call function args => by
    rw [eval, visited, Expr.value]
    exact .visit _ ((spends_evalList ctx args).bind_lift (Builtin.call function))

theorem spends_evalList (ctx : EvalContext) :
    ∀ es : List Expr,
      ctx.Spends (evalList ctx es) (visitedList ctx.bindings es) (valueList ctx.bindings es)
  | [] => by
    rw [evalList, visitedList, valueList]
    exact .pure []
  | e :: es => by
    rw [evalList, visitedList, valueList]
    refine (spends_eval ctx e).bind fun value => ?_
    exact (spends_evalList ctx es).bind_lift fun values => .ok (value :: values)

end

/-! ### What is visited -/

variable (bindings : Bindings)

mutual

/-- Nodes are visited in their order, and each of them at most once. -/
theorem visited_sublist : ∀ e : Expr, (e.visited bindings).Sublist e.nodes
  | literal value | name text => .refl _
  | unary op operand => (visited_sublist operand).cons_cons _
  | binary op left right => by
    rw [visited, nodes]
    refine ((visited_sublist left).append (afterwards_sublist fun value => ?_)).cons_cons _
    split
    · exact List.nil_sublist _
    · exact visited_sublist right
  | conditional condition yes no => by
    rw [visited, nodes]
    refine ((visited_sublist condition).append (afterwards_sublist fun value => ?_)).cons_cons _
    split
    · exact (visited_sublist yes).trans (List.sublist_append_left _ _)
    · exact (visited_sublist no).trans (List.sublist_append_right _ _)
  | call function args => (visitedList_sublist args).cons_cons _

theorem visitedList_sublist : ∀ es : List Expr, (visitedList bindings es).Sublist (nodesOfList es)
  | [] => .refl _
  | e :: es => (visited_sublist e).append (afterwards_sublist fun _ => visitedList_sublist es)

end

/-- A budget for all nodes is enough. -/
theorem length_visited_le (e : Expr) : (e.visited bindings).length ≤ e.size :=
  e.length_nodes ▸ (visited_sublist bindings e).length_le

end Expr

/-! ### Errors without a budget -/

/-- Whether an error tells of a budget that was too small. -/
def ScriptError.IsBudget : ScriptError → Prop
  | budgetExceeded _ => True
  | _ => False

/-- Whether a result is not that of a budget that was too small. -/
abbrev IsUnlimited {α : Type} (result : Except ScriptError α) : Prop :=
  Avoids ScriptError.IsBudget result

namespace BinaryOp

/-- Operators on numbers fail on other operands, and otherwise as their function does. -/
theorem isUnlimited_applyNumbers (op : BinaryOp) {f : Float → Float → Except ScriptError Datum}
    (h : ∀ x y, IsUnlimited (f x y)) (left right : Datum) :
    IsUnlimited (op.applyNumbers f left right) := by
  rw [applyNumbers.eq_def]
  split
  · exact h _ _
  · exact .error not_false
  · exact .error not_false

/-- No binary operator looks at the budget. -/
theorem isUnlimited_apply (op : BinaryOp) (left right : Datum) :
    IsUnlimited (op.apply left right) := by
  -- division and remainder fail on a zero
  have division (f : Float → Float → Float) (x y : Float) :
      IsUnlimited (if y == 0 then .error .divisionByZero else .ok (Datum.number (f x y))) := by
    split
    · exact .error not_false
    · exact .ok _
  cases op with
  | or | and | equal | notEqual => exact .ok _
  | add =>
    rw [apply, applyAdd.eq_def]
    split
    · exact .ok _
    · exact .ok _
    · exact .ok _
    · exact .error not_false
  | divide => exact isUnlimited_applyNumbers _ (division _) _ _
  | modulo => exact isUnlimited_applyNumbers _ (division _) _ _
  | _ => exact isUnlimited_applyNumbers _ (fun _ _ => .ok _) _ _

end BinaryOp

/-- No unary operator looks at the budget. -/
theorem UnaryOp.isUnlimited_apply (op : UnaryOp) (value : Datum) :
    IsUnlimited (op.apply value) := by
  rw [apply.eq_def]
  split
  · exact .ok _
  · exact .error not_false
  · exact .ok _

namespace Builtin

/-- Functions of one argument fail if there are others. -/
theorem isUnlimited_single (function : String) (args : List Datum) :
    IsUnlimited (single function args) := by
  rw [single.eq_def]
  split
  · exact .ok _
  · exact .error not_false

/-- Functions of one number fail on all other values, whatever the budget is. -/
theorem isUnlimited_ofNumber (function : String) (f : Float → Float) (args : List Datum) :
    IsUnlimited (ofNumber function f args) := by
  refine (isUnlimited_single function args).bind fun value => ?_
  split
  · exact .ok _
  · exact .error not_false

theorem isUnlimited_numbers (function : String) (args : List Datum) :
    IsUnlimited (numbers function args) := by
  fun_induction numbers function args with
  | case1 => exact .ok _
  | case2 x args ih => exact ih.map _
  | case3 => exact .error not_false

/-- Functions of several numbers fail if there is none. -/
theorem isUnlimited_ofNumbers (function : String) (f : Float → Float → Float) (args : List Datum) :
    IsUnlimited (ofNumbers function f args) := by
  rw [ofNumbers]
  split
  · exact .error not_false
  · refine (isUnlimited_numbers function args).bind fun xs => ?_
    cases xs <;> exact .ok _

/-- No function looks at the budget, and one that does not exist fails for this reason. -/
theorem isUnlimited_call (function : String) (args : List Datum) :
    IsUnlimited (call function args) := by
  rw [call.eq_def]
  split
  · exact isUnlimited_ofNumber _ _ args
  · exact isUnlimited_ofNumber _ _ args
  · exact isUnlimited_ofNumber _ _ args
  · exact isUnlimited_ofNumber _ _ args
  · exact isUnlimited_ofNumbers _ _ args
  · exact isUnlimited_ofNumbers _ _ args
  · refine (isUnlimited_single _ args).bind fun value => ?_
    split
    · exact .ok _
    · exact .error not_false
  · exact (isUnlimited_single _ args).bind fun value => .ok _
  · exact .error not_false

end Builtin

namespace Expr

variable (bindings : Bindings)

/-! ### Expressions -/

mutual

/-- An evaluation without a budget never fails for the lack of steps, so that this error tells the
two apart. -/
theorem isUnlimited_value : ∀ e : Expr, IsUnlimited (e.value bindings)
  | literal value => .ok value
  | name text => by
    rw [value]
    split
    · exact .ok _
    · exact .error not_false
  | unary op operand => (isUnlimited_value operand).bind op.isUnlimited_apply
  | binary op left right => by
    rw [value]
    refine (isUnlimited_value left).bind fun leftValue => ?_
    split
    · exact .ok _
    · exact (isUnlimited_value right).bind (op.isUnlimited_apply leftValue)
  | conditional condition yes no => by
    rw [value]
    refine (isUnlimited_value condition).bind fun value => ?_
    split
    · exact isUnlimited_value yes
    · exact isUnlimited_value no
  | call function args => (isUnlimited_valueList args).bind (Builtin.isUnlimited_call function)

theorem isUnlimited_valueList : ∀ es : List Expr, IsUnlimited (valueList bindings es)
  | [] => .ok []
  | e :: es => (isUnlimited_value e).bind fun _ => (isUnlimited_valueList es).bind fun _ => .ok _

end

/-- **The budget is exact.**  If it covers the nodes that an evaluation without a budget visits, the
result is the one of this evaluation, and otherwise the budget is exceeded.  These are nodes of the
expression, so that a budget for all of them is never exceeded. -/
theorem evaluate_eq (e : Expr) (limits : ScriptLimits) :
    (e.evaluate bindings limits =
      if limits.maxSteps < (e.visited bindings).length then
        .error (.budgetExceeded limits.maxSteps)
      else e.value bindings) ∧
      (∀ limit, e.value bindings ≠ .error (.budgetExceeded limit)) ∧
      (e.visited bindings).Sublist e.nodes ∧ (e.visited bindings).length ≤ e.size ∧
      (e.size ≤ limits.maxSteps →
        ∀ limit, e.evaluate bindings limits ≠ .error (.budgetExceeded limit)) := by
  have exact_budget : e.evaluate bindings limits =
      if limits.maxSteps < (e.visited bindings).length then
        .error (.budgetExceeded limits.maxSteps)
      else e.value bindings := by
    -- the whole budget is what is left at the start
    have run := spends_eval { bindings, maxSteps := limits.maxSteps } e limits.maxSteps
    rw [evaluate]
    show Prod.fst <$> (e.eval _).run limits.maxSteps = _
    rw [run]
    by_cases exceeded : limits.maxSteps < (e.visited bindings).length
    · rw [if_pos exceeded, if_neg (Nat.not_le_of_lt exceeded)]
      rfl
    · rw [if_neg exceeded, if_pos (Nat.le_of_not_lt exceeded)]
      cases e.value bindings <;> rfl
  have unlimited (limit : Nat) : e.value bindings ≠ .error (.budgetExceeded limit) :=
    isUnlimited_value bindings e _ trivial
  have covered := e.length_visited_le bindings
  refine ⟨exact_budget, unlimited, visited_sublist bindings e, covered, ?_⟩
  intro enough
  rw [exact_budget, if_neg (Nat.not_lt_of_le (Nat.le_trans covered enough))]
  exact unlimited

/-- A condition that its first operand decides, and an argument that is not bound. -/
def skipping : Expr :=
  conditional (binary .or (literal (.bool true)) (name "x")) (literal (.text "y"))
    (call "len" [name "z", name "z"])

/-- Eight nodes, of which four are visited: the right operand of the condition and the call are
skipped, so that names without a value do no harm. -/
theorem evaluate_eq_skipping :
    skipping.size = 8 ∧ (skipping.visited []).length = 4 ∧
      skipping.evaluate [] { maxSteps := 3 } = .error (.budgetExceeded 3) ∧
      skipping.evaluate [] { maxSteps := 4 } = .ok (.text "y") ∧
      ∀ limit, skipping.evaluate [] { maxSteps := 8 } ≠ .error (.budgetExceeded limit) := by
  have visited : (skipping.visited []).length = 4 := by decide +kernel
  refine ⟨by decide, visited, ?_, ?_, ?_⟩
  · rw [(evaluate_eq [] skipping { maxSteps := 3 }).1, visited]
    rfl
  · rw [(evaluate_eq [] skipping { maxSteps := 4 }).1, visited]
    rfl
  · exact (evaluate_eq [] skipping { maxSteps := 8 }).2.2.2.2 (by decide)

end Expr

end CommandGraph
