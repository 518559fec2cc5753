/-
CommandGraph/Proofs/Expr/Nodes.lean

The nodes of an expression.

What is asked of all parts of an expression is asked of its nodes (`Expr.nodes`); the
lemmas `Expr.forall_nodes_unary` and the like hand it on to the operands.
`Expr.inductionOn` is induction over expressions, with the arguments of a call as a list.
-/
import CommandGraph.Expr.Basic

namespace CommandGraph.Expr

/-! ### Nodes -/

mutual

/-- The nodes of an expression. -/
def nodes : Expr → List Expr
  | literal value => [literal value]
  | name text => [name text]
  | unary op operand => unary op operand :: operand.nodes
  | binary op left right => binary op left right :: (left.nodes ++ right.nodes)
  | conditional condition yes no =>
    conditional condition yes no :: (condition.nodes ++ (yes.nodes ++ no.nodes))
  | call function args => call function args :: nodesOfList args

/-- The nodes of arguments. -/
def nodesOfList : List Expr → List Expr
  | [] => []
  | e :: es => e.nodes ++ nodesOfList es

end

mutual

theorem length_nodes : ∀ e : Expr, e.nodes.length = e.size
  | literal value | name text => rfl
  | unary op operand => by
    rw [nodes, List.length_cons, length_nodes operand, size]
  | binary op left right => by
    rw [nodes, List.length_cons, List.length_append, length_nodes left, length_nodes right, size]
  | conditional condition yes no => by
    rw [nodes, List.length_cons, List.length_append, List.length_append, length_nodes condition,
      length_nodes yes, length_nodes no, size, Nat.add_assoc condition.size yes.size]
  | call function args => by
    rw [nodes, List.length_cons, length_nodesOfList args, size]

theorem length_nodesOfList : ∀ es : List Expr, (nodesOfList es).length = sizeList es
  | [] => rfl
  | e :: es => by
    rw [nodesOfList, List.length_append, length_nodes e, length_nodesOfList es, sizeList]

end

section

variable {P : Expr → Prop}

/-! ### What holds of all nodes -/

/-- A statement about all nodes is one about the node at the root and about those of its
operands. -/
theorem forall_nodes_unary {op : UnaryOp} {operand : Expr} :
    (∀ node ∈ (unary op operand).nodes, P node) ↔
      P (unary op operand) ∧ ∀ node ∈ operand.nodes, P node :=
  List.forall_mem_cons

theorem forall_nodes_binary {op : BinaryOp} {left right : Expr} :
    (∀ node ∈ (binary op left right).nodes, P node) ↔
      P (binary op left right) ∧ (∀ node ∈ left.nodes, P node) ∧ ∀ node ∈ right.nodes, P node := by
  rw [nodes, List.forall_mem_cons, List.forall_mem_append]

theorem forall_nodes_conditional {condition yes no : Expr} :
    (∀ node ∈ (conditional condition yes no).nodes, P node) ↔
      P (conditional condition yes no) ∧ (∀ node ∈ condition.nodes, P node) ∧
        (∀ node ∈ yes.nodes, P node) ∧ ∀ node ∈ no.nodes, P node := by
  rw [nodes, List.forall_mem_cons, List.forall_mem_append, List.forall_mem_append]

theorem forall_nodesOfList {args : List Expr} :
    (∀ node ∈ nodesOfList args, P node) ↔ ∀ arg ∈ args, ∀ node ∈ arg.nodes, P node := by
  induction args with
  | nil => simp only [nodesOfList, List.not_mem_nil, false_implies, implies_true]
  | cons first args ih => rw [nodesOfList, List.forall_mem_append, ih, List.forall_mem_cons]

theorem forall_nodes_call {function : String} {args : List Expr} :
    (∀ node ∈ (call function args).nodes, P node) ↔
      P (call function args) ∧ ∀ arg ∈ args, ∀ node ∈ arg.nodes, P node := by
  rw [nodes, List.forall_mem_cons, forall_nodesOfList]

end

/-! ### Induction -/

/-- Induction over expressions. -/
theorem inductionOn {P : Expr → Prop} (literal : ∀ value, P (.literal value))
    (name : ∀ text, P (.name text)) (unary : ∀ op operand, P operand → P (.unary op operand))
    (binary : ∀ op left right, P left → P right → P (.binary op left right))
    (conditional : ∀ condition yes no, P condition → P yes → P no →
      P (.conditional condition yes no))
    (call : ∀ function args, (∀ arg ∈ args, P arg) → P (.call function args)) : ∀ e, P e
  | .literal value => literal value
  | .name text => name text
  | .unary op operand =>
    unary op operand (inductionOn literal name unary binary conditional call operand)
  | .binary op left right =>
    binary op left right (inductionOn literal name unary binary conditional call left)
      (inductionOn literal name unary binary conditional call right)
  | .conditional condition yes no =>
    conditional condition yes no
      (inductionOn literal name unary binary conditional call condition)
      (inductionOn literal name unary binary conditional call yes)
      (inductionOn literal name unary binary conditional call no)
  | .call function args =>
    call function args fun arg _ => inductionOn literal name unary binary conditional call arg

end CommandGraph.Expr
