/-
CommandGraph/Proofs/Render/Chain.lean

Chains of statements, one node at a time.

A chain that meets a node of its path ends there; otherwise it enters the node, writes it
with what its branches hold, and goes on behind it (`Graph.chain_of_node?`).
-/
import CommandGraph.Render.Generate

namespace CommandGraph.Graph

section

variable (g : Graph) (options : RenderOptions) (path : List String)

/-! ### The parts of a chain -/

/-- What the branch at a key of a node holds. -/
def branchText (id : String) (key : Key) : RenderM String :=
  match g.follow? ⟨id, key⟩ with
  | some target => return "\n".intercalate (← g.chain options (id :: path) target)
  | none => return ""

/-- The text of a node with what its branches hold; hidden nodes have none. -/
def nodeText (id : String) (node : Node) : RenderM String :=
  if node.visible then
    node.command.render options (g.view options.limits id) (g.branchText options path id)
  else pure ""

/-- The texts of the nodes behind a node. -/
def textsBehind (id : String) : RenderM (List String) :=
  match g.follow? ⟨id, .flow⟩ with
  | some next => g.chain options (id :: path) next
  | none => pure []

end

variable {g : Graph} {options : RenderOptions} {path : List String} {id : String}

/-! ### The cases of a chain -/

/-- A chain that comes back to its path reports a cycle. -/
theorem chain_of_mem (met : id ∈ path) :
    g.chain options path id = do return [← rejectCycle id] := by
  rw [chain, dif_pos met]

theorem chain_of_node?_eq_none (new : id ∉ path) (missing : g.node? id = none) :
    g.chain options path id = pure [] := by
  rw [chain, dif_neg new]
  split
  · rfl
  · next node found =>
    rw [missing] at found
    cases found

/-- A chain enters its first node, writes it, and goes on behind it; an empty text is left out. -/
theorem chain_of_node? {node : Node} (new : id ∉ path) (found : g.node? id = some node) :
    g.chain options path id = do
      enter id
      let text ← g.nodeText options path id node
      let rest ← g.textsBehind options path id
      return if text.isEmpty then rest else text :: rest := by
  rw [chain, dif_neg new]
  split
  · next missing =>
    rw [missing] at found
    cases found
  · next other found' =>
    obtain rfl := Option.some.inj (found.symm.trans found')
    -- both sides follow the same connections and differ in nothing but the names of their parts
    rw [nodeText, textsBehind]
    cases node.visible with
    | true => cases g.follow? ⟨id, .flow⟩ <;> rfl
    | false => cases g.follow? ⟨id, .flow⟩ <;> rfl

/-! ### Roots -/

/-- The chains of a graph are those that start at the ids of its roots. -/
theorem mapM_roots (g : Graph) (options : RenderOptions) :
    (g.roots.mapM fun node => g.chainText options node.id) =
      (g.roots.map (·.id)).mapM (g.chainText options) := by
  rw [List.mapM_map]
  rfl

end CommandGraph.Graph
