/-
CommandGraph/Proofs/Graph/Edited.lean

Graphs that editing leads to.

`Edit` collects the edits of a graph with their arguments, and `Edit.apply` carries one
out; an edit that is refused leaves the graph as it is.  `Graph.Edited policy` holds of
the graphs that any finite sequence of edits leads to from the empty graph; the policy
can restrict the commands of new nodes and the keys at which values are set.

`Graph.Step` says what one edit can do to a graph, once for all edits
(`Edit.step_apply`).  What every step keeps holds of all edited graphs
(`Graph.Edited.invariant`).
-/
import CommandGraph.Graph.Factory
import CommandGraph.Graph.Refresh
import CommandGraph.Proofs.Except

namespace CommandGraph

/-! ### Edits -/

/-- An edit of a graph. -/
inductive Edit where
  /-- Adds the next node of a factory. -/
  | create (factory : Factory) (command : Command) (position : Position) (name : String)
  /-- Adds a copy of a node under another id. -/
  | copy (source id : String)
  | remove (id : String)
  | connect (source target : Place)
  | disconnect (target : Place)
  | setValue (place : Place) (value : Scalar)
  | setExpanded (id : String) (expanded : Bool)
  | setVisible (id : String) (visible : Bool)
  | setCount (place : Place) (count : Nat)
  | select (place : Place) (option : String)
  /-- Runs the code of all `evaluate` nodes anew. -/
  | refresh (limits : ScriptLimits)

/-- The graph that an edit leaves behind, which is the old one if the edit is refused. -/
def Graph.after (g : Graph) (outcome : Except GraphError Graph) : Graph :=
  match outcome with
  | .ok edited => edited
  | .error _ => g

namespace Edit

/-- Carries out an edit. -/
def apply (g : Graph) : Edit → Graph
  | create factory command position name =>
    match factory.create? command position name with
    | some (node, _) => g.after (g.addNode node)
    | none => g
  | copy source id =>
    match g.node? source with
    | some node => g.after (g.addNode { node with id })
    | none => g
  | remove id => g.after (g.removeNode id)
  | connect source target => g.after (g.connect source target)
  | disconnect target =>
    match g.disconnect? target with
    | some (_, rest) => rest
    | none => g
  | setValue place value => g.after (g.setValue place value)
  | setExpanded id expanded => g.after (g.setExpanded id expanded)
  | setVisible id visible => g.after (g.setVisible id visible)
  | setCount place count => g.after (g.setCount place count)
  | select place option => g.after (g.selectOption place option)
  | refresh limits => (g.refreshEvaluations limits).1

end Edit

/-- What edits are restricted to. -/
structure Edit.Policy where
  /-- The commands that new nodes are made for. -/
  command : Command → Prop := fun _ => True
  /-- The keys at which a value of a node is set. -/
  value : Node → Key → Prop := fun _ _ => True

/-- Whether a policy allows an edit. -/
def Edit.Allowed (policy : Edit.Policy) (g : Graph) : Edit → Prop
  | create _ c .. => policy.command c
  | setValue place _ => ∀ node, g.node? place.node = some node → policy.value node place.key
  | _ => True

namespace Graph

/-! ### Graphs that edits lead to -/

/-- The graphs that edits lead to from the empty graph. -/
inductive Edited (policy : Edit.Policy) : Graph → Prop
  | empty : Edited policy {}
  | edit {g : Graph} (h : Edited policy g) (e : Edit) (he : e.Allowed policy g) :
    Edited policy (e.apply g)

/-- A looser policy allows more edits, so that more graphs are reached. -/
theorem Edited.mono {policy looser : Edit.Policy}
    (command : ∀ c, policy.command c → looser.command c)
    (value : ∀ node key, policy.value node key → looser.value node key)
    {g : Graph} (h : Edited policy g) : Edited looser g := by
  induction h with
  | empty => exact .empty
  | edit h e he ih =>
    refine ih.edit e ?_
    cases e with
    | create factory c => exact command c he
    | setValue place v => exact fun node found => value node place.key (he node found)
    | _ => trivial

/-- The graph that some edits lead to, one after the other. -/
def ofEdits (edits : List Edit) : Graph :=
  edits.foldl Edit.apply {}

/-- A list of edits that are all allowed, whatever graph they meet. -/
theorem Edited.ofEdits {policy : Edit.Policy} {edits : List Edit}
    (h : ∀ e ∈ edits, ∀ g, e.Allowed policy g) : Edited policy (ofEdits edits) := by
  -- from any edited graph on, since the list is worked off from its front
  have from_edited : ∀ g : Graph, Edited policy g → Edited policy (edits.foldl Edit.apply g) := by
    induction edits with
    | nil => exact fun _ hg => hg
    | cons e edits ih =>
      intro g hg
      exact ih (fun e' mem => h e' (List.mem_cons_of_mem _ mem)) _
        (hg.edit e (h e List.mem_cons_self g))
  exact from_edited {} .empty

end Graph

/-! ### What an edit does -/

/-- What the edits of a node's state do to the node, before its sockets are projected. -/
inductive Node.Rewrite (policy : Edit.Policy) (node : Node) : Node → Prop
  | value {key : Key} (value : Scalar) (ok : policy.value node key) :
    Rewrite policy node { node with values := node.values.insert key value }
  | expanded (expanded : Bool) : Rewrite policy node { node with expanded }
  | resize (key : Key) (count : Nat) : Rewrite policy node (node.resize key count)
  | select (key : Key) (option : String) : Rewrite policy node (node.select key option)

theorem Node.Rewrite.id_eq {policy : Edit.Policy} {node after : Node}
    (h : node.Rewrite policy after) : after.id = node.id := by
  cases h <;> rfl

/-- An edit of the state keeps the command, so that the node stays what it was made for. -/
theorem Node.Rewrite.command_eq {policy : Edit.Policy} {node after : Node}
    (h : node.Rewrite policy after) : after.command = node.command := by
  cases h <;> rfl

namespace Graph

/-- A graph with a node behind the others. -/
def addition (g : Graph) (node : Node) : Graph :=
  { g with nodes := g.nodes ++ [node] }

/-- A graph with a connection behind the others. -/
def linked (g : Graph) (c : Connection) : Graph :=
  { g with connections := g.connections ++ [c] }

/-- A graph without a node and the connections that touch it. -/
def removal (g : Graph) (id : String) : Graph where
  nodes := g.nodes.eraseP (·.id = id)
  connections := g.connections.filter (!touches id ·)

/-- What one edit can do to a graph. -/
inductive Step (policy : Edit.Policy) (g : Graph) : Graph → Prop
  /-- The edit is refused. -/
  | stay : Step policy g g
  | create {factory following : Factory} {command : Command} {position : Position}
    {name : String} {node : Node}
    (made : factory.create? command position name = some (node, following))
    (ok : policy.command command) (unused : g.node? node.id = none) :
    Step policy g (g.addition node)
  | copy {source id : String} {node : Node} (found : g.node? source = some node)
    (unused : g.node? id = none) : Step policy g (g.addition { node with id })
  | remove {id : String} {node : Node} (found : g.node? id = some node) :
    Step policy g (g.removal id)
  | connect {source target : Place}
    (ok : g.connect source target = .ok (g.linked ⟨source, target⟩)) :
    Step policy g (g.linked ⟨source, target⟩)
  | disconnect (target : Place) :
    Step policy g { g with connections := g.connections.eraseP (·.target = target) }
  | update {old node : Node} (found : g.node? old.id = some old)
    (rewrite : old.Rewrite policy node) : Step policy g (g.update node)
  | setVisible {node : Node} (visible : Bool) (found : g.node? node.id = some node) :
    Step policy g (g.replace { node with visible })
  | refresh (limits : ScriptLimits) : Step policy g (g.refreshEvaluations limits).1

section

variable {policy : Edit.Policy} {g : Graph}

/-! ### What edits give when they are not refused -/

/-- A node that is required is found under the id it was asked for, which is its own. -/
theorem require_eq_ok {id : String} {node : Node} (h : g.require id = .ok node) :
    g.node? id = some node ∧ g.node? node.id = some node := by
  rw [require] at h
  split at h
  · next found hf =>
    obtain rfl := Except.ok.inj h
    exact ⟨hf, (id_of_node? hf).symm ▸ hf⟩
  · simp at h

theorem addNode_eq_ok {node : Node} {edited : Graph} (h : g.addNode node = .ok edited) :
    g.node? node.id = none ∧ edited = g.addition node := by
  rw [addNode] at h
  split at h
  · simp at h
  · next hn => exact ⟨hn, (Except.ok.inj h).symm⟩

theorem removeNode_eq_ok {id : String} {edited : Graph} (h : g.removeNode id = .ok edited) :
    ∃ node, g.node? id = some node ∧ edited = g.removal id := by
  rw [removeNode] at h
  obtain ⟨node, hr, h⟩ := bind_eq_ok.1 h
  exact ⟨node, (require_eq_ok hr).1, (Except.ok.inj h).symm⟩

/-- A connection is added behind the others; the checks in front of it change nothing. -/
theorem connect_eq_linked {source target : Place} {edited : Graph}
    (h : g.connect source target = .ok edited) : edited = g.linked ⟨source, target⟩ := by
  rw [connect] at h
  obtain ⟨output, -, h⟩ := bind_eq_ok.1 h
  obtain ⟨input, -, h⟩ := bind_eq_ok.1 h
  obtain ⟨-, -, h⟩ := bind_eq_ok.1 h
  split at h
  · simp [throw, throwThe, MonadExceptOf.throw] at h
  · exact (Except.ok.inj h).symm

/-- The first connection into a place is dropped. -/
theorem disconnect?_eq_some {target : Place} {c : Connection} {rest : Graph}
    (h : g.disconnect? target = some (c, rest)) :
    rest = { g with connections := g.connections.eraseP (·.target = target) } := by
  rw [disconnect?, Option.map_eq_some_iff] at h
  obtain ⟨d, -, e⟩ := h
  exact (Prod.ext_iff.1 e).2.symm

theorem setVisible_eq_ok {id : String} {visible : Bool} {edited : Graph}
    (h : g.setVisible id visible = .ok edited) :
    ∃ node, g.node? node.id = some node ∧ edited = g.replace { node with visible } := by
  rw [setVisible] at h
  obtain ⟨node, hr, h⟩ := bind_eq_ok.1 h
  exact ⟨node, (require_eq_ok hr).2, (Except.ok.inj h).symm⟩

/-! ### Edits of the state of a node -/

/-- What edits of the state of a node lead to. -/
inductive Updated (policy : Edit.Policy) (g : Graph) : Graph → Prop
  | intro {node after : Node} (found : g.node? node.id = some node)
    (rewrite : node.Rewrite policy after) : Updated policy g (g.update after)

theorem updated_of_setValue {place : Place} {value : Scalar} {edited : Graph}
    (ok : ∀ node, g.node? place.node = some node → policy.value node place.key)
    (h : g.setValue place value = .ok edited) : g.Updated policy edited := by
  rw [setValue] at h
  obtain ⟨node, hr, h⟩ := bind_eq_ok.1 h
  obtain rfl := Except.ok.inj h
  obtain ⟨found, found_by_id⟩ := require_eq_ok hr
  exact .intro found_by_id (.value value (ok node found))

/-- Expanding a node is an update, as its sockets change. -/
theorem updated_of_setExpanded {id : String} {expanded : Bool} {edited : Graph}
    (h : g.setExpanded id expanded = .ok edited) : g.Updated policy edited := by
  rw [setExpanded] at h
  obtain ⟨node, hr, h⟩ := bind_eq_ok.1 h
  obtain rfl := Except.ok.inj h
  exact .intro (require_eq_ok hr).2 (.expanded expanded)

theorem updated_of_setCount {place : Place} {count : Nat} {edited : Graph}
    (h : g.setCount place count = .ok edited) : g.Updated policy edited := by
  rw [setCount] at h
  obtain ⟨node, hr, h⟩ := bind_eq_ok.1 h
  split at h
  · obtain rfl := Except.ok.inj h
    exact .intro (require_eq_ok hr).2 (.resize place.key count)
  · simp [throw, throwThe, MonadExceptOf.throw] at h

/-- Selecting is an update, if there is a choice at the key and it has the option. -/
theorem updated_of_selectOption {place : Place} {option : String} {edited : Graph}
    (h : g.selectOption place option = .ok edited) : g.Updated policy edited := by
  rw [selectOption] at h
  obtain ⟨node, hr, h⟩ := bind_eq_ok.1 h
  split at h
  · simp [throw, throwThe, MonadExceptOf.throw] at h
  · split at h
    · obtain rfl := Except.ok.inj h
      exact .intro (require_eq_ok hr).2 (.select place.key option)
    · simp [throw, throwThe, MonadExceptOf.throw] at h

end

/-! ### Every edit is a step -/

/-- An outcome that is a step whenever it is a graph leads to a step. -/
theorem step_after {policy : Edit.Policy} {g : Graph} {outcome : Except GraphError Graph}
    (h : ∀ edited, outcome = .ok edited → Step policy g edited) :
    Step policy g (g.after outcome) := by
  cases outcome with
  | error error => exact .stay
  | ok edited => exact h edited rfl

end Graph

/-- Every edit is a step. -/
theorem Edit.step_apply {policy : Edit.Policy} (g : Graph) {e : Edit}
    (he : e.Allowed policy g) : Graph.Step policy g (e.apply g) := by
  -- four of the edits are updates
  have updates {outcome : Except GraphError Graph}
      (h : ∀ edited, outcome = .ok edited → g.Updated policy edited) :
      Graph.Step policy g (g.after outcome) := by
    refine Graph.step_after fun edited ho => ?_
    obtain ⟨found, rewrite⟩ := h edited ho
    exact .update found rewrite
  cases e with
  | create factory command position name =>
    rw [apply]
    split
    · next node following made =>
      refine Graph.step_after fun edited ho => ?_
      obtain ⟨unused, rfl⟩ := Graph.addNode_eq_ok ho
      exact .create made he unused
    · exact .stay
  | copy source id =>
    rw [apply]
    split
    · next node found =>
      refine Graph.step_after fun edited ho => ?_
      obtain ⟨unused, rfl⟩ := Graph.addNode_eq_ok ho
      exact .copy found unused
    · exact .stay
  | remove id =>
    refine Graph.step_after fun edited ho => ?_
    obtain ⟨node, found, rfl⟩ := Graph.removeNode_eq_ok ho
    exact .remove found
  | connect source target =>
    refine Graph.step_after fun edited ho => ?_
    obtain rfl := Graph.connect_eq_linked ho
    exact .connect ho
  | disconnect target =>
    rw [apply]
    split
    · next c rest h =>
      rw [Graph.disconnect?_eq_some h]
      exact .disconnect target
    · exact .stay
  | setValue place value => exact updates fun _ => Graph.updated_of_setValue he
  | setExpanded id expanded => exact updates fun _ => Graph.updated_of_setExpanded
  | setVisible id visible =>
    refine Graph.step_after fun edited ho => ?_
    obtain ⟨node, found, rfl⟩ := Graph.setVisible_eq_ok ho
    exact .setVisible visible found
  | setCount place count => exact updates fun _ => Graph.updated_of_setCount
  | select place option => exact updates fun _ => Graph.updated_of_selectOption
  | refresh limits => exact .refresh limits

namespace Graph.Edited

variable {policy : Edit.Policy} {g : Graph}

/-- What holds of the empty graph and is kept by every step holds of every edited graph. -/
theorem invariant {P : Graph → Prop} (h : Edited policy g) (empty : P {})
    (step : ∀ {g edited : Graph}, P g → Step policy g edited → P edited) : P g := by
  induction h with
  | empty => exact empty
  | edit h e he ih => exact step ih (e.step_apply _ he)

end Graph.Edited

end CommandGraph
