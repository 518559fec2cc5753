/-
CommandGraph/Graph/Factory.lean

New nodes with ids of their own.

Ids are `node-1`, `node-2` and so on.  A factory that takes up the work on an existing
graph continues behind the largest id of this form.  The counter has 64 bits; a
factory that would have to count further is exhausted.

What is known of a new node besides its id, for every state of the factory, is
`create?_eq_some`: it stands for its command with the command's defaults.
-/
import CommandGraph.Command
import CommandGraph.Graph.Basic

namespace CommandGraph

/-! ### Numbers of ids -/

/-- The counter behind the ids of new nodes. -/
structure Factory where
  next : Nat := 1

namespace Factory

/-- What the ids of new nodes start with. -/
def stem : String :=
  "node-"

/-- The number of an id, if it has the form of an id of a new node. -/
def number? (id : String) : Option Nat :=
  if stem.toList.isPrefixOf id.toList then
    Natural.ofText? (id.toList.drop stem.length)
  else none

/-! ### Counting on -/

/-- A factory whose next id is the given number, unless that is too large. -/
def startingAt? (next : Nat) : Option Factory :=
  if next < Natural.bound then some { next } else none

/-- A factory that continues behind the ids in use. -/
def resume? (ids : List String) : Option Factory :=
  match (ids.filterMap number?).max? with
  | some largest => startingAt? (largest + 1)
  | none => some {}

/-! ### New nodes -/

/-- A new node for a command, and the factory for the next one. -/
def create? (factory : Factory) (c : Command) (position : Position) (name : String) :
    Option (Node × Factory) :=
  -- the last number of all is never given away: the factory behind it could not be counted
  (startingAt? (factory.next + 1)).map fun following =>
    let node : Node := {
      id := stem ++ toString factory.next
      name
      command := c
      values := c.defaults
      expanded := c.hasArguments
      visible := true
      position
      sockets := {} }
    (node.refresh, following)

/-- A new node holds the defaults of its command, and its sockets are projected from them. -/
theorem create?_eq_some {factory following : Factory} {c : Command} {position : Position}
    {name : String} {node : Node}
    (h : factory.create? c position name = some (node, following)) :
    node.command = c ∧ node.values = c.defaults ∧ node.refresh = node := by
  obtain ⟨_, -, e⟩ := Option.map_eq_some_iff.1 h
  obtain ⟨rfl, -⟩ := Prod.ext_iff.1 e
  exact ⟨rfl, rfl, rfl⟩

end Factory

end CommandGraph
