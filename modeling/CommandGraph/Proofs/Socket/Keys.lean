/-
CommandGraph/Proofs/Socket/Keys.lean

The keys of sockets.

Apart from labels, the sockets of an argument tree are pairs at its leaves, and a pair has one
key on both sides.  So inputs and outputs list the same keys in the same order, first the one
of execution and then those of the leaves (`Command.socketKeys`).  No key lies below two
leaves, and none below the execution of the command and an argument, so that a key is that
of one input and one output, and no edit of what lies below a socket touches another one.
-/
import CommandGraph.Proofs.Occurrence.Reads
import CommandGraph.Proofs.Socket.Channels
import Mathlib.Data.List.Pairwise

namespace CommandGraph

/-! ### Keys on one side -/

/-- The keys of the sockets on one side, in their order. -/
def keysOn (direction : Direction) (sockets : List Socket) : List Key :=
  (sockets.filter (·.direction = direction)).map Socket.key

variable {direction : Direction}

theorem keysOn_append (direction : Direction) (sockets others : List Socket) :
    keysOn direction (sockets ++ others) = keysOn direction sockets ++ keysOn direction others := by
  rw [keysOn, List.filter_append, List.map_append]
  rfl

/-- Labels do not matter for keys. -/
theorem keysOn_bare (direction : Direction) (sockets : List Socket) :
    keysOn direction (sockets.map Socket.bare) = keysOn direction sockets := by
  rw [keysOn, List.filter_map, List.map_map]
  rfl

namespace Occurrence

theorem keysOn_socketPair (direction : Direction) (key : Key) (input output : Channel)
    (inputLabel outputLabel : String) :
    keysOn direction (socketPair key input output inputLabel outputLabel) = [key] := by
  cases direction <;> rfl

theorem keysOn_scalarSockets (direction : Direction) (node : Grammar) (key : Key)
    (subtype : Primitive) : keysOn direction (scalarSockets node key subtype) = [key] := by
  cases subtype <;> exact keysOn_socketPair direction key _ _ _ _

/-- A leaf has its key on both sides, and nothing else has a key. -/
theorem keysOn_ownSockets (direction : Direction) (o : Occurrence) :
    keysOn direction o.ownSockets = if o.isLeaf then [o.key] else [] := by
  cases o with
  | scalar node key subtype => exact keysOn_scalarSockets direction node key subtype
  | branch node key => exact keysOn_socketPair direction key _ _ _ _
  | _ => rfl

theorem keysOn_flatMap_ownSockets (direction : Direction) (os : List Occurrence) :
    keysOn direction (os.flatMap ownSockets) = (os.filter isLeaf).map key := by
  induction os with
  | nil => rfl
  | cons o os ih =>
    rw [List.flatMap_cons, keysOn_append, ih, keysOn_ownSockets, List.filter_cons]
    cases o.isLeaf <;> rfl

end Occurrence

namespace Command

/-! ### Keys of a command -/

/-- The keys of the sockets of a command: that of its execution, and those of the leaves of its
arguments. -/
def socketKeys (c : Command) (values : Values) (expanded : Bool) : List Key :=
  (if c.category.isStatement then [.flow] else []) ++
    if expanded || !c.hasArguments then
      ((c.walk (.ofValues values) true).all.filter Occurrence.isLeaf).map Occurrence.key
    else []

theorem keysOn_flowSockets (c : Command) (direction : Direction) :
    keysOn direction c.flowSockets = if c.category.isStatement then [.flow] else [] := by
  rw [flowSockets]
  split
  · exact Occurrence.keysOn_socketPair direction _ _ _ _ _
  · rfl

/-- The arguments have the keys of their leaves on both sides. -/
theorem keysOn_argumentSockets (c : Command) (values : Values) (direction : Direction) :
    keysOn direction (c.argumentSockets values) =
      ((c.walk (.ofValues values) true).all.filter Occurrence.isLeaf).map Occurrence.key := by
  rw [← keysOn_bare, argumentSockets_bare, keysOn_bare, Occurrence.keysOn_flatMap_ownSockets]

/-- Both sides list the same keys. -/
theorem keysOn_sockets (c : Command) (values : Values) (expanded : Bool) (direction : Direction) :
    keysOn direction (c.flowSockets ++
      if expanded || !c.hasArguments then c.argumentSockets values else []) =
        c.socketKeys values expanded := by
  rw [keysOn_append, keysOn_flowSockets, socketKeys]
  congr 1
  split
  · exact keysOn_argumentSockets c values direction
  · rfl

end Command

/-! ### Keys apart -/

/-- No key lies below the execution of a command and behind the start of its walk. -/
theorem Key.apart_flow_of_beyond {key : Key} (h : key.Beyond .root) : Key.flow.Apart key := by
  obtain ⟨s, rest, rfl, unmarked⟩ := h
  intro path more e
  rw [flow, marked, push_eq_extend, extend_extend, extend_extend] at e
  exact unmarked .flow (List.cons.inj (extend_injective e)).1.symm

namespace Command

/-- The keys of sockets lie apart. -/
theorem socketKeys_apart (c : Command) (values : Values) (expanded : Bool) :
    (c.socketKeys values expanded).Pairwise Key.Apart := by
  rw [socketKeys, List.pairwise_append]
  refine ⟨?_, ?_, ?_⟩
  · split
    · exact List.pairwise_singleton _ _
    · exact List.Pairwise.nil
  · split
    · exact List.pairwise_map.2 (c.leaves_apart (.ofValues values) true)
    · exact List.Pairwise.nil
  · -- the key of the execution is not below the start of the walk, where all arguments are
    intro k hk l hl
    split at hk
    · obtain rfl := List.mem_singleton.1 hk
      split at hl
      · obtain ⟨o, ho, rfl⟩ := List.mem_map.1 hl
        exact Key.apart_flow_of_beyond (beyond_root_of_mem_walk (List.mem_filter.1 ho).1)
      · cases hl
    · cases hk

/-- **Sockets come in pairs, one for each key.**  Inputs and outputs of a command have the same
keys in the same order, no key twice and none below another one. -/
theorem sockets_paired_apart (c : Command) (values : Values) (expanded : Bool) :
    (c.sockets values expanded).inputs.map Socket.key =
        (c.sockets values expanded).outputs.map Socket.key ∧
      ((c.sockets values expanded).inputs.map Socket.key).Nodup ∧
      ∀ k ∈ (c.sockets values expanded).inputs.map Socket.key,
        ∀ l ∈ (c.sockets values expanded).inputs.map Socket.key, k.isUnder l = true → k = l := by
  have inputs : (c.sockets values expanded).inputs.map Socket.key =
      c.socketKeys values expanded := c.keysOn_sockets values expanded .input
  have outputs : (c.sockets values expanded).outputs.map Socket.key =
      c.socketKeys values expanded := c.keysOn_sockets values expanded .output
  have apart := c.socketKeys_apart values expanded
  rw [inputs, outputs]
  refine ⟨rfl, apart.imp Key.Apart.ne, fun k hk l hl under => ?_⟩
  by_contra ne
  have separate : k.Apart l := apart.forall hk hl ne
  rw [separate.isUnder_eq_false] at under
  cases under

end Command

end CommandGraph
