/-
CommandGraph/Proofs/Graph/Waiting.lean

Resolving values along a path that is held in a state.

A resolver keeps the places that wait for their values in one list.  It puts a place on it
before it follows the connection into this place, and takes it off again when it has the value.
Between the two it may get back to itself in several ways: along the next connection, or, where
the connection comes from a node that evaluates code, with every key that the walk of this node
looks up, and with the key of the code.  `Graph.resolveM` is this resolver, with a bound on how
deep its calls are nested and a record of all paths that it has held.

Whatever connections there are, each call gives the value that `Graph.resolveFrom` gives for the
path that it finds, and leaves the path as it was, or is too deep (`Graph.settles_resolveM`).
No call is too deep as soon as one more call may be nested than there are different targets of
connections, as waiting places are different targets.
-/
import CommandGraph.Proofs.Graph.Resolution
import CommandGraph.Proofs.Occurrence.Effects
import Mathlib.Data.List.Dedup
import Mathlib.Data.List.Perm.Subperm

namespace CommandGraph

/-! ### Code that looks its values up in turn -/

namespace Node

/-- Runs embedded code that has been looked up, with the values of the node bound. -/
def runCode (limits : ScriptLimits) (bindings : Bindings) (code : Reading) :
    Except EvaluationError (Option Datum) := do
  match ← code.mapError .resolve with
  | none => return none
  | some code =>
    if (trimBlanks code.display.toList).isEmpty then return none
    else
      let value ← (evaluateText code.display bindings limits).mapError .script
      return some value

/-- What a node gives at a key for a run of its code. -/
def resultOf (node : Node) (key : Key) : Except EvaluationError (Option Datum) → Reading
  | .ok value => .ok (value.map fun value => .text value.display)
  | .error (.resolve error) => .error error
  | .error (.script error) => .error (.evaluationFailed node.id key error.message)

section

variable {m : Type → Type} [Monad m] (node : Node) (limits : ScriptLimits)
  (lookup : Key → m Reading) (key : Key)

/-- Runs the embedded code at a key.  The code itself is looked up if all values are within
reach. -/
def evaluateAtM : m (Except EvaluationError (Option Datum)) := do
  let arguments ← node.command.walkM lookup false
  match arguments.bindings with
  | .error error => return .error (.resolve error)
  | .ok bindings => return runCode limits bindings (← lookup key)

/-- What an `evaluate` node gives at a key: the result it has kept, or that of running its
code. -/
def evaluatedM : m Reading :=
  match node.values[key.result]? with
  | some value => return .ok (some value)
  | none => do return node.resultOf key (← node.evaluateAtM limits lookup key)

end

/-- Running code in two steps: the walk looks values up, and then the code is run with them. -/
theorem evaluateAt_eq (node : Node) (limits : ScriptLimits) (source : Source) (key : Key) :
    node.evaluateAt limits source key =
      match (node.command.walk source false).bindings with
      | .error error => .error (.resolve error)
      | .ok bindings => runCode limits bindings (source key) := by
  rw [evaluateAt]
  cases (node.command.walk source false).bindings <;> rfl

/-- The three outcomes of a run are told apart in one place. -/
theorem evaluated_eq (node : Node) (limits : ScriptLimits) (source : Source) (key : Key) :
    node.evaluated limits source key =
      match node.values[key.result]? with
      | some value => .ok (some value)
      | none => node.resultOf key (node.evaluateAt limits source key) := by
  rw [evaluated]
  cases node.values[key.result]? with
  | some value => rfl
  | none =>
    rcases node.evaluateAt limits source key with (error | error) | value <;> rfl

end Node

/-! ### The resolver -/

/-- What a resolver holds. -/
structure Waiting where
  /-- The places that wait for their values, the last one first. -/
  path : List Place := []
  /-- The paths that have been held, the last one first. -/
  seen : List (List Place) := []
  deriving DecidableEq

/-- A step of a resolver.  It gives nothing where calls are nested too deep. -/
abbrev ResolveM :=
  StateT Waiting Option

namespace ResolveM

/-- A step that is made while a place waits. -/
def hold {α : Type} (place : Place) (step : ResolveM α) : ResolveM α := do
  modify fun held => { path := place :: held.path, seen := (place :: held.path) :: held.seen }
  let a ← step
  modify fun held => { held with path := held.path.tail }
  return a

/-- What a step finds while a place waits, and that the place is off the path again behind it. -/
theorem run_hold {α : Type} (place : Place) (step : ResolveM α) (path : List Place)
    (seen : List (List Place)) :
    (hold place step).run { path, seen } =
      (step.run { path := place :: path, seen := (place :: path) :: seen }).map fun result =>
        (result.1, { result.2 with path := result.2.path.tail }) := by
  rw [hold, StateT.run_bind, StateT.run_modify, pure_bind, StateT.run_bind]
  cases step.run { path := place :: path, seen := (place :: path) :: seen } <;> rfl

end ResolveM

namespace Graph

/-- The value at a place, with less than `depth` calls nested in this one. -/
def resolveM (g : Graph) (limits : ScriptLimits) : Nat → Place → ResolveM Reading
  | 0, _ => failure
  | depth + 1, place =>
    match g.node? place.node with
    | none => return .ok none
    | some node => do
      if place ∈ (← get).path then
        return .error (.cyclicConnection place.node place.key)
      else
        match g.incoming? place with
        | none => return .ok node.values[place.key]?
        | some c =>
          match g.node? c.source.node with
          | none => return .ok node.values[place.key]?
          | some source =>
            ResolveM.hold place <|
              if source.isEvaluate then
                source.evaluatedM limits (fun key => resolveM g limits depth ⟨source.id, key⟩)
                  c.source.key
              else resolveM g limits depth ⟨source.id, c.source.key⟩

/-! ### Paths of waiting places -/

/-- Whether the places on a path are different targets of connections. -/
structure IsPath (g : Graph) (path : List Place) : Prop where
  nodup : path.Nodup
  targets : ∀ p ∈ path, p ∈ g.targets

theorem isPath_nil (g : Graph) : g.IsPath [] where
  nodup := List.nodup_nil
  targets := fun p h => by cases h

/-- A place that is fed and does not wait yet may wait, too. -/
theorem IsPath.cons {g : Graph} {path : List Place} (h : g.IsPath path) {place : Place}
    (new : place ∉ path) (target : place ∈ g.targets) : g.IsPath (place :: path) where
  nodup := List.nodup_cons.2 ⟨new, h.nodup⟩
  targets := List.forall_mem_cons.2 ⟨target, h.targets⟩

/-- There are no more waiting places than different targets. -/
theorem IsPath.length_le {g : Graph} {path : List Place} (h : g.IsPath path) :
    path.length ≤ g.targets.dedup.length :=
  (h.nodup.subperm fun p hp => List.mem_dedup.2 (h.targets p hp)).length_le

/-! ### Steps that settle -/

/-- Whether a step that starts with a path gives a value and leaves this path behind, holding no
places twice meanwhile.  Only if the bound on calls is not enough, it may give nothing. -/
def Settles (g : Graph) (enough : Prop) (path : List Place) {α : Type} (step : ResolveM α) (a : α) :
    Prop :=
  ∀ seen, (step.run { path, seen } = none ∧ ¬ enough) ∨
    ∃ more, step.run { path, seen } = some (a, { path, seen := more ++ seen }) ∧
      (g.IsPath path → ∀ p ∈ more, g.IsPath p)

namespace Settles

variable {g : Graph} {enough : Prop} {path : List Place} {α β : Type}

theorem pure (a : α) : g.Settles enough path (Pure.pure a) a :=
  fun _ => .inr ⟨[], rfl, fun _ _ h => by cases h⟩

/-- Steps in a row.  If either one is too deep then so is the sequence; otherwise the paths that
both have held are recorded. -/
theorem bind {step : ResolveM α} {next : α → ResolveM β} {a : α} {b : β}
    (first : g.Settles enough path step a) (second : g.Settles enough path (next a) b) :
    g.Settles enough path (step >>= next) b := by
  intro seen
  rcases first seen with ⟨deep, h⟩ | ⟨more, first, paths⟩
  · refine .inl ⟨?_, h⟩
    rw [StateT.run_bind, deep]
    rfl
  -- the second step begins with what the first one has recorded
  rcases second (more ++ seen) with ⟨deep, h⟩ | ⟨others, second, paths'⟩
  · refine .inl ⟨?_, h⟩
    rw [StateT.run_bind, first]
    exact deep
  · refine .inr ⟨others ++ more, ?_, ?_⟩
    · rw [StateT.run_bind, first, List.append_assoc]
      exact second
    · intro h p hp
      exact (List.mem_append.1 hp).elim (paths' h p) (paths h p)

/-- Settling is a law of the walk, whatever keys are looked up. -/
theorem law (g : Graph) (enough : Prop) (path : List Place) :
    Law fun _ step a _ => g.Settles enough path step a where
  pure := Settles.pure
  bind := Settles.bind

theorem mono {sufficient : Prop} {step : ResolveM α} {a : α}
    (h : g.Settles enough path step a) (imp : sufficient → enough) :
    g.Settles sufficient path step a := by
  intro seen
  exact (h seen).imp_left fun deep => ⟨deep.1, fun le => deep.2 (imp le)⟩

/-- A step on a longer path settles on the shorter one, with one more path on record. -/
theorem hold {step : ResolveM α} {a : α} {place : Place} (new : place ∉ path)
    (target : place ∈ g.targets) (h : g.Settles enough (place :: path) step a) :
    g.Settles enough path (ResolveM.hold place step) a := by
  intro seen
  -- the step runs with the longer path on record, and takes the place off when it is done
  rcases h ((place :: path) :: seen) with ⟨deep, h⟩ | ⟨more, h, paths⟩
  · refine .inl ⟨?_, h⟩
    rw [ResolveM.run_hold, deep]
    rfl
  · refine .inr ⟨more ++ [place :: path], ?_, ?_⟩
    · rw [ResolveM.run_hold, h, List.append_assoc]
      rfl
    · intro is_path p hp
      have longer := is_path.cons new target
      rcases List.mem_append.1 hp with hp | hp
      · exact paths longer p hp
      · rwa [List.mem_singleton.1 hp]

/-- What a node evaluates settles if its lookups do. -/
theorem evaluatedM {lookup : Key → ResolveM Reading} {source : Source}
    (looks : ∀ key, g.Settles enough path (lookup key) (source key)) (node : Node)
    (limits : ScriptLimits) (key : Key) :
    g.Settles enough path (node.evaluatedM limits lookup key)
      (node.evaluated limits source key) := by
  -- the walk of the node looks its values up, one call each
  have walks : g.Settles enough path (node.command.walkM lookup false)
      (node.command.walk source false) := Command.walkM_reads (law g enough path) looks _ _
  have runs : g.Settles enough path (node.evaluateAtM limits lookup key)
      (node.evaluateAt limits source key) := by
    rw [Node.evaluateAt_eq, Node.evaluateAtM]
    refine walks.bind ?_
    cases (node.command.walk source false).bindings with
    | error error => exact .pure _
    | ok bindings => exact (looks key).bind (.pure _)
  rw [Node.evaluated_eq, Node.evaluatedM]
  cases node.values[key.result]? with
  | some value => exact .pure _
  | none => exact runs.bind (.pure _)

end Settles

/-- **Each call settles.**  A call gives the value for the path that it finds and leaves this path
as it was, and nothing only if it is too deep. -/
theorem settles_resolveM (g : Graph) (limits : ScriptLimits) (depth : Nat) (path : List Place)
    (place : Place) :
    g.Settles (countOpen g.targets.dedup path < depth) path (g.resolveM limits depth place)
      (g.resolveFrom limits path place) := by
  induction depth generalizing path place with
  | zero => exact fun seen => .inl ⟨rfl, Nat.not_lt_zero _⟩
  | succ depth ih =>
    intro seen
    rw [resolveM]
    cases found : g.node? place.node with
    | none =>
      rw [resolveFrom_of_node?_eq_none found]
      exact Settles.pure _ seen
    | some node =>
      simp only [StateT.run_bind, StateT.run_get, pure_bind]
      -- a place that waits already closes a cycle
      by_cases met : place ∈ path
      · rw [if_pos met, resolveFrom_of_mem found met]
        exact Settles.pure _ seen
      rw [if_neg met]
      cases fed : g.incoming? place with
      | none =>
        rw [resolveFrom_of_incoming?_eq_none found met fed]
        exact Settles.pure _ seen
      | some c =>
        cases from_node : g.node? c.source.node with
        | none =>
          simp only [from_node]
          rw [resolveFrom_of_gone found met fed from_node]
          exact Settles.pure _ seen
        | some source =>
          -- one more target waits, so that fewer calls have to be nested in those that follow
          have target := mem_targets fed
          have nested (key : Key) := (ih (place :: path) ⟨source.id, key⟩).mono fun enough =>
            Nat.lt_of_lt_of_le (countOpen_cons_lt met (List.mem_dedup.2 target))
              (Nat.le_of_lt_succ enough)
          simp only [from_node]
          rw [resolveFrom_of_incoming? found met fed from_node]
          refine Settles.hold met target ?_ seen
          -- either the code of the source is run, which looks up its values and itself, or the
          -- value of the source is asked for
          split
          · exact Settles.evaluatedM nested source limits c.source.key
          · exact nested c.source.key

/-- **Resolution ends.**  Whatever connections a graph has, its values are resolved with no more
calls nested in each other than there are different targets of connections.  The places that
wait meanwhile are different targets, and every call leaves them waiting as it found them. -/
theorem resolveM_settles (g : Graph) (limits : ScriptLimits) (place : Place) :
    (∀ depth, g.targets.dedup.length < depth →
      ∃ seen, (g.resolveM limits depth place).run {} =
          some (g.resolve limits place, { path := [], seen }) ∧
        ∀ path ∈ seen, path.Nodup ∧ (∀ p ∈ path, p ∈ g.targets) ∧
          path.length ≤ g.targets.dedup.length) ∧
      ∀ depth before reading after, (g.resolveM limits depth place).run before =
        some (reading, after) → after.path = before.path := by
  constructor
  · intro depth enough
    -- at the start nothing waits, so that all targets are open
    have all_open : countOpen g.targets.dedup [] = g.targets.dedup.length := by
      simp [countOpen]
    rcases g.settles_resolveM limits depth [] place [] with ⟨-, deep⟩ | ⟨seen, run, paths⟩
    · exact absurd (all_open ▸ enough) deep
    · rw [List.append_nil] at run
      refine ⟨seen, run, fun path mem => ?_⟩
      have is_path := paths g.isPath_nil path mem
      exact ⟨is_path.nodup, is_path.targets, is_path.length_le⟩
  · intro depth before reading after run
    rcases g.settles_resolveM limits depth before.path place before.seen with
      ⟨deep, -⟩ | ⟨more, settled, -⟩
    · cases deep.symm.trans run
    · cases settled.symm.trans run
      rfl

/-- A node whose code needs a value that needs the result of this code, and a connection into it
from a node that is gone. -/
def evaluatedLoop : Graph where
  nodes := [
    { id := "run"
      name := "run"
      command := {
        name := "run"
        category := .evaluate
        args := [.primitive { name := some "x" } .value none,
          .primitive { name := some "code" } .embeddedCode none] }
      values := (∅ : Values).insert ((Key.root.ordinal 1).named "code") (.text "x")
      expanded := true
      visible := true
      position := {}
      sockets := {} },
    { id := "keep"
      name := "keep"
      command := { name := "keep", category := .data, args := [.primitive {} .value none] }
      values := ∅
      expanded := true
      visible := true
      position := {}
      sockets := {} }]
  connections := [
    ⟨⟨"run", (Key.root.ordinal 1).named "code"⟩, ⟨"keep", (Key.root.ordinal 0).named "value"⟩⟩,
    ⟨⟨"keep", (Key.root.ordinal 0).named "value"⟩, ⟨"run", (Key.root.ordinal 0).named "x"⟩⟩,
    ⟨⟨"gone", .root⟩, ⟨"run", (Key.root.ordinal 1).named "code"⟩⟩]

/-- Three targets, so that four nested calls are enough.  The value of the loop is an error, and a
call that begins with a path of its own leaves this path behind. -/
theorem resolveM_settles_evaluatedLoop :
    let kept : Place := ⟨"keep", (Key.root.ordinal 0).named "value"⟩
    let bound : Place := ⟨"run", (Key.root.ordinal 0).named "x"⟩
    let cyclic : Reading := .error (.cyclicConnection kept.node kept.key)
    evaluatedLoop.targets.dedup.length = 3 ∧
      (∃ seen, (evaluatedLoop.resolveM {} 4 kept).run {} =
          some (evaluatedLoop.resolve {} kept, { path := [], seen }) ∧
        ∀ path ∈ seen, path.Nodup ∧ (∀ p ∈ path, p ∈ evaluatedLoop.targets) ∧
          path.length ≤ evaluatedLoop.targets.dedup.length) ∧
      (evaluatedLoop.resolveM {} 4 bound).run { path := [kept] } =
        some (cyclic, { path := [kept], seen := [[bound, kept]] }) ∧
      ({ path := [kept], seen := [[bound, kept]] } : Waiting).path =
        ({ path := [kept] } : Waiting).path := by
  intro kept bound cyclic
  have length : evaluatedLoop.targets.dedup.length = 3 := by decide +kernel
  have run : (evaluatedLoop.resolveM {} 4 bound).run { path := [kept] } =
      some (cyclic, { path := [kept], seen := [[bound, kept]] }) := by decide +kernel
  refine ⟨length, ?_, run, ?_⟩
  · exact (evaluatedLoop.resolveM_settles {} kept).1 4 (by rw [length]; decide)
  · exact (evaluatedLoop.resolveM_settles {} bound).2 4 _ _ _ run

end Graph

end CommandGraph
