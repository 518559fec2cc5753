/-
CommandGraph/Graph/Refresh.lean

Keeping the results of embedded code.

A refresh forgets all results first, so that nodes which depend on each other see fresh
values, then runs the code of every `evaluate` node and keeps what succeeds.
-/
import CommandGraph.Graph.Edit
import CommandGraph.Graph.Resolve

namespace CommandGraph

/-! ### Forgetting and keeping results -/

/-- Embedded code that failed during a refresh. -/
structure EvaluationFailure where
  place : Place
  error : EvaluationError

namespace Node

/-- The node without kept results, if it evaluates code. -/
def forget (node : Node) : Node :=
  if node.isEvaluate then
    { node with values := node.values.keep (·.marker? ≠ some .result) }
  else node

/-- The node with the result of the code at a key. -/
def keepResult (node : Node) (key : Key) (value : Datum) : Node :=
  { node with values := node.values.insert key.result (.text value.display) }

end Node

namespace Graph

/-- The graph without kept results. -/
def forgetResults (g : Graph) : Graph :=
  { g with nodes := g.nodes.map Node.forget }

/-! ### Running the code -/

/-- The places of embedded code in the nodes that evaluate it. -/
def codePlaces (g : Graph) (limits : ScriptLimits) : List (Node × Key) :=
  (g.nodes.filter Node.isEvaluate).flatMap fun node =>
    (node.command.walk (g.view limits node.id) false).codeKeys.map (node, ·)

/-- The result of the code at each place. -/
def results (g : Graph) (limits : ScriptLimits) :
    List (Place × Except EvaluationError (Option Datum)) :=
  (g.codePlaces limits).map fun (node, key) =>
    (⟨node.id, key⟩, node.evaluateAt limits (g.view limits node.id) key)

/-- Keeps a result in the node it belongs to. -/
def keepResult (g : Graph) (place : Place) (value : Datum) : Graph :=
  match g.node? place.node with
  | some node => g.replace (node.keepResult place.key value)
  | none => g

/-- The failure among the results of one place. -/
def failure? : Place × Except EvaluationError (Option Datum) → Option EvaluationFailure
  | (place, .error error) => some { place, error }
  | _ => none

/-- Keeps the result of one place, if there is one. -/
def keepOutcome (g : Graph) : Place × Except EvaluationError (Option Datum) → Graph
  | (place, .ok (some value)) => g.keepResult place value
  | _ => g

/-- Runs the code of all `evaluate` nodes anew; the graph with the results, and what failed. -/
def refreshEvaluations (g : Graph) (limits : ScriptLimits) : Graph × List EvaluationFailure :=
  let cleared := g.forgetResults
  -- all code runs on the cleared graph: no result depends on the order of the places
  let outcomes := cleared.results limits
  (outcomes.foldl keepOutcome cleared, outcomes.filterMap failure?)

end Graph

end CommandGraph
