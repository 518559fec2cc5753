/-
CommandGraph/Graph/Resolve.lean

Resolving values through connections.

A value comes from where the first connection into its place starts, and from the
node itself if there is none or its source is gone.  A node of the category
`evaluate` gives the result of its embedded code instead: the one it has kept, or that
of running the code now, with the named values of the node bound.

`resolveFrom` carries the path of places that wait for their value.  Each of them is
the target of a connection and none occurs twice, so that the search ends; a place that
is met again closes a cycle.  `countOpen` is the measure of such searches, here and in the
traversal of flow connections: it counts what has not been visited, and drops with every new
element of the path (`countOpen_cons_lt`).
-/
import CommandGraph.Expr.Eval
import CommandGraph.Graph.Basic

namespace CommandGraph

/-! ### What is left to visit -/

section

variable {α : Type} [DecidableEq α]

/-- How many elements of a list have not been visited. -/
def countOpen (elements visited : List α) : Nat :=
  elements.countP (· ∉ visited)

theorem countOpen_cons_le (elements visited : List α) (a : α) :
    countOpen elements (a :: visited) ≤ countOpen elements visited :=
  List.countP_mono_left fun b _ => by simp

theorem countOpen_cons_lt {elements visited : List α} {a : α} (h : a ∉ visited)
    (ha : a ∈ elements) : countOpen elements (a :: visited) < countOpen elements visited := by
  induction elements with
  | nil => simp at ha
  | cons b elements ih =>
    have le := countOpen_cons_le elements visited a
    unfold countOpen at *
    rcases Decidable.em (b = a) with rfl | e
    · rw [List.countP_cons_of_neg (by simp), List.countP_cons_of_pos (by simpa using h)]
      omega
    · have lt := ih (by simpa [Ne.symm e] using ha)
      by_cases hb : b ∈ visited <;> simp_all

end

/-! ### Running embedded code -/

/-- Why embedded code has no result. -/
inductive EvaluationError where
  | resolve (error : ResolveError)
  | script (error : ScriptError)

def EvaluationError.message : EvaluationError → String
  | resolve error => error.message
  | script error => error.message

/-! ### Bindings -/

namespace Occurrence

/-- The binding of a named value that is present. -/
def binding? : Occurrence → Except ResolveError (Option (String × Datum))
  | scalar node _ .value reading =>
    match node.name with
    | none => .ok none
    | some name => reading.map (·.map fun value => (name, Datum.ofArgument value.display))
  | _ => .ok none

/-- The key of embedded code. -/
def codeKey? : Occurrence → Option Key
  | scalar _ key .embeddedCode _ => some key
  | _ => none

end Occurrence

namespace Arguments

/-- The named values, the last one of a name first.  All of them have to be within reach. -/
def bindings (arguments : Arguments) : Except ResolveError Bindings := do
  let found ← arguments.all.mapM Occurrence.binding?
  return found.reduceOption.reverse

/-- The keys of embedded code. -/
def codeKeys (arguments : Arguments) : List Key :=
  arguments.all.filterMap Occurrence.codeKey?

end Arguments

namespace Node

/-- Runs the embedded code at a key, if there is any. -/
def evaluateAt (node : Node) (limits : ScriptLimits) (source : Source) (key : Key) :
    Except EvaluationError (Option Datum) := do
  let bindings ← (node.command.walk source false).bindings.mapError .resolve
  match ← (source key).mapError .resolve with
  | none => return none
  | some code =>
    if (trimBlanks code.display.toList).isEmpty then return none
    else
      let value ← (evaluateText code.display bindings limits).mapError .script
      return some value

/-- What an `evaluate` node gives at a key: the result it has kept, or that of running its code.
The values of the node are looked up in `source`. -/
def evaluated (node : Node) (limits : ScriptLimits) (source : Source) (key : Key) : Reading :=
  match node.values[key.result]? with
  | some value => .ok (some value)
  | none =>
    match node.evaluateAt limits source key with
    | .ok value => .ok (value.map fun value => .text value.display)
    | .error (.resolve error) => .error error
    | .error (.script error) => .error (.evaluationFailed node.id key error.message)

end Node

/-! ### Resolution -/

namespace Graph

/-- The places where connections end. -/
def targets (g : Graph) : List Place :=
  g.connections.map (·.target)

theorem mem_targets {g : Graph} {place : Place} {c : Connection}
    (h : g.incoming? place = some c) : place ∈ g.targets :=
  List.mem_map.2 ⟨c, mem_of_incoming? h, target_of_incoming? h⟩

/-- The value at a place, for the places on a path. -/
def resolveFrom (g : Graph) (limits : ScriptLimits) (path : List Place) (place : Place) :
    Reading :=
  match g.node? place.node with
  | none => .ok none
  | some node =>
    if _hp : place ∈ path then .error (.cyclicConnection place.node place.key)
    else
      match _hc : g.incoming? place with
      | none => .ok node.values[place.key]?
      | some c =>
        match g.node? c.source.node with
        -- a connection from a node that is gone feeds nothing
        | none => .ok node.values[place.key]?
        | some source =>
          -- every value read from such a node counts as embedded code, whatever its argument is
          if source.isEvaluate then
            source.evaluated limits
              (fun key => resolveFrom g limits (place :: path) ⟨source.id, key⟩) c.source.key
          else resolveFrom g limits (place :: path) ⟨source.id, c.source.key⟩
termination_by countOpen g.targets path
decreasing_by all_goals exact countOpen_cons_lt _hp (mem_targets _hc)

/-- The value at a place. -/
def resolve (g : Graph) (limits : ScriptLimits) (place : Place) : Reading :=
  g.resolveFrom limits [] place

/-- The values of a node as they are seen through its connections. -/
def view (g : Graph) (limits : ScriptLimits) (id : String) : Source :=
  fun key => g.resolve limits ⟨id, key⟩

end Graph

end CommandGraph
