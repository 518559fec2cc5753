/-
CommandGraph/Occurrence/Basic.lean

Readings and occurrences: the argument tree of a command under given values.

A reading is what a lookup of one key may answer: a value may be present, missing, or out of
reach because the connections that lead to it form a cycle or end in code that fails.

Where a grammar says what may stand behind a command, an occurrence says what does:
optional arguments are present or not, repeated ones have so many items, choices have
an option selected.  Every occurrence knows its grammar node and its key.  Sockets,
bindings and the written text of a command are all read off this tree.

`Occurrence.all` lists the occurrences of a tree, children before their parents.
-/
import CommandGraph.Grammar.Basic
import CommandGraph.Key.Text
import CommandGraph.Values

namespace CommandGraph

/-! ### Readings -/

/-- Why a value is out of reach. -/
inductive ResolveError where
  | cyclicConnection (node : String) (key : Key)
  | evaluationFailed (node : String) (key : Key) (message : String)
  deriving DecidableEq

namespace ResolveError

def message : ResolveError → String
  | cyclicConnection node key =>
    "Cyclic connection detected while resolving '" ++ key.text ++ "' on node '" ++ node ++ "'"
  | evaluationFailed node key message =>
    "Embedded code of node '" ++ node ++ "' at '" ++ key.text ++ "' failed: " ++ message

/-- Whether strict generation has to reject the graph.  Code that fails is shown in its place. -/
def isFatal : ResolveError → Bool
  | cyclicConnection .. => true
  | evaluationFailed .. => false

end ResolveError

/-- The answer to one lookup. -/
abbrev Reading :=
  Except ResolveError (Option Scalar)

/-- Where lookups come from. -/
abbrev Source :=
  Key → Reading

namespace Source

/-- Stored values, all within reach. -/
def ofValues (values : Values) : Source :=
  fun key => .ok values[key]?

/-- The value at a key; one that is out of reach counts as missing. -/
def value? (source : Source) (key : Key) : Option Scalar :=
  match source key with
  | .ok value => value
  | .error _ => none

/-- The flag at a key. -/
def flag (source : Source) (key : Key) : Bool :=
  (source.value? key).any Scalar.asFlag

/-- The number of items at a key. -/
def count (source : Source) (key : Key) : Nat :=
  ((source.value? key).map Scalar.asCount).getD 0

/-- The text at a key. -/
def text? (source : Source) (key : Key) : Option String :=
  (source.value? key).map Scalar.display

@[simp] theorem value?_ofValues (values : Values) (key : Key) :
    (ofValues values).value? key = values[key]? := rfl

/-- Items that are live stay so when their number is kept. -/
theorem lt_count_ofValues {values other : Values} {key : Key}
    (kept : ∀ value, values[key]? = some value → other[key]? = some value) {i : Nat}
    (live : i < (ofValues values).count key) : i < (ofValues other).count key := by
  rw [count, value?_ofValues] at live ⊢
  cases found : values[key]? with
  | none =>
    rw [found] at live
    cases live
  | some value =>
    rw [kept value found]
    rwa [found] at live

end Source

/-! ### Occurrences -/

/-- A grammar node in use, at its key. -/
inductive Occurrence where
  /-- A value: of a primitive, or of an array without an item node. -/
  | scalar (node : Grammar) (key : Key) (subtype : Primitive) (reading : Reading)
  /-- The text of a keyword or an assignment. -/
  | literal (node : Grammar) (key : Key) (text : String)
  /-- An optional argument; the content is missing when it is not walked. -/
  | optional (node : Grammar) (key : Key) (enabled : Bool) (content : Option Occurrence)
  /-- The items of a repeated argument. -/
  | repeated (node : Grammar) (key : Key) (count : Nat) (items : List Occurrence)
  | choice (node : Grammar) (key : Key) (selected : Option Grammar) (content : Option Occurrence)
  | block (node : Grammar) (key : Key) (children : List Occurrence)
  /-- A block that is filled by the statements connected to it. -/
  | branch (node : Grammar) (key : Key)
  | subcommand (node : Grammar) (key : Key) (param : Option Occurrence) (args : List Occurrence)
  | group (node : Grammar) (key : Key) (children : List Occurrence)
  | array (node : Grammar) (key : Key) (items : List Occurrence)
  | base (node : Grammar) (key : Key) (param : Option Occurrence)

namespace Occurrence

/-- The grammar node that occurs. -/
def node : Occurrence → Grammar
  | scalar node .. | literal node .. | optional node .. | repeated node .. | choice node ..
  | block node .. | branch node .. | subcommand node .. | group node .. | array node ..
  | base node .. => node

/-- The key at which the node occurs. -/
def key : Occurrence → Key
  | scalar _ key .. | literal _ key .. | optional _ key .. | repeated _ key .. | choice _ key ..
  | block _ key .. | branch _ key .. | subcommand _ key .. | group _ key .. | array _ key ..
  | base _ key .. => key

mutual

/-- The occurrences of a tree, children before their parents. -/
def all : Occurrence → List Occurrence
  | scalar node key subtype reading => [scalar node key subtype reading]
  | literal node key text => [literal node key text]
  | optional node key enabled content =>
    allOfOption content ++ [optional node key enabled content]
  | repeated node key count items => allOfList items ++ [repeated node key count items]
  | choice node key selected content => allOfOption content ++ [choice node key selected content]
  | block node key children => allOfList children ++ [block node key children]
  | branch node key => [branch node key]
  | subcommand node key param args =>
    allOfOption param ++ allOfList args ++ [subcommand node key param args]
  | group node key children => allOfList children ++ [group node key children]
  | array node key items => allOfList items ++ [array node key items]
  | base node key param => allOfOption param ++ [base node key param]

def allOfOption : Option Occurrence → List Occurrence
  | none => []
  | some o => o.all

def allOfList : List Occurrence → List Occurrence
  | [] => []
  | o :: os => o.all ++ allOfList os

end

theorem allOfList_eq_flatMap (os : List Occurrence) : allOfList os = os.flatMap all := by
  induction os with
  | nil => rfl
  | cons o os ih => simp [allOfList, ih]

end Occurrence

/-- The argument tree of a whole command. -/
structure Arguments where
  /-- The parameter in brackets. -/
  param : Option Occurrence
  args : List Occurrence

/-- The occurrences of a command, its parameter first, children before their parents. -/
def Arguments.all (arguments : Arguments) : List Occurrence :=
  Occurrence.allOfOption arguments.param ++ Occurrence.allOfList arguments.args

end CommandGraph
