/-
CommandGraph/Command.lean

Commands: a name, what is written for it, and the grammar of its arguments.

A command starts with default values.  Every key that a walk may read under the current values
gets a value if it has none: texts are empty, flags are off, repeated arguments have one item
(none if they are optional), choices select their first option (none if they are optional).
Counts and selections that are there already are honoured, and nothing is overwritten.
-/
import CommandGraph.Grammar.Basic
import CommandGraph.Values

namespace CommandGraph

/-! ### Commands -/

/-- What part a command takes in a graph. -/
inductive Category where
  /-- A statement, executed in the order of its flow connections. -/
  | statement
  /-- A provider of data. -/
  | data
  /-- A provider of the results of its embedded code. -/
  | evaluate
  deriving DecidableEq

namespace Category

def tag : Category → String
  | statement => "statement"
  | data => "data"
  | evaluate => "evaluate"

def ofTag? (tag : String) : Option Category :=
  [statement, data, evaluate].find? (·.tag == tag)

@[simp] theorem ofTag?_tag (c : Category) : ofTag? c.tag = some c := by
  cases c <;> rfl

/-- Whether commands of the category are executed. -/
def isStatement : Category → Bool
  | statement => true
  | _ => false

end Category

/-- A command and the grammar of its arguments. -/
structure Command where
  /-- The tag under which a library knows the command. -/
  name : String
  /-- What is written for the command, if not its name. -/
  literal? : Option String := none
  category : Category := .statement
  /-- Text right behind the literal and the bracket parameter. -/
  suffix : Option String := none
  /-- The parameter in brackets. -/
  param : Option Grammar := none
  args : List Grammar := []

namespace Command

/-- What is written for the command. -/
def literal (c : Command) : String :=
  c.literal?.getD c.name

def hasArguments (c : Command) : Bool :=
  !c.args.isEmpty || c.param.isSome

end Command

/-! ### Default values -/

namespace Grammar

/-- The number of items at a key, after giving it a value: one, or none for an optional node. -/
def seedCount (g : Grammar) (key : Key) (values : Values) : Values × Nat :=
  let filled := values.fill key.count (.int (if g.isOptional then 0 else 1))
  (filled, (filled[key.count]?.map Scalar.asCount).getD 0)

/-- Applies a step for each of `count` items in turn. -/
def eachItem (count : Nat) (step : Nat → Values → Values) (values : Values) : Values :=
  (List.range count).foldl (fun values i => step i values) values

/-- The selection that a choice starts with. -/
def defaultOption? (g : Grammar) (options : List Grammar) : Option String :=
  if g.isOptional then some noOption else options.head?.map identifier

/-- Fills the node at its key, for each item if it is repeatable. -/
def fillRepeated (g : Grammar) (body : Key → Values → Values) (key : Key) (values : Values) :
    Values :=
  if g.isRepeatable then
    let (values, count) := g.seedCount key values
    eachItem count (fun i => body ((key.ordinal i).join g.identifier)) values
  else body key values

/-- Fills the node below a key, if it can be reached. -/
def fillEnter (g : Grammar) (body : Key → Values → Values) (above : Key) (values : Values) :
    Values :=
  let key := above.join g.identifier
  if !g.isAddressable then values
  else if g.isOptional && !g.isChoice then
    -- the flag of an optional keyword is its value, and there is nothing below it
    if g.isKeyword then values.fill key (.flag false)
    else fillRepeated g body key (values.fill key.enabled (.flag false))
  else fillRepeated g body key values

mutual

/-- Fills the node at its key, neither left out nor repeated. -/
def fillBody : Grammar → Key → Values → Values
  | primitive .., key, values => values.fill key (.text "")
  | keyword .., key, values | assignment .., key, values => values.fill key (.flag false)
  | choice attrs options, key, values =>
    match defaultOption? (choice attrs options) options with
    | none => values
    | some option =>
      let values := values.fill key (.text option)
      -- a selection that was there before is the one whose arguments are filled
      let selection := (values[key]?.map Scalar.display).getD ""
      if selection == noOption then values else fillOption selection options key values
  | block _ content, key, values => fillChildren 0 content key values
  | branch _, _, values => values
  | subcommand _ param args, key, values =>
    fillChildren 0 args key (fillParam param key values)
  | group _ children, key, values => fillChildren 0 children key values
  | array _ none _ _, key, values => values.fill key (.text "")
  | array attrs (some content) delimiters separator, key, values =>
    let (values, count) :=
      (array attrs (some content) delimiters separator).seedCount key values
    eachItem count (fun i => fillEnter content (fillBody content) (key.ordinal i)) values
  | base _ param, key, values => fillParam param key values

/-- Fills the first option with the selected identifier. -/
def fillOption (selection : String) : List Grammar → Key → Values → Values
  | [], _, values => values
  | g :: gs, key, values =>
    if g.identifier == selection then fillEnter g (fillBody g) key values
    else fillOption selection gs key values

/-- Fills siblings, each below its position. -/
def fillChildren (position : Nat) : List Grammar → Key → Values → Values
  | [], _, values => values
  | g :: gs, key, values =>
    fillChildren (position + 1) gs key (fillEnter g (fillBody g) (key.ordinal position) values)

/-- Fills the parameter in brackets. -/
def fillParam : Option Grammar → Key → Values → Values
  | none, _, values => values
  | some g, key, values => fillEnter g (fillBody g) key.arrayParam values

end

end Grammar

namespace Command

/-- Gives a value to every key that has none and may be read. -/
def fillDefaults (c : Command) (values : Values) : Values :=
  Grammar.fillChildren 0 c.args .root (Grammar.fillParam c.param .root values)

/-- The values that the command starts with. -/
def defaults (c : Command) : Values :=
  c.fillDefaults ∅

end Command

end CommandGraph
