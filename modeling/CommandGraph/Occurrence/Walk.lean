/-
CommandGraph/Occurrence/Walk.lean

Walking a grammar: from a source of values to the argument tree.

A node is reached under the key of its parent, extended by its position where it has
siblings, and adds its identifier.  An optional node reads its flag (a keyword at its
own key, everything else at `enabled`), a repeatable one and an array their number of
items at `count`, a choice the identifier of the selected option at its own key.
Repeated items add their index and, once more, the identifier.

A walk is `full` when it also enters optional arguments that are turned off.
-/
import CommandGraph.Command
import CommandGraph.Occurrence.Basic

namespace CommandGraph

namespace Grammar

/-! ### Flags and items -/

/-- The node at its key, repeated if it is repeatable. -/
def repeatedAt (source : Source) (g : Grammar) (body : Key → Occurrence) (key : Key) :
    Occurrence :=
  if g.isRepeatable then
    let count := source.count key.count
    .repeated g key count
      ((List.range count).map fun i => body ((key.ordinal i).join g.identifier))
  else body key

/-- Where the flag of an optional node is stored: a keyword is its own flag. -/
def flagKey (g : Grammar) (key : Key) : Key :=
  if g.isKeyword then key else key.enabled

/-- The node below a key, if it can be reached.  `body` is the node without the options to be
left out and to be repeated. -/
def enter (source : Source) (full : Bool) (g : Grammar) (body : Key → Occurrence) (above : Key) :
    Option Occurrence :=
  let key := above.join g.identifier
  if !g.isAddressable then none
  -- an optional choice selects none instead: it has no flag of its own
  else if g.isOptional && !g.isChoice then
    let enabled := source.flag (g.flagKey key)
    some (.optional g key enabled
      (if enabled || full then some (repeatedAt source g body key) else none))
  else some (repeatedAt source g body key)

/-! ### The tree of a grammar -/

mutual

/-- The node at its key, neither left out nor repeated. -/
def walkBody (source : Source) (full : Bool) : Grammar → Key → Occurrence
  | primitive attrs subtype lead, key =>
    .scalar (primitive attrs subtype lead) key subtype (source key)
  | keyword attrs literal, key => .literal (keyword attrs literal) key literal
  | assignment attrs literal, key => .literal (assignment attrs literal) key literal
  | choice attrs options, key =>
    match (source.text? key).filter (· != noOption) with
    | none => .choice (choice attrs options) key none none
    | some selection =>
      match walkOption source full selection options key with
      -- a selection that no option has counts as none
      | none => .choice (choice attrs options) key none none
      | some (selected, content) => .choice (choice attrs options) key (some selected) content
  | block attrs content, key =>
    .block (block attrs content) key (walkChildren source full 0 content key)
  | branch attrs, key => .branch (branch attrs) key
  | subcommand attrs param args, key =>
    .subcommand (subcommand attrs param args) key (walkParam source full param key)
      (walkChildren source full 0 args key)
  | group attrs children, key =>
    .group (group attrs children) key (walkChildren source full 0 children key)
  | array attrs none delimiters separator, key =>
    .scalar (array attrs none delimiters separator) key .value (source key)
  | array attrs (some content) delimiters separator, key =>
    .array (array attrs (some content) delimiters separator) key
      ((List.range (source.count key.count)).filterMap fun i =>
        enter source full content (walkBody source full content) (key.ordinal i))
  | base attrs param, key => .base (base attrs param) key (walkParam source full param key)

/-- The first option with the selected identifier, and what is there of it. -/
def walkOption (source : Source) (full : Bool) (selection : String) :
    List Grammar → Key → Option (Grammar × Option Occurrence)
  | [], _ => none
  | g :: gs, key =>
    if g.identifier == selection then some (g, enter source full g (walkBody source full g) key)
    else walkOption source full selection gs key

/-- Siblings, each below its position. -/
def walkChildren (source : Source) (full : Bool) (position : Nat) :
    List Grammar → Key → List Occurrence
  | [], _ => []
  | g :: gs, key =>
    (enter source full g (walkBody source full g) (key.ordinal position)).toList ++
      walkChildren source full (position + 1) gs key

/-- The parameter in brackets. -/
def walkParam (source : Source) (full : Bool) : Option Grammar → Key → Option Occurrence
  | none, _ => none
  | some g, key => enter source full g (walkBody source full g) key.arrayParam

end

end Grammar

/-! ### The tree of a command -/

/-- The argument tree of a command. -/
def Command.walk (c : Command) (source : Source) (full : Bool) : Arguments where
  param := Grammar.walkParam source full c.param .root
  args := Grammar.walkChildren source full 0 c.args .root

end CommandGraph
