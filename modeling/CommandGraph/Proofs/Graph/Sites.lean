/-
CommandGraph/Proofs/Graph/Sites.lean

What edits of a node's state act on.

`setCount` and `selectOption` locate the first occurrence at a key.  An occurrence with items is the
first one at its key in any case (`Node.hasItemsAt_iff`), so that a number of items can be set
exactly where there is one (`Graph.setCount_eq_ok_iff`).  For choices this is not so, and the
condition stays one about what has been located (`Graph.selectOption_eq_ok_iff`).

An edit that succeeds leaves the changed node in its place, with its sockets projected anew
(`Graph.node?_update`).
-/
import CommandGraph.Proofs.Graph.Lookup
import CommandGraph.Proofs.Occurrence.Lasting

namespace CommandGraph

/-! ### Items -/

namespace Occurrence

/-- The items of a repeated argument or an array. -/
def items : Occurrence → List Occurrence
  | repeated _ _ _ items | array _ _ items => items
  | _ => []

/-- What the item with the given index is, if it can be reached, in a walk. -/
def item? (source : Source) (full : Bool) : Occurrence → Nat → Option Occurrence
  | repeated node key .., i =>
    some (node.walkBody source full ((key.ordinal i).join node.identifier))
  | array (.array _ (some content) ..) key _, i => content.walkBelow source full (key.ordinal i)
  | _, _ => none

/-- What has items keeps its key to itself. -/
theorem yieldsKey_of_isResizable {o : Occurrence} (h : o.isResizable = true) :
    o.yieldsKey = false := by
  cases o with
  | repeated | array => rfl
  | _ => cases h

/-- What has items admits live ones alone. -/
theorem exists_of_admits {source : Source} {o : Occurrence} {s : Segment}
    (h : o.isResizable = true) (admits : o.Admits source s) :
    ∃ i, i < source.count o.key.count ∧ s = .ordinal i := by
  cases o with
  | repeated | array => exact admits
  | _ => cases h

end Occurrence

namespace Grammar

open Occurrence

variable {source : Source} {full : Bool}

/-- What wraps a node in a walk is one of the wrappers of some node. -/
theorem exists_wrappers_of_mem {g : Grammar} {key : Key} {o : Occurrence}
    (h : o ∈ (walkBody source full g key).all) (ho : o.isWrapper = true) :
    ∃ (g : Grammar) (above : Key), o ∈ g.wrappers source full above := by
  induction g using inductionOn generalizing key with
  | node g ih =>
    rw [all_walkBody, List.mem_append, List.mem_flatMap] at h
    rcases h with ⟨⟨c, above⟩, hc, h⟩ | h
    · rw [all_walkBelow, List.mem_append, List.mem_flatMap] at h
      rcases h with ⟨k, -, h⟩ | h
      · exact ih c (mem_children_of_mem_walked source hc) h
      · exact ⟨c, above, h⟩
    · rw [List.mem_singleton.1 h, isWrapper_walkBody] at ho
      cases ho

/-- The repeated occurrence around a node has as many items as its count says. -/
theorem items_of_mem_wrappers {g : Grammar} {above : Key} {o : Occurrence}
    (h : o ∈ g.wrappers source full above) (resizable : o.isResizable = true) :
    o.items = (List.range (source.count o.key.count)).filterMap (o.item? source full) := by
  rw [wrappers, List.mem_append] at h
  rcases h with h | h
  · split at h
    · rw [repeatWrapper] at h
      split at h
      · next repeatable =>
        rw [repeatedAt, if_pos repeatable] at h
        rw [List.mem_singleton.1 h]
        exact congrFun List.filterMap_eq_map.symm _
      · cases h
    · cases h
  · split at h
    · next flagged =>
      have test : (g.isOptional && !g.isChoice) = true := flagged
      rw [walkBelow, enter] at h
      rcases addressable : g.isAddressable with - | -
      · simp [addressable] at h
      · simp only [addressable, Bool.not_true, Bool.false_eq_true, if_false, test, if_true] at h
        -- an optional argument wraps its node as well, but has no items
        rw [← Option.some.inj (Option.mem_toList.1 h)] at resizable
        cases resizable
    · cases h

end Grammar

/-- The items of a walk are those that are counted at the time. -/
theorem Command.items_eq {c : Command} {source : Source} {full : Bool} {o : Occurrence}
    (ho : o ∈ (c.walk source full).all) (resizable : o.isResizable = true) :
    o.items = (List.range (source.count o.key.count)).filterMap (o.item? source full) := by
  -- a repeated argument wraps its node, while an array is the body of one
  cases wrapper : o.isWrapper with
  | true =>
    obtain ⟨g, above, mem⟩ :=
      Grammar.exists_wrappers_of_mem (mem_walkBody_of_mem_walk ho) wrapper
    exact Grammar.items_of_mem_wrappers mem resizable
  | false =>
    obtain ⟨g, key, rfl⟩ := Grammar.exists_walkBody_of_mem (mem_walkBody_of_mem_walk ho) wrapper
    cases g with
    | array attrs content =>
      cases content with
      | none => cases resizable
      | some content => rfl
    | choice attrs options =>
      obtain ⟨selected, content, e⟩ := Grammar.exists_walkBody_choice source full attrs options key
      rw [e] at resizable
      cases resizable
    | _ => cases resizable

/-! ### Nodes -/

namespace Node

/-- The occurrences in a node, also in optional arguments that are turned off. -/
def occurrences (node : Node) : List Occurrence :=
  (node.command.walk (.ofValues node.values) true).all

/-- The node with other values, and the sockets that are projected from them. -/
def holding (node : Node) (values : Values) : Node :=
  Node.refresh { node with values }

@[simp] theorem values_holding (node : Node) (values : Values) :
    (node.holding values).values = values := rfl

theorem of_locate? {node : Node} {key : Key} {o : Occurrence} (h : node.locate? key = some o) :
    o ∈ node.occurrences ∧ o.key = key :=
  ⟨List.mem_of_find?_eq_some h, by simpa using List.find?_some h⟩

/-- What keeps its key to itself is located there. -/
theorem locate?_eq_some {node : Node} {o : Occurrence} (ho : o ∈ node.occurrences)
    (keeps : o.yieldsKey = false) : node.locate? o.key = some o :=
  Command.find?_eq_some ho keeps

/-- Whether a node has something with items at a key. -/
def HasItemsAt (node : Node) (key : Key) : Prop :=
  ∃ o ∈ node.occurrences, o.key = key ∧ o.isResizable = true

/-- What has items at a key is what is located there. -/
theorem hasItemsAt_iff {node : Node} {key : Key} :
    node.HasItemsAt key ↔ (node.locate? key).any Occurrence.isResizable = true := by
  constructor
  · rintro ⟨o, ho, rfl, resizable⟩
    rw [locate?_eq_some ho (Occurrence.yieldsKey_of_isResizable resizable), Option.any_some,
      resizable]
  · intro h
    obtain ⟨o, located, resizable⟩ := (Option.any_eq_true _ _).1 h
    exact ⟨o, (of_locate? located).1, (of_locate? located).2, resizable⟩

/-- Neither its count nor anything behind it leads to what has items. -/
theorem HasItemsAt.of_kept {node : Node} {key : Key} (h : node.HasItemsAt key) {w : Values}
    (kept : ∀ (x : Key) (value : Scalar), x ≠ key.count → ¬ x.Beyond key →
      node.values[x]? = some value → w[x]? = some value) : (node.holding w).HasItemsAt key := by
  obtain ⟨o, ho, rfl, resizable⟩ := h
  have leads : o.LeadsTo node.values w := by
    refine fun x value outside found => kept x value ?_ ?_ found
    · rintro rfl
      exact Key.ne_marked o.key .count (outside (Key.isUnder_push _ _)).1.symm
    · intro behind
      exact behind.ne (outside behind.isUnder).1
  obtain ⟨p, hp, same⟩ := Command.exists_sameSite ho leads
  exact ⟨p, hp, same.key_eq, same.isResizable_eq.trans resizable⟩

end Node

/-! ### Graphs -/

namespace Graph

variable {g edited : Graph} {place : Place} {node : Node}

theorem require_eq_ok_iff {id : String} : g.require id = .ok node ↔ g.node? id = some node := by
  rw [require]
  cases g.node? id with
  | none => simp
  | some other => simp

/-- An updated node is found with its sockets projected. -/
theorem node?_update {id : String} {old : Node} (found : g.node? id = some old)
    (same : node.id = old.id) : (g.update node).node? id = some node.refresh := by
  have at_id : id = node.refresh.id := (id_of_node? found).symm.trans same.symm
  show (g.replace node.refresh).node? id = some node.refresh
  rw [node?_replace, if_pos at_id, found, Option.map_some]

theorem setValue_eq_ok_iff {value : Scalar} : g.setValue place value = .ok edited ↔
    ∃ node, g.node? place.node = some node ∧
      edited = g.update { node with values := node.values.insert place.key value } := by
  rw [setValue, bind_eq_ok]
  refine exists_congr fun node => ?_
  rw [require_eq_ok_iff]
  exact and_congr_right fun _ => ⟨fun h => (Except.ok.inj h).symm, fun h => congrArg _ h.symm⟩

/-- A number of items is set where there is an occurrence that has items. -/
theorem setCount_eq_ok_iff {count : Nat} : g.setCount place count = .ok edited ↔
    ∃ node, g.node? place.node = some node ∧
      node.HasItemsAt place.key ∧ edited = g.update (node.resize place.key count) := by
  rw [setCount, bind_eq_ok]
  refine exists_congr fun node => ?_
  rw [require_eq_ok_iff, Node.hasItemsAt_iff]
  refine and_congr_right fun _ => ?_
  constructor
  · intro h
    split at h
    · next located => exact ⟨located, (Except.ok.inj h).symm⟩
    · cases h
  · rintro ⟨located, rfl⟩
    rw [if_pos located]
    rfl

/-- An option is selected where the occurrence that is located is a choice that declares it. -/
theorem selectOption_eq_ok_iff {option : String} : g.selectOption place option = .ok edited ↔
    ∃ node, g.node? place.node = some node ∧
      (∃ options optional, (node.locate? place.key).bind Occurrence.options? =
          some (options, optional) ∧
        ((Grammar.option? options option).isSome || (option == noOption && optional)) = true) ∧
        edited = g.update (node.select place.key option) := by
  rw [selectOption, bind_eq_ok]
  refine exists_congr fun node => ?_
  rw [require_eq_ok_iff]
  refine and_congr_right fun _ => ?_
  -- the edit looks for a choice first, and for the option in it then; each may fail
  constructor
  · intro h
    split at h
    · cases h
    · next options optional located =>
      split at h
      · next declared => exact ⟨⟨options, optional, located, declared⟩, (Except.ok.inj h).symm⟩
      · cases h
  · rintro ⟨⟨options, optional, located, declared⟩, rfl⟩
    simp only [located, declared, if_true]
    rfl

/-- Where no choice is located, selecting an option is refused. -/
theorem selectOption_eq_error (found : g.node? place.node = some node)
    (missing : (node.locate? place.key).bind Occurrence.options? = none) (option : String) :
    g.selectOption place option = .error (.invalidKey place .choice) := by
  rw [selectOption, require_eq_ok_iff.2 found]
  simp only [bind, Except.bind, missing]
  rfl

end Graph

/-! ### Graphs of one node -/

/-- A new node of a command. -/
def Node.fresh (c : Command) : Node :=
  Node.refresh {
    id := "node-1"
    name := c.name
    command := c
    values := c.defaults
    expanded := c.hasArguments
    visible := true
    position := {}
    sockets := {} }

/-- The graph with a new node of a command. -/
def Graph.single (c : Command) : Graph :=
  ofEdits [.create {} c {} c.name]

theorem Graph.node?_single (c : Command) : (single c).node? "node-1" = some (.fresh c) := rfl

end CommandGraph
