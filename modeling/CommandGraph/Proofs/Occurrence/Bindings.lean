/-
CommandGraph/Proofs/Occurrence/Bindings.lean

What embedded code reads.

Flags, counts and selections lie at keys where no sockets are (`HoldsShape`).  A source
that holds the stored values there gives the same argument tree as these values do, up
to its leaves; so what a run of embedded code depends on besides are the named values
and the code itself, the keys that `Node.Reads` collects.
-/
import CommandGraph.Graph.Resolve
import CommandGraph.Proofs.Graph.Edited
import CommandGraph.Proofs.Occurrence.Reread
import CommandGraph.Proofs.Socket.Channels

namespace CommandGraph

namespace Command

/-! ### Keys without sockets -/

/-- Whether a key holds a flag, a count or a selection. -/
def HoldsShape (c : Command) (key : Key) : Prop :=
  key.marker? = some .enabled ∨ key.marker? = some .count ∨
    Unmarked key.segments ∧ ∃ node, c.at? key = some node ∧ node.channel? .input = none

/-- A kept result decides no shape. -/
theorem HoldsShape.marker?_ne {c : Command} {key : Key} (h : c.HoldsShape key) :
    key.marker? ≠ some .result := by
  rcases h with h | h | ⟨h, -⟩
  · simp [h]
  · simp [h]
  · simp [Key.marker?_of_unmarked h]

/-- A socket lies at the key of execution or at an unmarked key. -/
theorem key_of_find? {c : Command} {values : Values} {expanded : Bool} {key : Key}
    {direction : Direction} {s : Socket}
    (h : (c.sockets values expanded).find? key direction = some s) :
    key = .flow ∨ Unmarked key.segments := by
  obtain ⟨rfl, -, flow | argument⟩ := mem_of_find? h
  · rw [flowSockets] at flow
    split at flow
    · exact .inl (Occurrence.mem_socketPair flow).1
    · simp at flow
  · obtain ⟨o, ho, -, e, -⟩ := exists_leaf_of_mem_argumentSockets argument
    exact .inr (e ▸ unmarked_of_mem_walk ho)

/-- No socket lies at the key of a kept result. -/
theorem marker?_of_find? {c : Command} {values : Values} {expanded : Bool} {key : Key}
    {direction : Direction} {s : Socket}
    (h : (c.sockets values expanded).find? key direction = some s) :
    key.marker? ≠ some .result := by
  rcases key_of_find? h with rfl | unmarked
  · intro e
    cases e
  · simp [Key.marker?_of_unmarked unmarked]

theorem at?_flow (c : Command) : c.at? .flow = none := rfl

/-- Where a flag, a count or a selection is held, there is no input. -/
theorem find?_eq_none_of_holdsShape {c : Command} {values : Values} {expanded : Bool} {key : Key}
    (h : c.HoldsShape key) : (c.sockets values expanded).find? key .input = none := by
  refine Option.eq_none_iff_forall_not_mem.2 fun s found => ?_
  -- the key of a socket has no marker but that of flow, and leads to a node with a channel
  have channel := (channel?_of_find? found).2.2
  rcases key_of_find? found with rfl | unmarked
  · rcases h with h | h | ⟨-, node, h, -⟩
    · cases h
    · cases h
    · rw [at?_flow] at h
      cases h
  · rcases h with h | h | ⟨-, node, h, none_there⟩
    · rw [Key.marker?_of_unmarked unmarked] at h
      cases h
    · rw [Key.marker?_of_unmarked unmarked] at h
      cases h
    · rw [channel?] at channel
      split at channel
      · next e =>
        rw [e, at?_flow] at h
        cases h
      · rw [h, Option.bind_some, none_there] at channel
        cases channel

/-! ### Trees under such sources -/

section

variable {c : Command} {s t : Source} {full : Bool}

/-- A choice has no sockets of its own. -/
theorem channel?_of_choice_mem_walk {node : Grammar} {key : Key} {selected : Option Grammar}
    {content : Option Occurrence}
    (h : Occurrence.choice node key selected content ∈ (c.walk s full).all) :
    node.channel? .input = none := by
  have e : Occurrence.choice node key selected content = Grammar.walkBody s full node key :=
    eq_walkBody_of_mem_walk h rfl
  cases node with
  | choice => rfl
  | array attrs content => cases content <;> simp [Grammar.walkBody] at e
  | _ => simp [Grammar.walkBody] at e

/-- Sources that agree where shapes are held give the same tree, up to its leaves. -/
theorem walk_eq_reread_of_holdsShape (named : c.hasNamedOptions = true)
    (h : ∀ key, c.HoldsShape key → t key = s key) :
    c.walk t full = (c.walk s full).reread t := by
  have value {key : Key} (hk : c.HoldsShape key) : t.value? key = s.value? key := by
    rw [Source.value?, Source.value?, h key hk]
  apply walk_eq_reread
  intro o ho
  have found := at?_of_mem_walk ho (.inr named)
  cases o with
  | optional node key enabled content =>
    -- a keyword is its own flag: its key leads to it, and it has no sockets
    have flag_at : c.HoldsShape (node.flagKey key) := by
      rw [Grammar.flagKey]
      split
      · next keyword =>
        refine .inr (.inr ⟨unmarked_of_mem_walk ho, node, found, ?_⟩)
        cases node <;> first | rfl | cases keyword
      · exact .inl (Key.marker?_marked key .enabled)
    show t.flag _ = s.flag _
    rw [Source.flag, Source.flag, value flag_at]
  | repeated node key | array node key =>
    show t.count _ = s.count _
    have count_at : c.HoldsShape key.count := .inr (.inl (Key.marker?_marked key .count))
    rw [Source.count, Source.count, value count_at]
  | choice node key =>
    show t.text? key = s.text? key
    have selection_at : c.HoldsShape key :=
      .inr (.inr ⟨unmarked_of_mem_walk ho, node, found, channel?_of_choice_mem_walk ho⟩)
    rw [Source.text?, Source.text?, value selection_at]
  | _ => trivial

end

end Command

/-! ### Bindings -/

/-- The key that the binding of a named value is read from. -/
def Occurrence.boundKey? : Occurrence → Option Key
  | scalar node key .value _ => if node.name.isSome then some key else none
  | _ => none

/-- Bindings are read from values that have a name. -/
theorem Occurrence.exists_scalar_of_boundKey? {o : Occurrence} {key : Key}
    (h : o.boundKey? = some key) :
    ∃ node name reading, o = scalar node key .value reading ∧ node.name = some name := by
  cases o with
  | scalar node k subtype reading =>
    cases subtype with
    | value =>
      rw [boundKey?] at h
      split at h
      · next named =>
        obtain ⟨name, e⟩ := Option.isSome_iff_exists.1 named
        obtain rfl := Option.some.inj h
        exact ⟨node, name, reading, rfl, e⟩
      · cases h
    | _ => cases h
  | _ => cases h

namespace Arguments

variable {arguments : Arguments} {s t : Source}

/-- Bindings depend on the values at the keys that they are read from. -/
theorem bindings_reread_congr
    (h : ∀ o ∈ arguments.all, ∀ key, o.boundKey? = some key → s key = t key) :
    (arguments.reread s).bindings = (arguments.reread t).bindings := by
  -- one leaf after the other: a named value gives the same binding, everything else gives none
  have each : ∀ o ∈ arguments.all,
      (Occurrence.binding? ∘ Occurrence.reread s) o =
        (Occurrence.binding? ∘ Occurrence.reread t) o := by
    intro o ho
    rw [Function.comp_apply, Function.comp_apply]
    cases o with
    | scalar node key subtype reading =>
      cases subtype with
      | value =>
        rw [Occurrence.reread, Occurrence.reread, Occurrence.binding?, Occurrence.binding?]
        cases e : node.name with
        | none => rfl
        | some name =>
          have same := h _ ho key (by rw [Occurrence.boundKey?, e]; rfl)
          simp only [same]
      | _ => rfl
    | _ => rfl
  rw [bindings, bindings, all_reread, all_reread, List.mapM_map, List.mapM_map, mapM_congr each]

/-- Where there are bindings, the values they are read from are within reach. -/
theorem eq_ok_of_bindings_reread {found : Bindings} (h : (arguments.reread s).bindings = .ok found)
    {o : Occurrence} (ho : o ∈ arguments.all) {key : Key} (hk : o.boundKey? = some key) :
    ∃ value, s key = .ok value := by
  rw [bindings] at h
  obtain ⟨each, h, -⟩ := bind_eq_ok.1 h
  rw [all_reread, List.mapM_map] at h
  obtain ⟨binding, e⟩ := eq_ok_of_mapM h ho
  obtain ⟨node, name, reading, rfl, named⟩ := Occurrence.exists_scalar_of_boundKey? hk
  rw [Function.comp_apply, Occurrence.reread, Occurrence.binding?, named] at e
  cases read : s key with
  | ok value => exact ⟨value, rfl⟩
  | error error =>
    rw [read] at e
    cases e

end Arguments

/-! ### Runs of embedded code -/

namespace Node

/-- Whether a run of the code at a key reads another key, apart from the shape of the node. -/
def Reads (node : Node) (code key : Key) : Prop :=
  key = code ∨
    ∃ o ∈ (node.command.walk (.ofValues node.values) false).all, o.boundKey? = some key

/-- Kept results are not read, unless the code itself stands at the key of one. -/
theorem Reads.marker?_ne {node : Node} {code key : Key} (h : node.Reads code key)
    (hc : code.marker? ≠ some .result) : key.marker? ≠ some .result := by
  rcases h with rfl | ⟨o, ho, hk⟩
  · exact hc
  · obtain ⟨_, _, _, rfl, -⟩ := Occurrence.exists_scalar_of_boundKey? hk
    have unmarked : Unmarked key.segments := Command.unmarked_of_mem_walk ho
    rw [Key.marker?_of_unmarked unmarked]
    simp

/-- A source that holds the stored values of a node where the shape of the node is held. -/
def Knows (node : Node) (s : Source) : Prop :=
  ∀ key, node.command.HoldsShape key → s key = .ok node.values[key]?

variable {node : Node} {limits : ScriptLimits} {s t : Source} {code : Key}

/-- A source that knows the values that decide the shape gives the tree of the stored ones, up to
its leaves. -/
theorem walk_eq_reread (named : node.command.hasNamedOptions = true) (h : node.Knows s) :
    node.command.walk s false =
      (node.command.walk (.ofValues node.values) false).reread s :=
  Command.walk_eq_reread_of_holdsShape named h

/-- The run of code depends on what it reads. -/
theorem evaluateAt_congr (named : node.command.hasNamedOptions = true) (hs : node.Knows s)
    (ht : node.Knows t) (h : ∀ key, node.Reads code key → s key = t key) :
    node.evaluateAt limits s code = node.evaluateAt limits t code := by
  have bindings := Arguments.bindings_reread_congr fun o ho key hk => h key (.inr ⟨o, ho, hk⟩)
  rw [evaluateAt, evaluateAt, walk_eq_reread named hs, walk_eq_reread named ht, bindings,
    h code (.inl rfl)]

/-- What a run that succeeds reads is within reach. -/
theorem eq_ok_of_evaluateAt (named : node.command.hasNamedOptions = true) (hs : node.Knows s)
    {result : Option Datum} (h : node.evaluateAt limits s code = .ok result) {key : Key}
    (reads : node.Reads code key) : ∃ value, s key = .ok value := by
  rw [evaluateAt] at h
  -- a run looks up all named values before the code
  obtain ⟨found, bound, h⟩ := bind_eq_ok.1 h
  obtain ⟨value, read, -⟩ := bind_eq_ok.1 h
  -- the key is that of the code, which is looked up, or that of a named value, which is bound
  rcases reads with rfl | ⟨o, ho, hk⟩
  · cases e : s key with
    | ok value => exact ⟨value, rfl⟩
    | error error =>
      rw [e] at read
      cases read
  · rw [walk_eq_reread named hs] at bound
    cases e : ((node.command.walk (.ofValues node.values) false).reread s).bindings with
    | ok found => exact Arguments.eq_ok_of_bindings_reread e ho hk
    | error error =>
      rw [e] at bound
      cases bound

end Node

end CommandGraph
