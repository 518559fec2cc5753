/-
CommandGraph/Proofs/Socket/Channels.lean

The channels of sockets.

Apart from their labels, the sockets of an argument tree are those of its leaves, one
after the other (`sockets_bare`).  So a socket lies at the key of a leaf, and its
channel is determined by the grammar node that the key leads to: `Command.channel?`
computes it from the command and the key alone (`Command.channel?_of_find?`), and
sockets at one key agree in their channels under all values.
-/
import CommandGraph.Proofs.Occurrence.Address
import CommandGraph.Socket

namespace CommandGraph

/-! ### Sockets without labels -/

/-- A socket without its label. -/
def Socket.bare (socket : Socket) : Socket :=
  { socket with label := "" }

namespace Occurrence

/-! ### Sockets and leaves -/

/-- The sockets that an occurrence has itself. -/
def ownSockets : Occurrence → List Socket
  | scalar node key subtype _ => scalarSockets node key subtype
  | branch node key => socketPair key .flow .flow node.displayLabel node.displayLabel
  | _ => []

/-- Numbering items changes labels alone. -/
theorem numberItems_bare (number : Nat) (items : List (List Socket)) :
    (numberItems number items).map Socket.bare = items.flatten.map Socket.bare := by
  induction items generalizing number with
  | nil => rfl
  | cons sockets items ih =>
    rw [numberItems, List.map_append, ih, List.map_map, List.flatten_cons, List.map_append]
    rfl

mutual

/-- The sockets of an argument are those of its leaves, up to the numbering of labels. -/
theorem sockets_bare : ∀ o : Occurrence,
    o.sockets.map Socket.bare = (o.all.flatMap ownSockets).map Socket.bare
  | scalar .. | literal .. | branch .. => by simp [sockets, all, ownSockets]
  | optional _ _ _ content | choice _ _ _ content => by
    simp [sockets, all, ownSockets, socketsOfOption_bare content]
  | repeated node _ _ items => by
    simp only [sockets, all, List.flatMap_append, List.flatMap_singleton, ownSockets,
      List.append_nil]
    split
    · rw [numberItems_bare, socketsOfList_bare items]
    · rw [socketsOfList_bare items]
  | block _ _ os | group _ _ os | array _ _ os => by
    simp only [sockets, all, List.flatMap_append, List.flatMap_singleton, ownSockets,
      List.append_nil]
    rw [socketsOfList_bare os]
  | subcommand _ _ param args => by
    simp only [sockets, all, List.flatMap_append, List.flatMap_singleton, ownSockets,
      List.append_nil, List.map_append]
    rw [socketsOfOption_bare param, socketsOfList_bare args]
  | base _ _ param => by simp [sockets, all, ownSockets, socketsOfOption_bare param]

theorem socketsOfOption_bare : ∀ o : Option Occurrence,
    (socketsOfOption o).map Socket.bare = ((allOfOption o).flatMap ownSockets).map Socket.bare
  | none => rfl
  | some o => sockets_bare o

theorem socketsOfList_bare : ∀ os : List Occurrence,
    (socketsOfList os).flatten.map Socket.bare =
      ((allOfList os).flatMap ownSockets).map Socket.bare
  | [] => rfl
  | o :: os => by
    rw [socketsOfList, allOfList, List.flatten_cons, List.map_append, List.flatMap_append,
      List.map_append, sockets_bare o, socketsOfList_bare os]

end

end Occurrence

/-! ### Channels of grammar nodes -/

/-- What travels through the sockets of a value. -/
def Primitive.channel : Primitive → Direction → Channel
  | .embeddedCode, .output | .rawCode, _ => .data none
  | subtype, _ => .data (some subtype)

/-- What travels through the sockets of a node, if it has any. -/
def Grammar.channel? (g : Grammar) (direction : Direction) : Option Channel :=
  match g with
  | .primitive _ subtype _ => some (subtype.channel direction)
  | .array _ none _ _ => some (Primitive.value.channel direction)
  | .branch _ => some .flow
  | _ => none

namespace Occurrence

/-- Both sockets of a pair lie at its key, and each carries what is meant for its side. -/
theorem mem_socketPair {key : Key} {input output : Channel} {inputLabel outputLabel : String}
    {s : Socket} (h : s ∈ socketPair key input output inputLabel outputLabel) :
    s.key = key ∧ s.channel = match s.direction with | .input => input | .output => output := by
  rw [socketPair, List.mem_cons, List.mem_singleton] at h
  rcases h with rfl | rfl <;> exact ⟨rfl, rfl⟩

theorem mem_scalarSockets {node : Grammar} {key : Key} {subtype : Primitive} {s : Socket}
    (h : s ∈ scalarSockets node key subtype) :
    s.key = key ∧ s.channel = subtype.channel s.direction := by
  have pair {input output : Channel} {inputLabel outputLabel : String}
      (h : s ∈ socketPair key input output inputLabel outputLabel)
      (e : ∀ d, subtype.channel d = match d with | .input => input | .output => output) :
      s.key = key ∧ s.channel = subtype.channel s.direction := by
    rw [e]
    exact mem_socketPair h
  cases subtype <;> exact pair h (by intro d; cases d <;> rfl)

/-- A socket lies at the key of its leaf and carries what the node of the leaf carries. -/
theorem mem_ownSockets {source : Source} {full : Bool} {g : Grammar} {key : Key} {s : Socket}
    (h : s ∈ (Grammar.walkBody source full g key).ownSockets) :
    s.key = key ∧ g.channel? s.direction = some s.channel ∧
      (Grammar.walkBody source full g key).isLeaf = true := by
  cases g with
  | primitive attrs subtype lead =>
    obtain ⟨hk, hc⟩ := mem_scalarSockets h
    exact ⟨hk, congrArg some hc.symm, rfl⟩
  | branch attrs =>
    obtain ⟨hk, hc⟩ := mem_socketPair h
    refine ⟨hk, congrArg some ?_, rfl⟩
    rw [hc]
    cases s.direction <;> rfl
  | choice attrs options =>
    -- a choice has no sockets but those of its selected option
    obtain ⟨selected, content, e⟩ :=
      Grammar.exists_walkBody_choice source full attrs options key
    rw [e] at h
    cases h
  | array attrs content delimiters separator =>
    cases content with
    | none =>
      have value : s ∈ scalarSockets (.array attrs none delimiters separator) key .value := h
      obtain ⟨hk, hc⟩ := mem_scalarSockets value
      exact ⟨hk, congrArg some hc.symm, rfl⟩
    | some content => simp [Grammar.walkBody, ownSockets] at h
  | _ => simp [Grammar.walkBody, ownSockets] at h

theorem isLeaf_of_mem_ownSockets {o : Occurrence} {s : Socket} (h : s ∈ o.ownSockets) :
    o.isLeaf = true := by
  cases o <;> first | rfl | simp [ownSockets] at h

end Occurrence

/-! ### Channels of keys -/

namespace Command

/-- What travels through the sockets at a key, whatever the values are. -/
def channel? (c : Command) (key : Key) (direction : Direction) : Option Channel :=
  if key = .flow then some .flow else (c.at? key).bind (·.channel? direction)

/-- The sockets of the arguments are those of the leaves of the full walk, up to labels. -/
theorem argumentSockets_bare (c : Command) (values : Values) :
    (c.argumentSockets values).map Socket.bare =
      ((c.walk (.ofValues values) true).all.flatMap Occurrence.ownSockets).map Socket.bare := by
  rw [argumentSockets, Arguments.all, List.map_append, List.flatMap_append, List.map_append,
    Occurrence.socketsOfOption_bare, Occurrence.socketsOfList_bare]

/-- A socket of an argument lies at the key of a leaf, and carries what its node carries. -/
theorem exists_leaf_of_mem_argumentSockets {c : Command} {values : Values} {s : Socket}
    (h : s ∈ c.argumentSockets values) :
    ∃ o ∈ (c.walk (.ofValues values) true).all, o.isLeaf = true ∧ o.key = s.key ∧
      o.node.channel? s.direction = some s.channel := by
  -- leaves have the sockets of the command up to labels, which neither keys nor channels show
  have bare := List.mem_map_of_mem (f := Socket.bare) h
  rw [argumentSockets_bare] at bare
  obtain ⟨t, ht, e⟩ := List.mem_map.1 bare
  obtain ⟨o, ho, ht⟩ := List.mem_flatMap.1 ht
  have leaf := Occurrence.isLeaf_of_mem_ownSockets ht
  obtain ⟨g, k, rfl⟩ := Grammar.exists_walkBody_of_mem (mem_walkBody_of_mem_walk ho)
    (Occurrence.isWrapper_of_isLeaf leaf)
  obtain ⟨hk, hc, -⟩ := Occurrence.mem_ownSockets ht
  rw [Socket.bare, Socket.bare, Socket.mk.injEq] at e
  obtain ⟨e_key, e_direction, e_channel, -⟩ := e
  refine ⟨_, ho, leaf, ?_, ?_⟩
  · rw [Grammar.key_walkBody, ← hk, e_key]
  · rw [Grammar.node_walkBody, ← e_direction, hc, e_channel]

/-- The key of an argument is not the one of the execution sockets. -/
theorem ne_flow_of_mem_walk {c : Command} {source : Source} {full : Bool} {o : Occurrence}
    (h : o ∈ (c.walk source full).all) : o.key ≠ .flow := by
  intro e
  have unmarked := unmarked_of_mem_walk h
  rw [e] at unmarked
  exact unmarked .flow (List.mem_singleton.2 rfl)

/-- A socket carries what the command sends through its key. -/
theorem channel?_of_mem {c : Command} {values : Values} {s : Socket}
    (h : s ∈ c.flowSockets ∨ s ∈ c.argumentSockets values) :
    c.channel? s.key s.direction = some s.channel := by
  rw [channel?]
  rcases h with h | h
  · rw [flowSockets] at h
    split at h
    · obtain ⟨hk, hc⟩ := Occurrence.mem_socketPair h
      rw [if_pos hk, hc]
      cases s.direction <;> rfl
    · simp at h
  · obtain ⟨o, ho, leaf, hk, hc⟩ := exists_leaf_of_mem_argumentSockets h
    rw [← hk, if_neg (ne_flow_of_mem_walk ho), at?_of_mem_walk ho (.inl leaf)]
    exact hc

/-! ### Finding sockets -/

/-- The sockets of a command, and the side on which each of them lies. -/
theorem mem_sockets {c : Command} {values : Values} {expanded : Bool} {s : Socket}
    (h : s ∈ (c.sockets values expanded).inputs ∨ s ∈ (c.sockets values expanded).outputs) :
    s ∈ c.flowSockets ∨ s ∈ c.argumentSockets values := by
  have all : s ∈ c.flowSockets ++ if expanded || !c.hasArguments then c.argumentSockets values
      else [] := by
    rcases h with h | h <;> exact (List.mem_filter.1 h).1
  rcases List.mem_append.1 all with h | h
  · exact .inl h
  · split at h
    · exact .inr h
    · simp at h

/-- The socket found at a key has the key, lies on the side asked for, and is one of those of the
command. -/
theorem mem_of_find? {c : Command} {values : Values} {expanded : Bool} {key : Key}
    {direction : Direction} {s : Socket}
    (h : (c.sockets values expanded).find? key direction = some s) :
    s.key = key ∧ s.direction = direction ∧
      (s ∈ c.flowSockets ∨ s ∈ c.argumentSockets values) := by
  cases direction with
  | input =>
    have mem := List.mem_of_find?_eq_some h
    refine ⟨by simpa using List.find?_some h, ?_, mem_sockets (.inl mem)⟩
    simpa using (List.mem_filter.1 mem).2
  | output =>
    have mem := List.mem_of_find?_eq_some h
    refine ⟨by simpa using List.find?_some h, ?_, mem_sockets (.inr mem)⟩
    simpa using (List.mem_filter.1 mem).2

/-- The socket found at a key has the key, lies on the side asked for, and carries what the command
sends through the key. -/
theorem channel?_of_find? {c : Command} {values : Values} {expanded : Bool} {key : Key}
    {direction : Direction} {s : Socket}
    (h : (c.sockets values expanded).find? key direction = some s) :
    s.key = key ∧ s.direction = direction ∧ c.channel? key direction = some s.channel := by
  obtain ⟨hk, hd, mem⟩ := mem_of_find? h
  refine ⟨hk, hd, ?_⟩
  rw [← hk, ← hd]
  exact channel?_of_mem mem

end Command

end CommandGraph
