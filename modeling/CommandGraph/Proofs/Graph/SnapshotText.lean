/-
CommandGraph/Proofs/Graph/SnapshotText.lean

Snapshots read back.

Every part of a snapshot is written as a JSON value from which the part is decoded again.  For
stored values this rests on their keys: these are member names, so that two keys with one text
would be one entry, and a key without a text of its own would make the snapshot malformed.  So
the keys have to be legible.

The JSON values themselves are read back from their text (`Json.ofText?_pretty`), if the
coordinates of the nodes are; this is the only place where doubles occur.
-/
import CommandGraph.Graph.Snapshot
import CommandGraph.Proofs.Json.RoundTrip
import CommandGraph.Proofs.Key.RoundTrip

namespace CommandGraph

/-! ### Stored values -/

theorem Scalar.ofJson?_toJson (value : Scalar) : Scalar.ofJson? value.toJson = some value := by
  cases value with
  | flag b => rfl
  | int n =>
    rw [toJson, ofJson?, if_pos ⟨n.minValue_le_toInt, n.toInt_le⟩, Int64.ofInt_toInt]
  | text s => rfl

namespace Values

/-- A map is made of its entries. -/
theorem ofEntries_toList (values : Values) : ofEntries values.toList = values := by
  refine Std.ExtTreeMap.ext_getElem? fun key => ?_
  rw [ofEntries, extend, ← Std.ExtTreeMap.insertMany_list_eq_foldl]
  cases stored : values[key]? with
  | some value =>
    exact Std.ExtTreeMap.getElem?_insertMany_list_of_mem Std.ReflCmp.compare_self
      Std.ExtTreeMap.distinct_keys_toList (Std.ExtTreeMap.mem_toList_iff_getElem?_eq_some.2 stored)
  | none =>
    have absent : (values.toList.map Prod.fst).contains key = false := by
      refine Bool.eq_false_iff.2 fun present => ?_
      rw [Std.ExtTreeMap.map_fst_toList_eq_keys, List.contains_iff_mem, Std.ExtTreeMap.mem_keys,
        Std.ExtTreeMap.mem_iff_isSome_getElem?, stored] at present
      cases present
    rw [Std.ExtTreeMap.getElem?_insertMany_list_of_contains_eq_false absent]
    exact Std.ExtTreeMap.getElem?_empty

/-- The entries of a map are the members of an object, under the texts of their keys. -/
theorem ofJson?_toJson {values : Values} (legible : ∀ key ∈ values, key.IsLegible) :
    Values.ofJson? values.toJson = some values := by
  have entries : entriesOfJson? values.toJson = some values.toList := by
    refine mapM_map_eq_some fun entry mem => ?_
    have stored : entry.1 ∈ values :=
      mem_iff_exists.2 ⟨entry.2, Std.ExtTreeMap.mem_toList_iff_getElem?_eq_some.1 mem⟩
    rw [entryOfMember?, Key.ofText_text (legible entry.1 stored), Scalar.ofJson?_toJson]
    rfl
  rw [ofJson?, entries, Option.map_some, ofEntries_toList]

end Values

/-! ### Nodes, connections and snapshots -/

/-- Coordinates are decoded as they are; their text comes later. -/
theorem Position.ofJson?_toJson (p : Position) : Position.ofJson? p.toJson = some p := rfl

theorem Key.ofJson?_text {key : Key} (legible : key.IsLegible) :
    Key.ofJson? (.string key.text) = some key := by
  rw [ofJson?, Json.string?, Option.bind_some, Key.ofText_text legible]
  rfl

/-- Whether the keys at both ends of a connection have texts of their own. -/
def Connection.IsLegible (c : Connection) : Prop :=
  c.source.key.IsLegible ∧ c.target.key.IsLegible

/-- A connection is written as the four parts of its ends. -/
theorem Connection.ofJson?_toJson {c : Connection} (legible : c.IsLegible) :
    Connection.ofJson? c.toJson = some c := by
  have record : Record.ofJson? ["source", "sourceKey", "target", "targetKey"] c.toJson =
      some [("source", .string c.source.node), ("sourceKey", .string c.source.key.text),
        ("target", .string c.target.node), ("targetKey", .string c.target.key.text)] := rfl
  rw [ofJson?, record]
  simp [Record.required?, List.lookup_cons, Json.string?, Key.ofJson?_text legible.1,
    Key.ofJson?_text legible.2]

/-- Whether the keys of the stored values have texts of their own. -/
def SavedNode.IsLegible (node : SavedNode) : Prop :=
  ∀ key ∈ node.values, key.IsLegible

/-- A node is decoded from its record. -/
theorem SavedNode.ofJson?_toJson {node : SavedNode} (legible : node.IsLegible) :
    SavedNode.ofJson? node.toJson = some node := by
  -- all members are there, each once, under the names that the decoder knows
  have record : Record.ofJson? memberNames node.toJson =
      some [("id", .string node.id), ("command", .string node.command),
        ("name", .string node.name), ("position", node.position.toJson),
        ("values", node.values.toJson), ("expanded", .bool node.expanded),
        ("visible", .bool node.visible)] := rfl
  rw [ofJson?, record]
  simp [Record.required?, Record.withDefault?, List.lookup_cons, Json.string?, Json.bool?,
    Position.ofJson?_toJson, Values.ofJson?_toJson legible]

namespace Snapshot

/-- Whether all keys of a snapshot have texts of their own. -/
structure IsLegible (s : Snapshot) : Prop where
  nodes : ∀ node ∈ s.nodes, node.IsLegible
  connections : ∀ c ∈ s.connections, c.IsLegible

/-- A snapshot is decoded from the value that it is written as. -/
theorem ofJson?_toJson {s : Snapshot} (legible : s.IsLegible) :
    Snapshot.ofJson? s.toJson = some s := by
  have record : Record.ofJson? ["nodes", "connections"] s.toJson =
      some [("nodes", .array (s.nodes.map SavedNode.toJson)),
        ("connections", .array (s.connections.map Connection.toJson))] := rfl
  have nodes : Json.list? SavedNode.ofJson? (.array (s.nodes.map SavedNode.toJson)) =
      some s.nodes :=
    mapM_map_eq_some fun node mem => SavedNode.ofJson?_toJson (legible.nodes node mem)
  have connections :
      Json.list? Connection.ofJson? (.array (s.connections.map Connection.toJson)) =
        some s.connections :=
    mapM_map_eq_some fun c mem => Connection.ofJson?_toJson (legible.connections c mem)
  rw [ofJson?, record]
  simp [Record.withDefault?, List.lookup_cons, nodes, connections]

end Snapshot

/-! ### Snapshots as text

What is written is legible, with the room that the nesting of a snapshot leaves. -/

theorem Scalar.isLegible_toJson (value : Scalar) (room : Nat) : value.toJson.IsLegible room := by
  cases value with
  | flag | text => trivial
  | int n =>
    refine ⟨n.minValue_le_toInt, Int.lt_of_le_of_lt n.toInt_le ?_⟩
    decide

/-- A map of values takes one level of nesting. -/
theorem Values.isLegible_toJson (values : Values) {room : Nat} (h : 0 < room) :
    values.toJson.IsLegible room := by
  refine ⟨h, Json.membersAreLegible_iff.2 fun member mem => ?_⟩
  obtain ⟨entry, -, rfl⟩ := List.mem_map.1 mem
  exact entry.2.isLegible_toJson _

theorem Connection.isLegible_toJson (c : Connection) {room : Nat} (h : 0 < room) :
    c.toJson.IsLegible room :=
  ⟨h, trivial, trivial, trivial, trivial, trivial⟩

/-- A node takes two: one for itself, and one for its position and its values. -/
theorem SavedNode.isLegible_toJson {node : SavedNode} (x : Json.ReadsBack node.position.x)
    (y : Json.ReadsBack node.position.y) {room : Nat} (h : 1 < room) :
    node.toJson.IsLegible room := by
  have below : 0 < room - 1 := Nat.sub_pos_of_lt h
  have position : node.position.toJson.IsLegible (room - 1) := ⟨below, x, y, trivial⟩
  exact ⟨Nat.lt_of_succ_lt h, trivial, trivial, trivial, position,
    node.values.isLegible_toJson below, trivial, trivial, trivial⟩

namespace Snapshot

/-- The snapshot and its two lists are nested around nodes and connections, which is far from the
limit of the reader. -/
theorem isLegible_toJson {s : Snapshot}
    (coordinates : ∀ node ∈ s.nodes, Json.ReadsBack node.position.x ∧
      Json.ReadsBack node.position.y) : s.toJson.IsLegible Json.depthLimit := by
  have nodes : Json.AreLegible (s.nodes.map SavedNode.toJson) (Json.depthLimit - 2) := by
    refine Json.areLegible_iff.2 fun item mem => ?_
    obtain ⟨node, saved, rfl⟩ := List.mem_map.1 mem
    exact SavedNode.isLegible_toJson (coordinates node saved).1 (coordinates node saved).2
      (by decide)
  have connections :
      Json.AreLegible (s.connections.map Connection.toJson) (Json.depthLimit - 2) := by
    refine Json.areLegible_iff.2 fun item mem => ?_
    obtain ⟨c, -, rfl⟩ := List.mem_map.1 mem
    exact c.isLegible_toJson (by decide)
  exact ⟨by decide, ⟨by decide, nodes⟩, ⟨by decide, connections⟩, trivial⟩

/-- **Snapshots read back.**  A snapshot with legible keys and finite coordinates is read from its
text, provided that the text of each of these coordinates is read as it. -/
theorem ofText_toText {s : Snapshot} (legible : s.IsLegible)
    (finite : ∀ node ∈ s.nodes, node.position.x.isFinite = true ∧ node.position.y.isFinite = true)
    (reads : ∀ node ∈ s.nodes, ∀ x ∈ [node.position.x, node.position.y],
      x.isFinite = true → Json.ReadsBack x) :
    Snapshot.ofText s.toText = .ok s := by
  have coordinates (node : SavedNode) (mem : node ∈ s.nodes) :
      Json.ReadsBack node.position.x ∧ Json.ReadsBack node.position.y :=
    ⟨reads node mem _ List.mem_cons_self (finite node mem).1,
      reads node mem _ (List.mem_cons_of_mem _ List.mem_cons_self) (finite node mem).2⟩
  rw [ofText, toText, Json.ofText?_pretty (isLegible_toJson coordinates), Option.bind_some,
    ofJson?_toJson legible]

/-- A node with values of all kinds, under keys whose names need escapes, and a connection. -/
def escaped : Snapshot where
  nodes := [
    { id := "node-1"
      command := "a \"b\""
      position := { x := 1.5, y := -1234.0625 }
      values := .ofEntries [
        ((Key.root.ordinal 0).named "a/b", .flag true),
        ((Key.root.ordinal 0).named "007" |>.count, .int Int64.minValue),
        (Key.root.arrayParam.named "#flow", .text "1\n\\\x01")]
      visible := false }]
  connections := [⟨⟨"node-1", .flow⟩, ⟨"gone", (Key.root.ordinal 7).named "@param"⟩⟩]

/-- The conditions on keys and coordinates are decided on the example. -/
theorem ofText_toText_escaped : Snapshot.ofText escaped.toText = .ok escaped := by
  have keys : ∀ node ∈ escaped.nodes, ∀ key ∈ node.values.keys, key.IsLegible := by
    decide +kernel
  refine ofText_toText ⟨fun node mem key stored => ?_, ?_⟩ ?_ ?_
  · exact keys node mem key (Std.ExtTreeMap.mem_keys.2 stored)
  · intro c mem
    rw [List.mem_singleton.1 mem]
    exact ⟨by decide, by decide⟩
  · decide +kernel
  · decide +kernel

end Snapshot

end CommandGraph
