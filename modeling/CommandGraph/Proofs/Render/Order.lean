/-
CommandGraph/Proofs/Render/Order.lean

The order of connections.

Where several connections compete, the first one counts.  But in a well-formed graph, no two
connections end at the same input or leave the same flow output, so that none compete:
a graph with reordered connections is the same graph with no nodes left out
(`Graph.WellFormed.bypasses_reorder`).  If flow connections form no cycle, then their order shows
neither in the values nor in the text (`Graph.Edited.reorder_agrees`).  Where they form one, it
may decide at which of its nodes the cycle is reported.
-/
import CommandGraph.Proofs.Render.Bypass

namespace CommandGraph.Graph

variable {g : Graph} {connections : List Connection}

/-! ### Reordered graphs -/

/-- Reordered connections keep a graph well-formed. -/
theorem WellFormed.reorder (h : g.WellFormed) (perm : connections.Perm g.connections) :
    WellFormed { g with connections } where
  ids_nodup := h.ids_nodup
  sockets_eq := h.sockets_eq
  targets_nodup := (perm.map _).nodup_iff.2 h.targets_nodup
  outgoing_le_one source output found flow := by
    have as_many : (outgoing { g with connections } source).length = (g.outgoing source).length :=
      (perm.filter _).length_eq
    rw [as_many]
    exact h.outgoing_le_one source output found flow
  joins c mem := h.joins c (perm.mem_iff.1 mem)

/-- Reordering connections closes no cycle. -/
theorem FlowAcyclic.reorder (acyclic : g.FlowAcyclic) (perm : connections.Perm g.connections) :
    FlowAcyclic { g with connections } := by
  refine acyclic.of_leads fun id next leads => ?_
  cases leads with
  | intro mem flow => exact .single (.intro (perm.mem_iff.1 mem) flow)

/-- With reordered connections, no nodes are left out. -/
theorem WellFormed.bypasses_reorder (h : g.WellFormed) (perm : connections.Perm g.connections) :
    g.Bypasses { g with connections } id where
  nodes_eq := by simp
  passedBy left_out := absurd rfl left_out
  source_eq place kept := by
    have fed : incoming? { g with connections } place = g.incoming? place := by
      refine Option.ext fun c => ?_
      rw [(h.reorder perm).incoming?_eq_some_iff, h.incoming?_eq_some_iff]
      exact and_congr_left' perm.mem_iff
    rw [fed]
    exact congrArg (Option.map · _) (funext fun c => (origin_of_kept rfl).symm)
  follow?_eq {id key} kept flow := by
    rw [Option.map_id]
    refine Option.ext fun next => ?_
    rw [id_eq, (h.reorder perm).follow?_eq_some_iff flow, h.follow?_eq_some_iff flow]
    exact exists_congr fun c => and_congr_left' perm.mem_iff

/-! ### Values and text -/

/-- The order of connections shows nowhere.  An edited graph whose flow connections form no cycle
has the same values and the same text whatever the order of its connections is, and is rejected for
the same reason. -/
theorem Edited.reorder_agrees (h : Edited {} g) (acyclic : g.FlowAcyclic)
    (perm : connections.Perm g.connections) :
    (∀ limits place, resolve { g with connections } limits place = g.resolve limits place) ∧
      ∀ options, generate { g with connections } options = g.generate options ∧
        tryGenerate { g with connections } options = g.tryGenerate options := by
  have wf := h.wellFormed
  have bypasses := wf.bypasses_reorder perm
  constructor
  · exact fun limits place => bypasses.resolve_eq wf (wf.reorder perm) limits place rfl
  · exact bypasses.generate_eq wf (wf.reorder perm) acyclic (acyclic.reorder perm)

/-! ### A number and two statements -/

/-- A value that is shown by a statement with another one behind it. -/
def shownNumber : Graph :=
  ofEdits [
    .create {} { name := "n", category := .data, args := [.primitive {} .numeric none] } {} "n",
    .create { next := 2 } { name := "show", args := [.primitive {} .numeric none] } {} "show",
    .create { next := 3 } { name := "end" } {} "end",
    .setValue ⟨"node-1", (Key.root.ordinal 0).named "numeric"⟩ (.text "7"),
    .connect ⟨"node-2", .flow⟩ ⟨"node-3", .flow⟩,
    .connect ⟨"node-1", (Key.root.ordinal 0).named "numeric"⟩
      ⟨"node-2", (Key.root.ordinal 0).named "numeric"⟩]

/-- Reversing the connections of such a graph changes nothing. -/
theorem reorder_agrees_shownNumber :
    shownNumber.connections.length = 2 ∧
      shownNumber.generate {} = "show 7\nend" ∧
      (∀ limits place,
        resolve { shownNumber with connections := shownNumber.connections.reverse } limits place =
          shownNumber.resolve limits place) ∧
      ∀ options,
        generate { shownNumber with connections := shownNumber.connections.reverse } options =
            shownNumber.generate options ∧
          tryGenerate { shownNumber with connections := shownNumber.connections.reverse } options =
            shownNumber.tryGenerate options := by
  have edited : Edited {} shownNumber := .ofEdits (by simp [Edit.Allowed])
  have acyclic : shownNumber.FlowAcyclic := by
    refine flowAcyclic_of_rank (["node-1", "node-2", "node-3"].idxOf ·) ?_
    decide +kernel
  exact ⟨by decide +kernel, by decide +kernel, edited.reorder_agrees acyclic (List.reverse_perm _)⟩

end CommandGraph.Graph
