/-
CommandGraph/Proofs/Render/Traversal.lean

Generation along a path that is held in a state.

A traversal keeps the nodes of the chain that it writes, and of the chains around it, in one
list.  A chain puts its nodes on the list one after the other, in a loop along flow
connections; for each branch of a node another chain is written meanwhile, which puts its own
nodes on top.  Only when a chain has come to its end, the list is cut back to the length that
it had before.  `Graph.chainM` is this traversal, with bounds on the rounds of its loops and on
how deep chains are nested, and with a record of all paths that it has held.

Whatever connections there are, each chain writes what `Graph.chain` writes for the path that
it finds, and leaves the path as it was, unless a bound is too low (`Graph.follows_chainM`).
No bound is too low that is above the number of nodes, as the nodes of a path are different
ones (`Graph.renderM_settles`).
-/
import CommandGraph.Proofs.Graph.Lookup
import CommandGraph.Proofs.Render.Chain
import CommandGraph.Proofs.Render.Effects
import Mathlib.Data.List.Perm.Subperm

namespace CommandGraph

/-- What a traversal holds. -/
structure Traversal where
  progress : Progress := {}
  /-- The nodes of the chain that is being written and of those around it, the last one first. -/
  path : List String := []
  /-- The paths that have been held, the last one first. -/
  seen : List (List String) := []

/-- A step of a traversal.  It gives nothing where a bound is too low. -/
abbrev TraversalM :=
  StateT Traversal Option

namespace TraversalM

/-- A step that leaves the path alone. -/
def note {α : Type} (step : RenderM α) : TraversalM α := do
  let held ← get
  let (a, progress) := step.run held.progress
  set { held with progress }
  return a

/-- Puts a node on the path. -/
def push (id : String) : TraversalM Unit :=
  modify fun held =>
    { held with path := id :: held.path, seen := (id :: held.path) :: held.seen }

/-- Takes nodes off the path until so many of them are left. -/
def cutBack (length : Nat) : TraversalM Unit :=
  modify fun held => { held with path := held.path.drop (held.path.length - length) }

end TraversalM

namespace Graph

open TraversalM

/-! ### The traversal -/

section

variable (g : Graph) (options : RenderOptions) (inner : String → TraversalM String)

/-- What the branch at a key of a node holds, where `inner` writes the chains in branches. -/
def branchTextM (id : String) (key : Key) : TraversalM String :=
  match g.follow? ⟨id, key⟩ with
  | some target => inner target
  | none => pure ""

/-- The text of a node with what its branches hold; hidden nodes have none. -/
def nodeTextM (id : String) (node : Node) : TraversalM String :=
  if node.visible then
    node.command.renderM options (g.view options.limits id)
      (fun error => note (reject (.resolve error))) (g.branchTextM inner id)
  else pure ""

/-- The texts of the nodes behind a node, where `texts` writes those from a node on. -/
def textsBehindM (texts : String → TraversalM (List String)) (id : String) :
    TraversalM (List String) :=
  match g.follow? ⟨id, .flow⟩ with
  | some next => texts next
  | none => pure []

/-- The texts of the nodes from `id` on, in less than `rounds` further rounds. -/
def textsM : Nat → String → TraversalM (List String)
  | 0, _ => failure
  | rounds + 1, id => do
    if id ∈ (← get).path then return [← note (rejectCycle id)]
    else
      match g.node? id with
      | none => return []
      | some node =>
        push id
        note (enter id)
        let text ← g.nodeTextM options inner id node
        let rest ← g.textsBehindM (textsM rounds) id
        return if text.isEmpty then rest else text :: rest

/-- The text of the chain that starts at a node.  The chains in its branches, those in the branches
of these and so on are nested up to `depth` deep. -/
def chainM (rounds depth : Nat) (id : String) : TraversalM String := do
  let length := (← get).path.length
  let nested := match depth with
    | 0 => fun _ => failure
    | depth + 1 => chainM rounds depth
  let texts ← g.textsM options nested rounds id
  cutBack length
  return "\n".intercalate texts

/-- The text of a graph. -/
def renderM (rounds depth : Nat) : TraversalM String := do
  let chains ← g.roots.mapM fun node => g.chainM options rounds depth node.id
  let markers ← note g.unreachedCycles
  return "\n\n".intercalate (Render.nonEmpty chains ++ markers)

end

/-! ### Paths -/

/-- Whether a path consists of different nodes of a graph. -/
structure IsNodePath (g : Graph) (path : List String) : Prop where
  nodup : path.Nodup
  mem_ids : ∀ id ∈ path, id ∈ g.ids

namespace IsNodePath

variable {g : Graph} {path : List String}

theorem nil (g : Graph) : g.IsNodePath [] where
  nodup := List.nodup_nil
  mem_ids := fun id mem => by cases mem

theorem cons (h : g.IsNodePath path) {id : String} (new : id ∉ path) (mem : id ∈ g.ids) :
    g.IsNodePath (id :: path) where
  nodup := List.nodup_cons.2 ⟨new, h.nodup⟩
  mem_ids := List.forall_mem_cons.2 ⟨mem, h.mem_ids⟩

/-- A path is no longer than there are nodes. -/
theorem length_le (h : g.IsNodePath path) : path.length ≤ g.nodes.length := by
  have length_ids : g.ids.length = g.nodes.length := List.length_map _
  rw [← length_ids]
  exact (h.nodup.subperm h.mem_ids).length_le

end IsNodePath

/-! ### Steps along a path -/

/-- Whether a step that starts with a path does what a step of the generation does, and leaves a
path behind as it should, holding different nodes of the graph meanwhile.  Only if the bounds are
not enough, it may give nothing. -/
def Follows (g : Graph) (enough : Prop) (path : List String) (leaves : List String → Prop)
    {α : Type} (step : TraversalM α) (written : RenderM α) : Prop :=
  ∀ progress seen, (step.run { progress, path, seen } = none ∧ ¬ enough) ∨
    ∃ last more, step.run { progress, path, seen } =
        some ((written.run progress).1,
          { progress := (written.run progress).2, path := last, seen := more ++ seen }) ∧
      leaves last ∧ (g.IsNodePath path → ∀ p ∈ more, g.IsNodePath p)

namespace Follows

variable {g : Graph} {enough : Prop} {path : List String} {leaves : List String → Prop}
  {α β : Type}

theorem pure (a : α) (left : leaves path) :
    g.Follows enough path leaves (Pure.pure a) (Pure.pure a) :=
  fun _ _ => .inr ⟨path, [], rfl, left, fun _ _ mem => by cases mem⟩

/-- A step that leaves the path as it was goes in front. -/
theorem bind {step : TraversalM α} {next : α → TraversalM β} {written : RenderM α}
    {then_ : α → RenderM β} (first : g.Follows enough path (· = path) step written)
    (second : ∀ a, g.Follows enough path leaves (next a) (then_ a)) :
    g.Follows enough path leaves (step >>= next) (written >>= then_) := by
  intro progress seen
  rcases first progress seen with ⟨stopped, h⟩ | ⟨_, more, run, rfl, paths⟩
  · refine .inl ⟨?_, h⟩
    rw [StateT.run_bind, stopped]
    rfl
  rcases second (written.run progress).1 (written.run progress).2 (more ++ seen) with
    ⟨stopped, h⟩ | ⟨last, others, run', left, paths'⟩
  · refine .inl ⟨?_, h⟩
    rw [StateT.run_bind, run]
    exact stopped
  · refine .inr ⟨last, others ++ more, ?_, left, fun h p mem => ?_⟩
    · rw [StateT.run_bind, run, List.append_assoc]
      exact run'
    · exact (List.mem_append.1 mem).elim (paths' h p) (paths h p)

theorem map {step : TraversalM α} {written : RenderM α}
    (h : g.Follows enough path leaves step written) (f : α → β) :
    g.Follows enough path leaves (step >>= fun a => Pure.pure (f a))
      (written >>= fun a => Pure.pure (f a)) := by
  intro progress seen
  rcases h progress seen with ⟨stopped, h⟩ | ⟨last, more, run, left, paths⟩
  · refine .inl ⟨?_, h⟩
    rw [StateT.run_bind, stopped]
    rfl
  · refine .inr ⟨last, more, ?_, left, paths⟩
    rw [StateT.run_bind, run]
    rfl

/-- Steps that leave the path as it was go along with putting steps together. -/
theorem matches_ (g : Graph) (enough : Prop) (path : List String) :
    Matches fun (α : Type) (step : TraversalM α) written =>
      g.Follows enough path (· = path) step written where
  pure a := .pure a rfl
  bind := .bind

/-- A step follows under conditions that are stronger, and leaves what is asked for less. -/
theorem mono {sufficient : Prop} {leaves' : List String → Prop} {step : TraversalM α}
    {written : RenderM α} (h : g.Follows enough path leaves step written)
    (imp : sufficient → enough) (left : ∀ last, leaves last → leaves' last) :
    g.Follows sufficient path leaves' step written := by
  intro progress seen
  rcases h progress seen with ⟨stopped, h⟩ | ⟨last, more, run, leave, paths⟩
  · exact .inl ⟨stopped, fun le => h (imp le)⟩
  · exact .inr ⟨last, more, run, left last leave, paths⟩

theorem note (step : RenderM α) : g.Follows enough path (· = path) (note step) step :=
  fun _ _ => .inr ⟨path, [], rfl, rfl, fun _ _ mem => by cases mem⟩

/-- A node is put on the path. -/
theorem push {step : TraversalM α} {written : RenderM α} {id : String} (new : id ∉ path)
    (mem : id ∈ g.ids) (h : g.Follows enough (id :: path) leaves step written) :
    g.Follows enough path leaves (push id >>= fun _ => step) written := by
  intro progress seen
  rcases h progress ((id :: path) :: seen) with ⟨stopped, h⟩ | ⟨last, more, run, left, paths⟩
  · exact .inl ⟨stopped, h⟩
  · refine .inr ⟨last, more ++ [id :: path], ?_, left, fun is_path p hp => ?_⟩
    · rw [List.append_assoc]
      exact run
    · have longer := is_path.cons new mem
      rcases List.mem_append.1 hp with hp | hp
      · exact paths longer p hp
      · rwa [List.mem_singleton.1 hp]

/-- What has been put on top of a path is taken off again. -/
theorem cutBack {step : TraversalM α} {written : RenderM α}
    (h : g.Follows enough path (path <:+ ·) step written) (f : α → β) :
    g.Follows enough path (· = path)
      (step >>= fun a => TraversalM.cutBack path.length >>= fun _ => Pure.pure (f a))
      (written >>= fun a => Pure.pure (f a)) := by
  intro progress seen
  rcases h progress seen with ⟨stopped, h⟩ | ⟨_, more, run, ⟨top, rfl⟩, paths⟩
  · refine .inl ⟨?_, h⟩
    rw [StateT.run_bind, stopped]
    rfl
  · have rest : (top ++ path).drop ((top ++ path).length - path.length) = path := by
      rw [List.length_append, Nat.add_sub_cancel, List.drop_left]
    refine .inr ⟨_, more, ?_, rest, paths⟩
    rw [StateT.run_bind, run]
    rfl

end Follows

/-! ### Chains -/

section

variable {g : Graph} {options : RenderOptions} {inner : String → TraversalM String}

/-- The text of the chain that starts at a node, behind or inside of the nodes on a path. -/
def chainTextAt (g : Graph) (options : RenderOptions) (path : List String) (id : String) :
    RenderM String :=
  return "\n".intercalate (← g.chain options path id)

/-- A node is written along a path if the chains in its branches are. -/
theorem follows_nodeTextM {enough : Prop} {path : List String} {id : String}
    (h : ∀ target, g.Follows enough (id :: path) (· = id :: path) (inner target)
      (g.chainTextAt options (id :: path) target)) (node : Node) :
    g.Follows enough (id :: path) (· = id :: path) (g.nodeTextM options inner id node)
      (g.nodeText options path id node) := by
  have branches (key : Key) : g.Follows enough (id :: path) (· = id :: path)
      (g.branchTextM inner id key) (g.branchText options path id key) := by
    rw [branchTextM, branchText]
    cases g.follow? ⟨id, key⟩ with
    | none => exact .pure _ rfl
    | some target => exact h target
  rw [nodeTextM, nodeText]
  cases node.visible with
  | true =>
    exact Command.renderM_matches (Follows.matches_ g enough (id :: path)) (fun _ => .note _)
      (fun key _ => branches key) options
  | false => exact .pure _ rfl

/-- The loop of a chain goes along a path.  With each round, one node less is off the path, both
for the rounds that follow and for the chains in the branches. -/
theorem follows_textsM {bound : Nat}
    (h : ∀ path target, g.Follows (countOpen g.ids path < bound) path (· = path) (inner target)
      (g.chainTextAt options path target)) (rounds : Nat) (path : List String) (id : String) :
    g.Follows (countOpen g.ids path < rounds ∧ countOpen g.ids path ≤ bound) path (path <:+ ·)
      (g.textsM options inner rounds id) (g.chain options path id) := by
  induction rounds generalizing path id with
  | zero => exact fun _ _ => .inl ⟨rfl, fun enough => Nat.not_lt_zero _ enough.1⟩
  | succ rounds ih =>
    intro progress seen
    rw [textsM]
    simp only [StateT.run_bind, StateT.run_get, pure_bind]
    by_cases met : id ∈ path
    · rw [if_pos met, chain_of_mem met]
      exact (Follows.note _).bind (fun _ => .pure _ (List.suffix_refl path)) progress seen
    rw [if_neg met]
    cases found : g.node? id with
    | none =>
      rw [chain_of_node?_eq_none met found]
      exact Follows.pure _ (List.suffix_refl path) progress seen
    | some node =>
      have mem := mem_ids_of_node? found
      have fewer : countOpen g.ids (id :: path) < countOpen g.ids path := countOpen_cons_lt met mem
      -- the chains in the branches have the node on their path, and so less to do
      have nested (target : String) := (h (id :: path) target).mono
        (fun enough : countOpen g.ids path < rounds + 1 ∧ countOpen g.ids path ≤ bound =>
          Nat.lt_of_lt_of_le fewer enough.2) fun _ e => e
      have behind : g.Follows (countOpen g.ids path < rounds + 1 ∧ countOpen g.ids path ≤ bound)
          (id :: path) (path <:+ ·) (g.textsBehindM (g.textsM options inner rounds) id)
          (g.textsBehind options path id) := by
        rw [textsBehindM, textsBehind]
        cases g.follow? ⟨id, .flow⟩ with
        | none => exact .pure _ (List.suffix_cons id path)
        | some next =>
          refine (ih (id :: path) next).mono (fun enough => ?_) fun _ =>
            (List.suffix_cons id path).trans
          omega
      rw [chain_of_node? met found]
      refine Follows.push met mem ?_ progress seen
      refine (Follows.note _).bind fun _ => (follows_nodeTextM nested node).bind fun text => ?_
      exact behind.map fun rest => if text.isEmpty then rest else text :: rest

/-- A chain is written along a path if the chains that are nested in it are. -/
theorem follows_chain (bound : Nat) {rounds : Nat}
    (h : ∀ path target, g.Follows (countOpen g.ids path < bound) path (· = path) (inner target)
      (g.chainTextAt options path target)) (path : List String) (id : String) :
    g.Follows (countOpen g.ids path < rounds ∧ countOpen g.ids path ≤ bound) path (· = path)
      (do
        let length := (← get).path.length
        let texts ← g.textsM options inner rounds id
        cutBack length
        return "\n".intercalate texts)
      (g.chainTextAt options path id) := by
  intro progress seen
  rw [chainTextAt]
  simp only [StateT.run_bind, StateT.run_get, pure_bind]
  exact (follows_textsM h rounds path id).cutBack _ progress seen

/-- **Each chain follows its path.**  It is written as for the path that it finds, and leaves this
path as it was, unless the bounds are too low for the nodes that are not on it. -/
theorem follows_chainM (g : Graph) (options : RenderOptions) (rounds depth : Nat)
    (path : List String) (id : String) :
    g.Follows (countOpen g.ids path < rounds ∧ countOpen g.ids path ≤ depth) path (· = path)
      (g.chainM options rounds depth id) (g.chainTextAt options path id) := by
  induction depth generalizing path id with
  | zero =>
    rw [chainM]
    exact follows_chain 0 (fun _ _ _ _ => .inl ⟨rfl, Nat.not_lt_zero _⟩) path id
  | succ depth ih =>
    rw [chainM]
    refine (follows_chain (min (depth + 1) rounds) (fun path target => ?_) path id).mono
      (fun enough => ?_) fun _ e => e
    · exact (ih path target).mono (fun enough => by omega) fun _ e => e
    · omega

end

/-- **Generation ends.**  Whatever connections a graph has, it is written with at most one more
round in the loop of a chain than it has nodes, and with chains nested no deeper in each other than
it has nodes.  The nodes on the path are different nodes of the graph all the while, and every chain
leaves the path behind as it has found it. -/
theorem renderM_settles (g : Graph) (options : RenderOptions) :
    (∀ rounds depth, g.nodes.length < rounds → g.nodes.length ≤ depth →
      ∃ seen, (g.renderM options rounds depth).run {} =
          some (((g.render options).run {}).1,
            { progress := ((g.render options).run {}).2, path := [], seen }) ∧
        ∀ path ∈ seen, path.Nodup ∧ (∀ id ∈ path, id ∈ g.ids) ∧
          path.length ≤ g.nodes.length) ∧
      ∀ rounds depth id before text after,
        (g.chainM options rounds depth id).run before = some (text, after) →
          after.path = before.path := by
  constructor
  · intro rounds depth enough_rounds enough_depth
    have all_open : countOpen g.ids [] = g.nodes.length := by
      simp [countOpen, ids]
    -- the traversal is put together from chains and markers as the generation is
    have written : g.Follows (countOpen g.ids [] < rounds ∧ countOpen g.ids [] ≤ depth) [] (· = [])
        (g.renderM options rounds depth) (g.render options) := by
      have law := Follows.matches_ g (countOpen g.ids [] < rounds ∧ countOpen g.ids [] ≤ depth) []
      refine law.bind (law.mapM fun node _ => ?_) fun chains => ?_
      · exact g.follows_chainM options rounds depth [] node.id
      · exact law.map (.note _) _
    rcases written {} [] with ⟨-, stopped⟩ | ⟨_, seen, run, rfl, paths⟩
    · omega
    · rw [List.append_nil] at run
      refine ⟨seen, run, fun path mem => ?_⟩
      have is_path := paths (.nil g) path mem
      exact ⟨is_path.nodup, is_path.mem_ids, is_path.length_le⟩
  · intro rounds depth id before text after run
    rcases g.follows_chainM options rounds depth before.path id before.progress before.seen with
      ⟨stopped, -⟩ | ⟨_, more, settled, rfl, -⟩
    · cases stopped.symm.trans run
    · cases settled.symm.trans run
      rfl

/-! ### A traversal that comes back -/

/-- A statement whose body leads back into it, and which leads into its own body and to a node that
is gone; and one that leads to itself. -/
def wovenFlow : Graph where
  nodes := [
    { id := "outer"
      name := "outer"
      command := { name := "outer", args := [.branch { name := some "body" }] }
      values := ∅
      expanded := true
      visible := true
      position := {}
      sockets := {} },
    { id := "inner"
      name := "inner"
      command := { name := "inner" }
      values := ∅
      expanded := false
      visible := true
      position := {}
      sockets := {} }]
  connections := [
    ⟨⟨"outer", (Key.root.ordinal 0).named "body"⟩, ⟨"inner", .flow⟩⟩,
    ⟨⟨"inner", .flow⟩, ⟨"outer", (Key.root.ordinal 0).named "body"⟩⟩,
    ⟨⟨"inner", .flow⟩, ⟨"inner", .flow⟩⟩,
    ⟨⟨"outer", .flow⟩, ⟨"outer", (Key.root.ordinal 0).named "body"⟩⟩,
    ⟨⟨"outer", .flow⟩, ⟨"gone", .flow⟩⟩]

/-- Three rounds and a depth of two are enough for two nodes, and the path is left as it was. -/
theorem renderM_settles_wovenFlow :
    wovenFlow.nodes.length = 2 ∧
      (∃ seen, (wovenFlow.renderM {} 3 2).run {} =
          some (((wovenFlow.render {}).run {}).1,
            { progress := ((wovenFlow.render {}).run {}).2, path := [], seen }) ∧
        ∀ path ∈ seen, path.Nodup ∧ (∀ id ∈ path, id ∈ wovenFlow.ids) ∧
          path.length ≤ wovenFlow.nodes.length) ∧
      ∃ text after,
        (wovenFlow.chainM {} 3 2 "inner").run { path := ["outer"] } = some (text, after) ∧
          after.path = ["outer"] := by
  have length : wovenFlow.nodes.length = 2 := rfl
  have returns : ((wovenFlow.chainM {} 3 2 "inner").run { path := ["outer"] }).isSome := by
    decide +kernel
  obtain ⟨⟨text, after⟩, run⟩ := Option.isSome_iff_exists.1 returns
  refine ⟨length, ?_, text, after, run, ?_⟩
  · exact (wovenFlow.renderM_settles {}).1 3 2 (by rw [length]; decide)
      (Nat.le_of_eq length)
  · exact (wovenFlow.renderM_settles {}).2 3 2 "inner" { path := ["outer"] } text after run

end Graph

end CommandGraph
