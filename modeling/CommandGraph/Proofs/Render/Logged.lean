/-
CommandGraph/Proofs/Render/Logged.lean

What a generation logs, and which nodes it enters.

A generation notes the nodes that it enters and the reasons to reject the graph.  A log is
a part of these notes, and `Logs` says what a step adds to it, whatever has been noted
before.  What a chain adds depends on its path alone: it goes on along the exits of its
nodes (`Graph.exits`), and adds something for each node that it enters or meets again
(`Graph.trace`, `Graph.logs_chain`).

Values that are out of reach are reported, too, so that only logs without such reports are
as simple as that (`Ignores`).

A statement is written at the moment its node is entered.  What a chain enters is its node, then
what it enters for every branch that is written, then what lies behind (`Graph.entries`).
`Graph.entered_eq` says that generation enters the nodes of the chains of all roots, in this order.
-/
import CommandGraph.Proofs.Graph.Resolution
import CommandGraph.Proofs.Occurrence.Branches
import CommandGraph.Proofs.Render.Chain

namespace CommandGraph

/-! ### Steps and what they add -/

/-- Whether a step adds the given notes to a log, which has the last note first. -/
def Logs {α : Type} (log : Progress → List String) (step : RenderM α) (notes : List String) :
    Prop :=
  ∀ progress, log (step.run progress).2 = notes.reverse ++ log progress

/-- Whether values that are out of reach leave no trace in a log. -/
def Ignores (log : Progress → List String) : Prop :=
  ∀ error, Logs log (reject (.resolve error)) []

namespace Logs

variable {α β : Type} {log : Progress → List String}

theorem pure (a : α) : Logs log (Pure.pure a) [] :=
  fun _ => rfl

theorem bind {step : RenderM α} {next : α → RenderM β} {notes rest : List String}
    (h : Logs log step notes) (h' : ∀ a, Logs log (next a) rest) :
    Logs log (step >>= next) (notes ++ rest) := by
  intro progress
  show log ((next (step.run progress).1).run (step.run progress).2).2 = _
  rw [h', h, List.reverse_append, List.append_assoc]

theorem map {step : RenderM α} {notes : List String} (h : Logs log step notes) (f : α → β) :
    Logs log (step >>= fun a => Pure.pure (f a)) notes := by
  have mapped := h.bind fun a => pure (f a)
  rwa [List.append_nil] at mapped

theorem mapM {step : α → RenderM β} {notes : α → List String}
    (h : ∀ a, Logs log (step a) (notes a)) (as : List α) :
    Logs log (as.mapM step) (as.flatMap notes) := by
  induction as with
  | nil => exact pure _
  | cons a as ih =>
    rw [List.mapM_cons, List.flatMap_cons]
    exact (h a).bind fun b => ih.map (b :: ·)

end Logs

/-! ### Arguments -/

namespace Occurrence

variable {log : Progress → List String} {options : RenderOptions} {text : Key → RenderM String}
  {notes : Key → List String}

/-- A value adds nothing but reports, which the log ignores. -/
theorem logs_renderScalar (ignores : Ignores log) (limits : ScriptLimits) (node : Grammar)
    (subtype : Primitive) (reading : Reading) :
    Logs log (renderScalar limits node subtype reading) [] := by
  rw [renderScalar.eq_def]
  split
  · -- out of reach: fatal errors are reported, the others are only shown
    next error =>
    split
    · exact (ignores error).bind fun _ => .pure _
    · exact .pure _
  · split
    · exact .pure _
    · split <;> exact .pure _

mutual

/-- Writing an argument logs what its branches do. -/
theorem logs_render (ignores : Ignores log) (h : ∀ key, Logs log (text key) (notes key)) :
    ∀ o : Occurrence, Logs log (o.render options text) ((branchKeys o.all).flatMap notes)
  | scalar node key subtype reading => by
    rw [render]
    exact logs_renderScalar ignores _ _ _ _
  | literal .. => by
    rw [render]
    exact .pure _
  | branch _ key => by
    rw [render, all]
    show Logs log _ ([key].flatMap notes)
    rw [List.flatMap_singleton]
    exact (h key).map _
  | optional _ _ _ content | choice _ _ _ content | base _ _ content => by
    rw [render, all, branchKeys_append]
    show Logs log _ ((_ ++ []).flatMap notes)
    rw [List.append_nil]
    -- what a choice and a base are written as is their content; that of an optional argument is
    -- written even if it is turned off, and then dropped
    first
      | exact (logs_renderOption ignores h content).map _
      | exact logs_renderOption ignores h content
  | repeated _ _ _ os | block _ _ os | group _ _ os | array _ _ os => by
    rw [render, all, branchKeys_append]
    show Logs log _ ((_ ++ []).flatMap notes)
    rw [List.append_nil]
    exact (logs_renderList ignores h os).map _
  | subcommand _ _ param args => by
    rw [render, all, branchKeys_append, branchKeys_append]
    show Logs log _ ((_ ++ []).flatMap notes)
    rw [List.append_nil, List.flatMap_append]
    exact (logs_renderOption ignores h param).bind fun _ =>
      (logs_renderList ignores h args).map _

theorem logs_renderOption (ignores : Ignores log) (h : ∀ key, Logs log (text key) (notes key)) :
    ∀ o : Option Occurrence,
      Logs log (renderOption options text o) ((branchKeys (allOfOption o)).flatMap notes)
  | none => by
    rw [renderOption]
    exact .pure _
  | some o => by
    rw [renderOption]
    exact logs_render ignores h o

theorem logs_renderList (ignores : Ignores log) (h : ∀ key, Logs log (text key) (notes key)) :
    ∀ os : List Occurrence,
      Logs log (renderList options text os) ((branchKeys (allOfList os)).flatMap notes)
  | [] => by
    rw [renderList]
    exact .pure _
  | o :: os => by
    rw [renderList, allOfList, branchKeys_append, List.flatMap_append]
    exact (logs_render ignores h o).bind fun _ => (logs_renderList ignores h os).map _

end

end Occurrence

/-- Writing a statement logs what its branches do. -/
theorem Command.logs_render {log : Progress → List String} (ignores : Ignores log)
    {options : RenderOptions} {text : Key → RenderM String} {notes : Key → List String}
    (h : ∀ key, Logs log (text key) (notes key)) (c : Command) (source : Source) :
    Logs log (c.render options source text)
      ((Occurrence.branchKeys (c.walk source false).all).flatMap notes) := by
  rw [Command.render, Arguments.all, Occurrence.branchKeys_append, List.flatMap_append]
  exact (Occurrence.logs_renderOption ignores h _).bind fun _ =>
    (Occurrence.logs_renderList ignores h _).map _

/-! ### Chains -/

namespace Graph

/-- The keys of a node at which the text goes on with other nodes: those of its branches, unless
it is hidden, and the one behind it. -/
def writtenKeys (g : Graph) (limits : ScriptLimits) (id : String) : List Key :=
  match g.node? id with
  | none => []
  | some node =>
    (if node.visible then
      Occurrence.branchKeys (node.command.walk (g.view limits id) false).all
    else []) ++ [.flow]

/-- The connections along which the text goes on from a node. -/
def exits (g : Graph) (limits : ScriptLimits) (id : String) : List Connection :=
  (g.writtenKeys limits id).flatMap fun key => (g.outgoing ⟨id, key⟩).head?.toList

/-- What a chain adds to a log: `met` for a node that it meets again, and `new` for each one that
it enters. -/
def trace (g : Graph) (limits : ScriptLimits) (met new : String → List String)
    (path : List String) (id : String) : List String :=
  if _hp : id ∈ path then met id
  else
    match _hn : g.node? id with
    | none => []
    | some _ =>
      new id ++ (g.exits limits id).flatMap fun c =>
        trace g limits met new (id :: path) c.target.node
termination_by countOpen g.ids path
decreasing_by
  exact countOpen_cons_lt _hp (mem_ids_of_node? _hn)

/-- What a chain adds to a log for one key of a node. -/
def traceAt (g : Graph) (limits : ScriptLimits) (met new : String → List String)
    (path : List String) (place : Place) : List String :=
  (g.outgoing place).head?.toList.flatMap fun c =>
    g.trace limits met new (place.node :: path) c.target.node

section

variable {g : Graph} {limits : ScriptLimits} {met new : String → List String}
  {path : List String} {id : String}

/-! ### Traces, one node at a time -/

/-- Hidden or not, a node is left along its flow. -/
theorem flow_mem_writtenKeys {node : Node} (found : g.node? id = some node)
    (limits : ScriptLimits) : .flow ∈ g.writtenKeys limits id := by
  rw [writtenKeys, found]
  exact List.mem_append_right _ (List.mem_singleton_self _)

theorem mem_writtenKeys_of_branch {node : Node} {key : Key} (found : g.node? id = some node)
    (visible : node.visible = true)
    (branch : key ∈ Occurrence.branchKeys (node.command.walk (g.view limits id) false).all) :
    key ∈ g.writtenKeys limits id := by
  rw [writtenKeys, found]
  exact List.mem_append_left _ (by rwa [if_pos visible])

/-- A node of the path is met again. -/
theorem trace_of_mem (again : id ∈ path) : g.trace limits met new path id = met id := by
  rw [trace, dif_pos again]

/-- A connection may lead to a node that is gone. -/
theorem trace_of_node?_eq_none (first : id ∉ path) (missing : g.node? id = none) :
    g.trace limits met new path id = [] := by
  rw [trace, dif_neg first]
  split
  · rfl
  · next node found =>
    rw [missing] at found
    cases found

/-- A node that is entered is followed by what lies along its exits. -/
theorem trace_of_node? {node : Node} (first : id ∉ path) (found : g.node? id = some node) :
    g.trace limits met new path id =
      new id ++ (g.exits limits id).flatMap fun c =>
        g.trace limits met new (id :: path) c.target.node := by
  rw [trace, dif_neg first]
  split
  · next missing =>
    rw [missing] at found
    cases found
  · rfl

theorem flatMap_exits :
    ((g.exits limits id).flatMap fun c => g.trace limits met new (id :: path) c.target.node) =
      (g.writtenKeys limits id).flatMap fun key => g.traceAt limits met new path ⟨id, key⟩ := by
  rw [exits, List.flatMap_assoc]
  rfl

end

/-! ### Chains add their traces -/

/-- A chain adds its trace to a log. -/
theorem logs_chain {log : Progress → List String} (ignores : Ignores log)
    {met new : String → List String} (rejects : ∀ id, Logs log (rejectCycle id) (met id))
    (enters : ∀ id, Logs log (enter id) (new id)) (g : Graph) (options : RenderOptions)
    (path : List String) (id : String) :
    Logs log (g.chain options path id) (g.trace options.limits met new path id) := by
  induction path using path_induction g.ids generalizing id with
  | step path ih =>
    by_cases again : id ∈ path
    · rw [chain_of_mem again, trace_of_mem again]
      exact (rejects id).map _
    cases found : g.node? id with
    | none =>
      rw [chain_of_node?_eq_none again found, trace_of_node?_eq_none again found]
      exact .pure _
    | some node =>
      -- as for chains, the induction is on the nodes that are not on the path
      have deeper (target : String) : Logs log (g.chain options (id :: path) target)
          (g.trace options.limits met new (id :: path) target) :=
        ih id (mem_ids_of_node? found) again target
      -- a branch holds the chain that its first connection leads to, if there is one
      have branches (key : Key) : Logs log (g.branchText options path id key)
          (g.traceAt options.limits met new path ⟨id, key⟩) := by
        rw [branchText, follow?, traceAt]
        cases (g.outgoing ⟨id, key⟩).head? with
        | none => exact .pure _
        | some c =>
          rw [Option.toList_some, List.flatMap_singleton]
          exact (deeper _).map _
      have behind : Logs log (g.textsBehind options path id)
          (g.traceAt options.limits met new path ⟨id, .flow⟩) := by
        rw [textsBehind, follow?, traceAt]
        cases (g.outgoing ⟨id, .flow⟩).head? with
        | none => exact .pure _
        | some c =>
          rw [Option.toList_some, List.flatMap_singleton]
          exact deeper _
      -- enter the node, write it with its branches, go on behind it: so does the trace
      rw [chain_of_node? again found, trace_of_node? again found, flatMap_exits, writtenKeys, found]
      simp only [List.flatMap_append, List.flatMap_singleton]
      rw [nodeText]
      refine (enters id).bind fun _ => ?_
      -- a hidden node has no text, so that its branches are not followed
      cases node.visible with
      | true => exact (Command.logs_render ignores branches _ _).bind fun _ => behind.map _
      | false => exact (Logs.pure _).bind fun _ => behind.map _

/-- The chains of all roots add their traces to a log. -/
theorem logs_roots {log : Progress → List String} (ignores : Ignores log)
    {met new : String → List String} (rejects : ∀ id, Logs log (rejectCycle id) (met id))
    (enters : ∀ id, Logs log (enter id) (new id)) (g : Graph) (options : RenderOptions) :
    Logs log (g.roots.mapM fun node => g.chainText options node.id)
      (g.roots.flatMap fun node => g.trace options.limits met new [] node.id) := by
  refine Logs.mapM (fun node => ?_) g.roots
  exact (logs_chain ignores rejects enters g options [] node.id).map _

/-! ### The nodes that generation enters -/

/-- The nodes that a chain enters. -/
def entries (g : Graph) (limits : ScriptLimits) (path : List String) (id : String) :
    List String :=
  g.trace limits (fun _ => []) (fun id => [id]) path id

section

variable {g : Graph} {limits : ScriptLimits} {path : List String} {id : String}

theorem entries_of_mem (met : id ∈ path) : g.entries limits path id = [] :=
  trace_of_mem met

theorem entries_of_node?_eq_none (missing : g.node? id = none) :
    g.entries limits path id = [] := by
  by_cases met : id ∈ path
  · exact entries_of_mem met
  · exact trace_of_node?_eq_none met missing

/-- The node itself, then what its exits lead to. -/
theorem entries_of_node? {node : Node} (new : id ∉ path) (found : g.node? id = some node) :
    g.entries limits path id =
      id :: (g.exits limits id).flatMap fun c => g.entries limits (id :: path) c.target.node :=
  trace_of_node? new found

end

/-- The nodes that generation enters, in this order. -/
def entered (g : Graph) (options : RenderOptions) : List String :=
  ((g.roots.mapM fun node => g.chainText options node.id).run {}).2.reached.reverse

/-- Generation enters what the chains of the roots do, one chain after the other. -/
theorem entered_eq (g : Graph) (options : RenderOptions) :
    g.entered options = g.roots.flatMap fun node => g.entries options.limits [] node.id := by
  -- what has been reached is a log; neither reports nor cycles show in it
  have chains : Logs Progress.reached (g.roots.mapM fun node => g.chainText options node.id)
      (g.roots.flatMap fun node => g.entries options.limits [] node.id) :=
    logs_roots (fun _ _ => rfl) (fun _ _ => rfl) (fun _ _ => rfl) g options
  rw [entered, chains, List.reverse_append, List.reverse_reverse]
  rfl

end Graph

end CommandGraph
