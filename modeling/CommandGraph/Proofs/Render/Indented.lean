/-
CommandGraph/Proofs/Render/Indented.lean

Statements inside of blocks.

What stands in braces is indented line by line, and where braces stand in braces this is done
again.  `Graph.Contains` says that the text of a chain has that of another one in it, in so many
braces.  The lines of the inner text are followed outwards:

* out of a branch into the text of its statement (`Command.shows_text`),
* from there into the text of a chain (`Graph.Contains.block_infix`),
* and from the chain of a root into the text of the graph (`Graph.Contains.nested_infix`).

So a text stands in blocks as it does outside of them, with every line indented once for each of
the braces, if its lines are put together to the same text again.  They are not if a carriage
return stands in front of a newline or a newline at the end (`Graph.nesting_indents`): braces take
these away (`Graph.generate_stepInLoop`).
-/
import CommandGraph.Proofs.Occurrence.Depths
import CommandGraph.Proofs.Render.Texts
import CommandGraph.Proofs.Text.Lines

namespace CommandGraph

open Relation

/-! ### Lines in texts -/

theorem Lines.Steady.isEmpty_eq_false {lines : List (List Char)} (steady : Lines.Steady lines)
    {text : String} (inside : Lines.block lines <:+: Lines.block [text.toList]) :
    text.isEmpty = false := by
  refine Bool.eq_false_iff.2 fun empty => steady.ne_nil_of_block inside ?_
  rw [String.isEmpty_iff.1 empty, String.toList_empty]

/-- Whether lines stand in a text one after the other, between newlines. -/
def Shows (text : String) (lines : List (List Char)) : Prop :=
  Lines.block lines <:+: text.toList

namespace Shows

variable {text : String} {lines : List (List Char)}

theorem behind (h : Shows text lines) (front : String) : Shows (front ++ text) lines := by
  rw [Shows, String.toList_append]
  exact List.infix_append_of_infix_right h

theorem before (h : Shows text lines) (rest : String) : Shows (text ++ rest) lines := by
  rw [Shows, String.toList_append]
  exact List.infix_append_of_infix_left h

theorem isEmpty_eq_false (h : Shows text lines) : text.isEmpty = false := by
  refine Bool.eq_false_iff.2 fun empty => ?_
  rw [Shows, String.isEmpty_iff.1 empty] at h
  cases List.infix_nil.1 h

theorem mem_nonEmpty (h : Shows text lines) {texts : List String} (mem : text ∈ texts) :
    text ∈ Render.nonEmpty texts :=
  List.mem_filter.2 ⟨mem, by rw [h.isEmpty_eq_false]; rfl⟩

theorem nonEmpty_isEmpty (h : Shows text lines) {texts : List String} (mem : text ∈ texts) :
    (Render.nonEmpty texts).isEmpty = false :=
  List.isEmpty_eq_false_iff_exists_mem.2 ⟨text, h.mem_nonEmpty mem⟩

theorem intercalate (h : Shows text lines) {texts : List String} (mem : text ∈ texts)
    (separator : String) : Shows (separator.intercalate (Render.nonEmpty texts)) lines := by
  rw [Shows, String.toList_intercalate]
  refine h.trans (Lines.infix_intercalate ?_ separator.toList)
  exact List.mem_map_of_mem (h.mem_nonEmpty mem)

theorem bracketed (h : Shows text lines) : Shows (Render.bracketed (some text)) lines := by
  rw [Render.bracketed]
  simp only [h.isEmpty_eq_false]
  exact (h.behind _).before _

/-- Lines of a body are indented once more in braces. -/
theorem braced {body indent : String} (steady : Lines.Steady lines)
    (unbroken : '\n' ∉ indent.toList)
    (inside : Lines.block lines <:+: Lines.block [body.toList]) :
    Shows (Render.braced body indent) (Lines.nested indent.toList 1 lines) := by
  rw [Render.braced, steady.isEmpty_eq_false inside, if_neg Bool.false_ne_true, Shows]
  have indented : (Render.indentLines body indent).toList =
      Lines.indent indent.toList body.toList :=
    String.toList_ofList
  refine (steady.block_indent unbroken inside).trans ⟨['\x7b'], ['\x7d'], ?_⟩
  rw [String.toList_append, String.toList_append, indented, Lines.block, List.flatMap_singleton]
  exact congrArg ('\x7b' :: '\n' :: ·) (List.append_assoc _ _ _)

end Shows

/-! ### Lines in statements -/

namespace Occurrence

section

variable (options : RenderOptions) (held : Key → String)

/-- The text of an argument whose branches hold the given texts, or nothing if it is omitted. -/
def text? (o : Occurrence) : Option String :=
  Id.run (o.renderM options (fun _ => pure ()) fun key => pure (held key))

/-- The text of an argument that may be missing. -/
def textOfOption? (o : Option Occurrence) : Option String :=
  Id.run (renderOptionM options (fun _ => pure ()) (fun key => pure (held key)) o)

/-- The texts of the arguments that are not omitted. -/
def textsOfList (os : List Occurrence) : List String :=
  Id.run (renderListM options (fun _ => pure ()) (fun key => pure (held key)) os)

end

section

variable {options : RenderOptions} {held : Key → String} {lines : List (List Char)} {key : Key}

/-- Lines in the parameter or in an argument stand in the text of a command within a command. -/
theorem shows_subcommandText {node : Grammar} {param : Option String} {args : List String}
    (h : (∃ text, param = some text ∧ Shows text lines) ∨ ∃ text ∈ args, Shows text lines) :
    Shows (subcommandText node param args) lines := by
  rw [subcommandText]
  rcases h with ⟨text, rfl, shown⟩ | ⟨text, mem, shown⟩
  · have name := shown.bracketed.behind node.writtenName
    split
    · exact ((name.before _).before _).before _
    · split
      · exact name
      · exact (name.before _).before _
  · have listed := shown.intercalate mem
    simp only [shown.nonEmpty_isEmpty mem]
    split
    · exact ((listed _).behind _).before _
    · exact (listed _).behind _

mutual

/-- The lines that a branch holds stand in the text of the argument that it belongs to, indented
once for each of the braces around the branch. -/
theorem exists_shows (unbroken : '\n' ∉ options.indent.toList) (steady : Lines.Steady lines)
    (inside : Lines.block lines <:+: Lines.block [(held key).toList]) :
    ∀ o : Occurrence, ∀ depth, (key, depth) ∈ o.branchDepths →
      ∃ text, o.text? options held = some text ∧
        Shows text (Lines.nested options.indent.toList depth lines)
  | scalar .., _, mem | literal .., _, mem => by cases mem
  | branch node other, depth, mem => by
    rw [branchDepths, List.mem_singleton] at mem
    cases mem
    exact ⟨_, rfl, .braced steady unbroken inside⟩
  | optional _ _ enabled content, depth, mem => by
    rw [branchDepths] at mem
    split at mem
    · next on =>
      obtain ⟨text, e, shown⟩ := exists_shows_option unbroken steady inside content depth mem
      rw [text?, renderM]
      show ∃ text, (if enabled then textOfOption? options held content else none) = _ ∧ _
      exact ⟨text, by rw [if_pos on]; exact e, shown⟩
    · cases mem
  | choice _ _ _ content, depth, mem => by
    rw [branchDepths] at mem
    rw [text?, renderM]
    exact exists_shows_option unbroken steady inside content depth mem
  | base node _ param, depth, mem => by
    rw [branchDepths] at mem
    obtain ⟨text, e, shown⟩ := exists_shows_option unbroken steady inside param depth mem
    rw [text?, renderM]
    refine ⟨_, rfl, ?_⟩
    show Shows (node.writtenName ++ Render.bracketed (textOfOption? options held param)) _
    rw [e]
    exact shown.bracketed.behind _
  | repeated node _ _ items, depth, mem => by
    rw [branchDepths] at mem
    obtain ⟨text, mem, shown⟩ := exists_shows_list unbroken steady inside items depth mem
    rw [text?, renderM]
    refine ⟨_, ?_, shown.intercalate mem node.itemJoiner⟩
    show repeatedText node (textsOfList options held items) = _
    rw [repeatedText, shown.nonEmpty_isEmpty mem, if_neg Bool.false_ne_true]
  | block _ _ children, depth, mem => by
    rw [branchDepths, List.mem_map] at mem
    obtain ⟨p, mem, e⟩ := mem
    obtain ⟨same, deeper⟩ := Prod.mk.inj e
    have mem : (key, p.2) ∈ branchDepthsOfList children := same ▸ mem
    obtain ⟨text, mem, shown⟩ := exists_shows_list unbroken steady inside children p.2 mem
    have body := (shown.intercalate mem "\n").trans (Lines.infix_block_singleton _)
    have outer := Shows.braced (steady.nested unbroken p.2) unbroken body
    rw [Lines.nested_nested, Nat.add_comm, deeper] at outer
    rw [text?, renderM]
    exact ⟨_, rfl, outer⟩
  | group _ _ children, depth, mem => by
    rw [branchDepths] at mem
    obtain ⟨text, mem, shown⟩ := exists_shows_list unbroken steady inside children depth mem
    rw [text?, renderM]
    exact ⟨_, rfl, shown.intercalate mem _⟩
  | array node _ items, depth, mem => by
    rw [branchDepths] at mem
    obtain ⟨text, mem, shown⟩ := exists_shows_list unbroken steady inside items depth mem
    rw [text?, renderM]
    refine ⟨_, rfl, ?_⟩
    show Shows (arrayText node (textsOfList options held items)) _
    rw [arrayText]
    exact ((shown.intercalate mem _).behind _).before _
  | subcommand node _ param args, depth, mem => by
    rw [branchDepths, List.mem_append] at mem
    rw [text?, renderM]
    refine ⟨_, rfl, shows_subcommandText ?_⟩
    exact mem.imp (exists_shows_option unbroken steady inside param depth)
      (exists_shows_list unbroken steady inside args depth)

/-- The lines of a branch stand in the text of an argument that may be missing. -/
theorem exists_shows_option (unbroken : '\n' ∉ options.indent.toList)
    (steady : Lines.Steady lines)
    (inside : Lines.block lines <:+: Lines.block [(held key).toList]) :
    ∀ o : Option Occurrence, ∀ depth, (key, depth) ∈ branchDepthsOfOption o →
      ∃ text, textOfOption? options held o = some text ∧
        Shows text (Lines.nested options.indent.toList depth lines)
  | none, _, mem => by cases mem
  | some o, depth, mem => exists_shows unbroken steady inside o depth mem

/-- The lines of a branch stand in the text of one of several arguments. -/
theorem exists_shows_list (unbroken : '\n' ∉ options.indent.toList)
    (steady : Lines.Steady lines)
    (inside : Lines.block lines <:+: Lines.block [(held key).toList]) :
    ∀ os : List Occurrence, ∀ depth, (key, depth) ∈ branchDepthsOfList os →
      ∃ text ∈ textsOfList options held os,
        Shows text (Lines.nested options.indent.toList depth lines)
  | [], _, mem => by cases mem
  | o :: os, depth, mem => by
    rw [branchDepthsOfList, List.mem_append] at mem
    rw [textsOfList, renderListM]
    show ∃ text ∈ (o.text? options held).toList ++ textsOfList options held os, _
    rcases mem with mem | mem
    · obtain ⟨text, e, shown⟩ := exists_shows unbroken steady inside o depth mem
      exact ⟨text, List.mem_append_left _ (Option.mem_toList.2 e), shown⟩
    · obtain ⟨text, mem, shown⟩ := exists_shows_list unbroken steady inside os depth mem
      exact ⟨text, List.mem_append_right _ mem, shown⟩

end

end

end Occurrence

namespace Command

variable {c : Command} {options : RenderOptions} {source : Source} {held : Key → String}
  {lines : List (List Char)}

/-- Lines in the parameter or in an argument stand in the line of a command. -/
theorem shows_line {param : Option String} {args : List String}
    (h : (∃ text, param = some text ∧ Shows text lines) ∨ ∃ text ∈ args, Shows text lines) :
    Shows (c.line param args) lines := by
  rw [line]
  rcases h with ⟨text, rfl, shown⟩ | ⟨text, mem, shown⟩
  · have start := (shown.bracketed.behind c.literal).before (c.suffix.getD "")
    split
    · exact start
    · exact (start.before _).before _
  · simp only [shown.nonEmpty_isEmpty mem]
    exact (shown.intercalate mem _).behind _

/-- The lines that a branch holds stand in the text of the statement, indented once for each of the
braces around the branch. -/
theorem shows_text (unbroken : '\n' ∉ options.indent.toList) (steady : Lines.Steady lines)
    {key : Key} {depth : Nat} (branch : (key, depth) ∈ (c.walk source false).branchDepths)
    (inside : Lines.block lines <:+: Lines.block [(held key).toList]) :
    Shows (c.text options source held) (Lines.nested options.indent.toList depth lines) := by
  show Shows (c.line (Occurrence.textOfOption? options held _)
    (Occurrence.textsOfList options held _)) _
  refine shows_line ((List.mem_append.1 branch).imp ?_ ?_)
  · exact Occurrence.exists_shows_option unbroken steady inside _ depth
  · exact Occurrence.exists_shows_list unbroken steady inside _ depth

end Command

/-! ### Statements in graphs -/

namespace Graph

/-- Whether the chain from a node contains that from another one, in so many braces.  Each of the
two stands behind or inside of the nodes on its path. -/
inductive Contains (g : Graph) (limits : ScriptLimits) :
    List String → String → Nat → List String → String → Prop
  | self (path : List String) (id : String) : Contains g limits path id 0 path id
  | behind {path inner : List String} {id next other : String} {depth : Nat} {node : Node}
    (new : id ∉ path) (found : g.node? id = some node)
    (leads : g.follow? ⟨id, .flow⟩ = some next)
    (rest : Contains g limits (id :: path) next depth inner other) :
    Contains g limits path id depth inner other
  | inside {path inner : List String} {id next other : String} {key : Key} {deeper depth : Nat}
    {node : Node} (new : id ∉ path) (found : g.node? id = some node)
    (visible : node.visible = true)
    (branch : (key, depth) ∈ (node.command.walk (g.view limits id) false).branchDepths)
    (leads : g.follow? ⟨id, key⟩ = some next)
    (rest : Contains g limits (id :: path) next deeper inner other) :
    Contains g limits path id (depth + deeper) inner other

section

variable {g : Graph} {options : RenderOptions} {path inner : List String} {id other : String}
  {depth : Nat} {lines : List (List Char)}

/-- The lines of the texts of a chain. -/
def textBlock (g : Graph) (options : RenderOptions) (path : List String) (id : String) :
    List Char :=
  Lines.block ((g.texts options path id).map String.toList)

/-- Lines in one of the texts of a chain stand in the lines of the chain. -/
theorem block_infix_textBlock {text : String} (shown : Shows text lines)
    (mem : text ∈ g.texts options path id) :
    Lines.block lines <:+: g.textBlock options path id := by
  refine shown.trans ((Lines.infix_block_singleton _).trans (Lines.block_infix_of_mem ?_))
  exact List.mem_map_of_mem mem

/-- The lines of an inner chain stand in those of the outer one, indented once for each of the
braces. -/
theorem Contains.block_infix (unbroken : '\n' ∉ options.indent.toList)
    (contains : g.Contains options.limits path id depth inner other)
    (steady : Lines.Steady lines)
    (shown : Lines.block lines <:+: g.textBlock options inner other) :
    Lines.block (Lines.nested options.indent.toList depth lines) <:+:
      g.textBlock options path id := by
  induction contains with
  | self path id =>
    rw [Lines.nested_zero]
    exact shown
  | @behind path _ id next _ _ node new found leads _ ih =>
    have later : g.laterTexts options path id = g.texts options (id :: path) next := by
      rw [laterTexts, leads, Option.elim_some]
    refine (ih shown).trans (Lines.block_infix ?_)
    rw [texts_of_node? new found, later]
    split
    · exact List.infix_refl _
    · exact List.infix_cons (List.infix_refl _)
  | @inside path _ id next _ key deeper depth node new found visible branch leads _ ih =>
    have held : g.heldText options path id key =
        "\n".intercalate (g.texts options (id :: path) next) := by
      rw [heldText, leads, Option.elim_some]
    -- the branch is written in its braces, which indent what the deeper ones have indented
    have statement : Shows (g.statementText options path id node)
        (Lines.nested options.indent.toList (depth + deeper) lines) := by
      rw [statementText, if_pos visible, ← Lines.nested_nested]
      refine Command.shows_text unbroken (steady.nested unbroken deeper) branch ?_
      rw [held, String.toList_intercalate]
      exact (ih shown).trans (Lines.block_infix_intercalate _)
    refine block_infix_textBlock statement ?_
    rw [texts_of_node? new found, statement.isEmpty_eq_false, if_neg Bool.false_ne_true]
    exact List.mem_cons_self

/-- The lines of the chain of a root stand in the text of the graph. -/
theorem block_infix_generate {text : String}
    (mem : text ∈ Render.nonEmpty
      (g.roots.map fun node => "\n".intercalate (g.texts options [] node.id))) :
    Lines.block [text.toList] <:+: Lines.block [(g.generate options).toList] := by
  rw [generate_eq_intercalate, String.toList_intercalate]
  exact Lines.block_infix_paragraphs (List.mem_map_of_mem (List.mem_append_left _ mem))

/-- The lines of a chain stand in the text of the graph, indented once for each of the braces around
the chain. -/
theorem Contains.nested_infix (unbroken : '\n' ∉ options.indent.toList) {root : Node}
    (start : root ∈ g.roots) (contains : g.Contains options.limits [] root.id depth path id)
    (steady : Lines.Steady lines) (shown : Lines.block lines <:+: g.textBlock options path id) :
    Lines.nested options.indent.toList depth lines <:+:
      Lines.pieces (g.generate options).toList := by
  have nested := steady.nested unbroken depth
  have chain : Lines.block (Lines.nested options.indent.toList depth lines) <:+:
      Lines.block [("\n".intercalate (g.texts options [] root.id)).toList] := by
    rw [String.toList_intercalate]
    exact (contains.block_infix unbroken steady shown).trans (Lines.block_infix_intercalate _)
  refine Lines.infix_pieces_of_block nested.whole (chain.trans (block_infix_generate ?_))
  refine List.mem_filter.2 ⟨List.mem_map.2 ⟨root, start, rfl⟩, ?_⟩
  rw [nested.isEmpty_eq_false chain, Bool.not_false]

/-- A chain contains all nodes that it enters. -/
theorem exists_contains_of_mem_entries {limits : ScriptLimits}
    (mem : other ∈ g.entries limits path id) :
    ∃ depth inner, g.Contains limits path id depth inner other := by
  induction path using path_induction g.ids generalizing id with
  | step path ih =>
    by_cases met : id ∈ path
    · rw [entries_of_mem met] at mem
      cases mem
    cases found : g.node? id with
    | none =>
      rw [entries_of_node?_eq_none found] at mem
      cases mem
    | some node =>
      rw [entries_of_node? met found] at mem
      rcases List.mem_cons.1 mem with rfl | mem
      · exact ⟨0, path, .self path other⟩
      obtain ⟨c, exit, mem⟩ := List.mem_flatMap.1 mem
      obtain ⟨deeper, inner, rest⟩ := ih id (mem_ids_of_node? found) met mem
      obtain ⟨key, written, first⟩ := List.mem_flatMap.1 exit
      have leads : g.follow? ⟨id, key⟩ = some c.target.node := by
        rw [follow?, Option.mem_toList.1 first, Option.map_some]
      rw [writtenKeys, found] at written
      -- an exit is one of the branches of the node, or the connection behind it
      rcases List.mem_append.1 written with written | written
      · split at written
        · next visible =>
          rw [← Command.map_fst_branchDepths] at written
          obtain ⟨p, branch, rfl⟩ := List.mem_map.1 written
          exact ⟨_, inner, .inside met found visible branch leads rest⟩
        · cases written
      · rw [List.mem_singleton.1 written] at leads
        exact ⟨deeper, inner, .behind met found leads rest⟩

end

/-- **Nesting indents.**  Indenting a text keeps its pieces up to the ends of its lines, and exactly
if no carriage return stands in front of a newline, nor a newline at the end, it indents each of
them by itself.  Every node that the text of a graph gets to is contained in the chain of a root.
There it has the same texts as at the top level, unless it leads back to a node around it; and each
of these texts whose line endings are kept stands in the text of the graph with its pieces indented
once for each of the braces. -/
theorem nesting_indents {indent : String} (unbroken : '\n' ∉ indent.toList) :
    (∀ body : String,
      Lines.pieces (Render.indentLines body indent).toList =
          (Lines.kept (Lines.pieces body.toList)).map (Lines.indentLine indent.toList) ∧
        (Lines.pieces (Render.indentLines body indent).toList =
            (Lines.pieces body.toList).map (Lines.indentLine indent.toList) ↔
          Lines.IsPlain body.toList)) ∧
      ∀ (g : Graph) (options : RenderOptions), options.indent = indent →
        (∀ id ∈ g.entered options, ∃ root ∈ g.roots, ∃ depth path,
          g.Contains options.limits [] root.id depth path id) ∧
        ∀ root ∈ g.roots, ∀ depth path id,
          g.Contains options.limits [] root.id depth path id →
            ((∀ p ∈ path, ¬ ReflTransGen (g.GoesOn options.limits) id p) →
              g.texts options path id = g.texts options [] id) ∧
            ∀ text ∈ g.texts options path id,
              Lines.IsPlain text.toList → text.toList.getLast? ≠ some '\r' →
                Lines.nested indent.toList depth (Lines.pieces text.toList) <:+:
                  Lines.pieces (g.generate options).toList := by
  have indented (body : String) : (Render.indentLines body indent).toList =
      Lines.indent indent.toList body.toList :=
    String.toList_ofList
  refine ⟨fun body => ?_, ?_⟩
  · rw [indented]
    exact ⟨Lines.pieces_indent unbroken _, Lines.pieces_indent_eq_iff unbroken⟩
  rintro g options rfl
  refine ⟨fun id mem => ?_, fun root start depth path id contains => ⟨fun apart => ?_, ?_⟩⟩
  · rw [entered_eq, List.mem_flatMap] at mem
    obtain ⟨root, start, mem⟩ := mem
    exact ⟨root, start, exists_contains_of_mem_entries mem⟩
  · have same : g.texts options ([] ++ path) id = g.texts options [] id := texts_append apart
    exact same
  · intro text mem plain no_return
    have ne : text.toList ≠ [] := fun empty =>
      ne_empty_of_mem_texts mem (String.toList_eq_nil_iff.1 empty)
    refine contains.nested_infix unbroken start (Lines.steady_pieces plain ne no_return) ?_
    rw [Lines.block_pieces]
    exact Lines.block_infix_of_mem (List.mem_map_of_mem mem)

/-! ### A step in blocks -/

/-- A loop around a statement whose block holds a branch, around a step that writes code as it
stands. -/
def stepInBlocks : Graph :=
  ofEdits [
    .create {} { name := "loop", args := [.branch { name := some "body" }] } {} "loop",
    .create { next := 2 }
      { name := "scope", args := [.block {} [.branch { name := some "body" }]] } {} "scope",
    .create { next := 3 }
      { name := "run", args := [.primitive { name := some "code" } .rawCode none] } {} "run",
    .setValue ⟨"node-3", (Key.root.ordinal 0).named "code"⟩ (.text "a\n\nb"),
    .connect ⟨"node-1", (Key.root.ordinal 0).named "body"⟩ ⟨"node-2", .flow⟩,
    .connect ⟨"node-2", ((Key.root.ordinal 0).ordinal 0).named "body"⟩ ⟨"node-3", .flow⟩]

/-- The step stands in three braces: the body of the loop, the block, and the branch in it. -/
theorem contains_stepInBlocks :
    stepInBlocks.Contains {} [] "node-1" 3 ["node-2", "node-1"] "node-3" := by
  have branch (id : String) (key : Key) (depth : Nat)
      (written : (stepInBlocks.node? id).any (fun node => node.visible &&
        (node.command.walk (stepInBlocks.view {} id) false).branchDepths.contains
          (key, depth)) = true) :
      ∃ node, stepInBlocks.node? id = some node ∧ node.visible = true ∧
        (key, depth) ∈ (node.command.walk (stepInBlocks.view {} id) false).branchDepths := by
    obtain ⟨node, found, h⟩ := (Option.any_eq_true _ _).1 written
    obtain ⟨visible, h⟩ := Bool.and_eq_true_iff.1 h
    exact ⟨node, found, visible, List.contains_iff_mem.1 h⟩
  obtain ⟨loop, found_loop, visible_loop, body⟩ :=
    branch "node-1" ((Key.root.ordinal 0).named "body") 1 (by decide +kernel)
  obtain ⟨scope, found_scope, visible_scope, inner⟩ :=
    branch "node-2" (((Key.root.ordinal 0).ordinal 0).named "body") 2 (by decide +kernel)
  have into_loop : stepInBlocks.follow? ⟨"node-1", (Key.root.ordinal 0).named "body"⟩ =
      some "node-2" := by decide +kernel
  have into_scope : stepInBlocks.follow?
      ⟨"node-2", ((Key.root.ordinal 0).ordinal 0).named "body"⟩ = some "node-3" := by
    decide +kernel
  have in_scope : stepInBlocks.Contains {} ["node-1"] "node-2" (2 + 0) ["node-2", "node-1"]
      "node-3" :=
    .inside (by decide) found_scope visible_scope inner into_scope (.self _ _)
  exact Contains.inside List.not_mem_nil found_loop visible_loop body into_loop in_scope

/-- Both lines of the step are indented three times, and the empty one between them is not. -/
theorem nesting_indents_stepInBlocks :
    '\n' ∉ "  ".toList ∧
      Lines.pieces (Render.indentLines "a\n\nb" "  ").toList =
        ["  a".toList, [], "  b".toList] ∧
      stepInBlocks.texts { indent := "  " } ["node-2", "node-1"] "node-3" = ["run a\n\nb"] ∧
      ["      run a".toList, [], "      b".toList] <:+:
        Lines.pieces (stepInBlocks.generate { indent := "  " }).toList := by
  have unbroken : '\n' ∉ "  ".toList := by decide
  obtain ⟨indented, placed⟩ := nesting_indents unbroken
  have roots : stepInBlocks.roots.map (·.id) = ["node-1"] := by decide +kernel
  obtain ⟨root, start, root_id⟩ := List.mem_map.1 (roots ▸ List.mem_singleton_self "node-1")
  have placed := (placed stepInBlocks { indent := "  " } rfl).2 root start 3
    ["node-2", "node-1"] "node-3"
  rw [root_id] at placed
  have texts : stepInBlocks.texts { indent := "  " } ["node-2", "node-1"] "node-3" =
      ["run a\n\nb"] := by decide +kernel
  have nested : Lines.nested "  ".toList 3 (Lines.pieces "run a\n\nb".toList) =
      ["      run a".toList, [], "      b".toList] := by decide
  refine ⟨unbroken, ?_, texts, ?_⟩
  · rw [(indented "a\n\nb").2.2 (by decide)]
    decide
  · rw [← nested]
    refine (placed contains_stepInBlocks).2 _ ?_ (by decide +kernel) (by decide +kernel)
    rw [texts]
    exact List.mem_singleton_self _

/-- A loop and beside it a step that writes code as it stands. -/
def stepBesideLoop (code : String) : Graph :=
  ofEdits [
    .create {} { name := "loop", args := [.branch { name := some "body" }] } {} "loop",
    .create { next := 2 }
      { name := "run", args := [.primitive { name := some "code" } .rawCode none] } {} "run",
    .setValue ⟨"node-2", (Key.root.ordinal 0).named "code"⟩ (.text code)]

/-- The same step inside of the loop. -/
def stepInLoop (code : String) : Graph :=
  (Edit.connect ⟨"node-1", (Key.root.ordinal 0).named "body"⟩ ⟨"node-2", .flow⟩).apply
    (stepBesideLoop code)

/-- Code loses the carriage return in front of a newline and the newline at its end as soon as it
stands in a block. -/
theorem generate_stepInLoop :
    Lines.pieces (Render.indentLines "a\r\nb\n" "    ").toList ≠
        (Lines.pieces "a\r\nb\n".toList).map (Lines.indentLine "    ".toList) ∧
      (stepBesideLoop "a\r\nb\n").generate {} = "loop \x7b\x7d\n\nrun a\r\nb\n" ∧
      (stepInLoop "a\r\nb\n").generate {} = "loop \x7b\n    run a\n    b\n\x7d" := by
  refine ⟨by decide, ?_, ?_⟩
  · decide +kernel
  · decide +kernel

end Graph

end CommandGraph
