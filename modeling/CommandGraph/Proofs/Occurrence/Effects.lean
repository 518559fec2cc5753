/-
CommandGraph/Proofs/Occurrence/Effects.lean

Walks whose lookups have effects.

A lookup may count, log, or look up other values in turn.  `Command.walkM` is the walk of a
command in any monad, one lookup after the other.  It reads the keys of `Arguments.reads`, in
this order, and builds the argument tree that `Command.walk` builds:

    Law R  →  R (c.walkM lookup full) (c.walk source full) (c.walk source full).reads

for every relation `R` between actions, their values and the keys that they read which holds of
single lookups and is kept by sequences of actions (`Command.walkM_reads`).
-/
import CommandGraph.Occurrence.Walk

namespace CommandGraph

/-- The source that gives one answer everywhere. -/
def Source.always (reading : Reading) : Source :=
  fun _ => reading

namespace Occurrence

/-! ### Keys that are read -/

mutual

/-- The keys that the walk to an occurrence reads: first what decides about the occurrence, then
what its content reads. -/
def reads : Occurrence → List Key
  | scalar _ key _ _ => [key]
  | literal .. | branch .. => []
  | optional node key _ content => node.flagKey key :: readsOfOption content
  | repeated _ key _ items => key.count :: readsOfList items
  | choice _ key _ content => key :: readsOfOption content
  | block _ _ children | group _ _ children => readsOfList children
  | subcommand _ _ param args => readsOfOption param ++ readsOfList args
  | array _ key items => key.count :: readsOfList items
  | base _ _ param => readsOfOption param

def readsOfOption : Option Occurrence → List Key
  | none => []
  | some o => o.reads

def readsOfList : List Occurrence → List Key
  | [] => []
  | o :: os => o.reads ++ readsOfList os

end

theorem readsOfList_append (os ps : List Occurrence) :
    readsOfList (os ++ ps) = readsOfList os ++ readsOfList ps := by
  induction os with
  | nil => rfl
  | cons o os ih => rw [List.cons_append, readsOfList, readsOfList, ih, List.append_assoc]

/-- What siblings read, as a list of lists, in the form in which `mapM` gives it. -/
theorem readsOfList_eq_flatMap (os : List Occurrence) : readsOfList os = os.flatMap reads := by
  induction os with
  | nil => rfl
  | cons o os ih => rw [readsOfList, ih, List.flatMap_cons]

theorem readsOfList_reduceOption (os : List (Option Occurrence)) :
    readsOfList os.reduceOption = os.flatMap readsOfOption := by
  induction os with
  | nil => rfl
  | cons o os ih =>
    cases o with
    | none => exact ih
    | some o => exact congrArg (o.reads ++ ·) ih

theorem readsOfList_toList (o : Option Occurrence) : readsOfList o.toList = readsOfOption o := by
  cases o with
  | none => rfl
  | some o => exact List.append_nil _

end Occurrence

/-- The keys that a walk of a whole command reads. -/
def Arguments.reads (arguments : Arguments) : List Key :=
  Occurrence.readsOfOption arguments.param ++ Occurrence.readsOfList arguments.args

/-! ### The walk -/

section

variable {m : Type → Type} [Monad m]

namespace Grammar

variable (lookup : Key → m Reading) (full : Bool)

/-- The node at its key, repeated if it is repeatable. -/
def repeatedAtM (g : Grammar) (body : Key → m Occurrence) (key : Key) : m Occurrence :=
  if g.isRepeatable then do
    let count := (Source.always (← lookup key.count)).count key.count
    let items ← (List.range count).mapM fun i => body ((key.ordinal i).join g.identifier)
    return .repeated g key count items
  else body key

/-- The content of an optional node, if it is walked. -/
def contentM (walked : Bool) (g : Grammar) (body : Key → m Occurrence) (key : Key) :
    m (Option Occurrence) :=
  if walked then do return some (← repeatedAtM lookup g body key) else return none

/-- The node below a key, if it can be reached. -/
def enterM (g : Grammar) (body : Key → m Occurrence) (above : Key) : m (Option Occurrence) :=
  let key := above.join g.identifier
  if !g.isAddressable then return none
  else if g.isOptional && !g.isChoice then do
    let enabled := (Source.always (← lookup (g.flagKey key))).flag (g.flagKey key)
    let content ← contentM lookup (enabled || full) g body key
    return some (.optional g key enabled content)
  else contentM lookup true g body key

/-- A choice, with the selected option and what is there of it. -/
def selecting (g : Grammar) (key : Key) : Option (Grammar × Option Occurrence) → Occurrence
  | none => .choice g key none none
  | some (selected, content) => .choice g key (some selected) content

mutual

/-- The node at its key, neither left out nor repeated. -/
def walkBodyM : Grammar → Key → m Occurrence
  | primitive attrs subtype lead, key => do
    return .scalar (primitive attrs subtype lead) key subtype (← lookup key)
  | keyword attrs literal, key => return .literal (keyword attrs literal) key literal
  | assignment attrs literal, key => return .literal (assignment attrs literal) key literal
  | choice attrs options, key => do
    let reading ← lookup key
    match ((Source.always reading).text? key).filter (· != noOption) with
    | none => return selecting (choice attrs options) key none
    | some selection =>
      return selecting (choice attrs options) key (← walkOptionM selection options key)
  | block attrs content, key => do
    return .block (block attrs content) key (← walkChildrenM 0 content key)
  | branch attrs, key => return .branch (branch attrs) key
  | subcommand attrs param args, key => do
    let bracket ← walkParamM param key
    return .subcommand (subcommand attrs param args) key bracket (← walkChildrenM 0 args key)
  | group attrs children, key => do
    return .group (group attrs children) key (← walkChildrenM 0 children key)
  | array attrs none delimiters separator, key => do
    return .scalar (array attrs none delimiters separator) key .value (← lookup key)
  | array attrs (some content) delimiters separator, key => do
    let count := (Source.always (← lookup key.count)).count key.count
    let items ← (List.range count).mapM fun i =>
      enterM lookup full content (walkBodyM content) (key.ordinal i)
    return .array (array attrs (some content) delimiters separator) key items.reduceOption
  | base attrs param, key => do return .base (base attrs param) key (← walkParamM param key)

/-- The first option with the selected identifier, and what is there of it. -/
def walkOptionM (selection : String) :
    List Grammar → Key → m (Option (Grammar × Option Occurrence))
  | [], _ => return none
  | g :: gs, key =>
    if g.identifier == selection then do
      return some (g, ← enterM lookup full g (walkBodyM g) key)
    else walkOptionM selection gs key

/-- Siblings, each below its position. -/
def walkChildrenM (position : Nat) : List Grammar → Key → m (List Occurrence)
  | [], _ => return []
  | g :: gs, key => do
    let o ← enterM lookup full g (walkBodyM g) (key.ordinal position)
    return o.toList ++ (← walkChildrenM (position + 1) gs key)

/-- The parameter in brackets. -/
def walkParamM : Option Grammar → Key → m (Option Occurrence)
  | none, _ => return none
  | some g, key => enterM lookup full g (walkBodyM g) key.arrayParam

end

end Grammar

/-- The argument tree of a command. -/
def Command.walkM (c : Command) (lookup : Key → m Reading) (full : Bool) : m Arguments := do
  let param ← Grammar.walkParamM lookup full c.param .root
  return { param, args := ← Grammar.walkChildrenM lookup full 0 c.args .root }

/-! ### What holds step by step -/

/-- A relation between actions, the values that they give and the keys that they read, which holds
of sequences as soon as it holds of their steps. -/
structure Law (R : (α : Type) → m α → α → List Key → Prop) : Prop where
  pure {α : Type} (a : α) : R _ (Pure.pure a) a []
  bind {α β : Type} {x : m α} {f : α → m β} {a : α} {b : β} {keys more : List Key} :
    R _ x a keys → R _ (f a) b more → R _ (x >>= f) b (keys ++ more)

namespace Law

variable {R : (α : Type) → m α → α → List Key → Prop}

/-- An action that reads one key goes in front. -/
theorem bind_cons (law : Law R) {α β : Type} {x : m α} {f : α → m β} {a : α} {b : β} {key : Key}
    {more : List Key} (hx : R _ x a [key]) (hf : R _ (f a) b more) :
    R _ (x >>= f) b (key :: more) :=
  law.bind hx hf

theorem map (law : Law R) {α β : Type} {x : m α} {a : α} {keys : List Key} (h : R _ x a keys)
    (f : α → β) : R _ (x >>= fun a => Pure.pure (f a)) (f a) keys := by
  rw [← List.append_nil keys]
  refine law.bind h ?_
  exact law.pure (f a)

theorem mapM [LawfulMonad m] (law : Law R) {α β : Type} {x : α → m β} {f : α → β}
    {keys : α → List Key} (h : ∀ a, R _ (x a) (f a) (keys a)) (as : List α) :
    R _ (as.mapM x) (as.map f) (as.flatMap keys) := by
  induction as with
  | nil => exact law.pure []
  | cons a as ih =>
    rw [List.mapM_cons, List.map_cons, List.flatMap_cons]
    exact law.bind (h a) (law.map ih (f a :: ·))

end Law

namespace Grammar

open Occurrence

variable [LawfulMonad m] {R : (α : Type) → m α → α → List Key → Prop} {lookup : Key → m Reading}
  {source : Source} {full : Bool}

/-! ### The steps of the walk

The walk in a monad takes the steps of `walk`, so that each part of it has a lemma about both.  A
law is stated for all relations, and the lookups are given by what they are asked to satisfy. -/

/-- The pure walk takes a selection apart in two nested cases.  In one expression, they have the
shape that they have in a monad. -/
theorem walkBody_choice (attrs : Attributes) (options : List Grammar) (key : Key) :
    walkBody source full (choice attrs options) key =
      selecting (choice attrs options) key
        (((source.text? key).filter (· != noOption)).bind fun selection =>
          walkOption source full selection options key) := by
  rw [walkBody]
  cases (source.text? key).filter (· != noOption) with
  | none => rfl
  | some selection =>
    simp only [Option.bind_some]
    cases walkOption source full selection options key <;> rfl

/-- A choice reads its selection, whether or not there is such an option. -/
theorem reads_selecting (g : Grammar) (key : Key) (chosen : Option (Grammar × Option Occurrence)) :
    (selecting g key chosen).reads = key :: readsOfOption (chosen.bind Prod.snd) := by
  cases chosen <;> rfl

/-- Repeated arguments read their number first, and then each item. -/
theorem law_repeatedAt (law : Law R) (looks : ∀ key, R _ (lookup key) (source key) [key])
    (g : Grammar) (key : Key) {bodyM : Key → m Occurrence} {body : Key → Occurrence}
    (h : ∀ k, R _ (bodyM k) (body k) (body k).reads) :
    R _ (repeatedAtM lookup g bodyM key) (repeatedAt source g body key)
      (repeatedAt source g body key).reads := by
  rw [repeatedAtM, repeatedAt]
  split
  · refine law.bind_cons (looks key.count) ?_
    rw [readsOfList_eq_flatMap, List.flatMap_map]
    exact law.map (law.mapM (fun i => h _) _) _
  · exact h key

/-- An argument that is optional reads its flag first; one that cannot be reached reads nothing. -/
theorem law_enter (law : Law R) (looks : ∀ key, R _ (lookup key) (source key) [key])
    (g : Grammar) (above : Key) {bodyM : Key → m Occurrence} {body : Key → Occurrence}
    (h : ∀ k, R _ (bodyM k) (body k) (body k).reads) :
    R _ (enterM lookup full g bodyM above) (enter source full g body above)
      (readsOfOption (enter source full g body above)) := by
  -- what is behind the flag, for both answers of the lookup
  have content (walked : Bool) (key : Key) :
      R _ (contentM lookup walked g bodyM key)
        (if walked then some (repeatedAt source g body key) else none)
        (readsOfOption (if walked then some (repeatedAt source g body key) else none)) := by
    rw [contentM]
    split
    · exact law.map (law_repeatedAt law looks g key h) some
    · exact law.pure none
  rw [enterM, enter]
  -- no lookup where the node has no key of its own
  split
  · exact law.pure none
  split
  · exact law.bind_cons (looks _) (law.map (content _ _) _)
  · exact content true _

mutual

/-- The walk of a node, one case for each constructor.  A node without children reads its own key at
most; all others hand their children on to the walks of lists, options and parameters below. -/
theorem law_walkBody (law : Law R) (looks : ∀ key, R _ (lookup key) (source key) [key]) :
    ∀ (g : Grammar) (key : Key), R _ (walkBodyM lookup full g key) (walkBody source full g key)
      (walkBody source full g key).reads
  | primitive attrs subtype lead, key => by
    rw [walkBodyM, walkBody]
    exact law.map (looks key) _
  | keyword .., key | assignment .., key | branch .., key => by
    rw [walkBodyM, walkBody]
    exact law.pure _
  | choice attrs options, key => by
    rw [walkBodyM, walkBody_choice, reads_selecting]
    refine law.bind_cons (looks key) ?_
    -- what has been looked up is asked for its text, as in the pure walk
    have selected : (Source.always (source key)).text? key = source.text? key := rfl
    rw [selected]
    cases (source.text? key).filter (· != noOption) with
    | none => exact law.pure _
    | some selection => exact law.map (law_walkOption law looks selection options key) _
  | block attrs content, key => by
    rw [walkBodyM, walkBody]
    exact law.map (law_walkChildren law looks 0 content key) _
  | group attrs content, key => by
    rw [walkBodyM, walkBody]
    exact law.map (law_walkChildren law looks 0 content key) _
  | subcommand attrs param args, key => by
    rw [walkBodyM, walkBody]
    -- the parameter in brackets comes before the arguments
    exact law.bind (law_walkParam law looks param key)
      (law.map (law_walkChildren law looks 0 args key) _)
  | array attrs none delimiters separator, key => by
    rw [walkBodyM, walkBody]
    exact law.map (looks key) _
  | array attrs (some content) delimiters separator, key => by
    rw [walkBodyM, walkBody]
    refine law.bind_cons (looks key.count) ?_
    -- items that cannot be reached are dropped from the tree; they have read nothing
    have found (item : Nat → Option Occurrence) (is : List Nat) :
        is.filterMap item = (is.map item).reduceOption :=
      (List.filterMap_map (f := item) (g := id)).symm
    rw [found, readsOfList_reduceOption, List.flatMap_map]
    exact law.map
      (law.mapM (fun i => law_enter law looks content _ (law_walkBody law looks content)) _) _
  | base attrs param, key => by
    rw [walkBodyM, walkBody]
    exact law.map (law_walkParam law looks param key) _

/-- Options are compared by their identifier, which takes no lookup; the first one that fits is
entered. -/
theorem law_walkOption (law : Law R) (looks : ∀ key, R _ (lookup key) (source key) [key])
    (selection : String) : ∀ (gs : List Grammar) (key : Key),
      R _ (walkOptionM lookup full selection gs key) (walkOption source full selection gs key)
        (readsOfOption ((walkOption source full selection gs key).bind Prod.snd))
  | [], key => by
    rw [walkOptionM, walkOption]
    exact law.pure _
  | g :: gs, key => by
    rw [walkOptionM, walkOption]
    split
    · exact law.map (law_enter law looks g key (law_walkBody law looks g)) _
    · exact law_walkOption law looks selection gs key

theorem law_walkChildren (law : Law R) (looks : ∀ key, R _ (lookup key) (source key) [key])
    (position : Nat) : ∀ (gs : List Grammar) (key : Key),
      R _ (walkChildrenM lookup full position gs key) (walkChildren source full position gs key)
        (readsOfList (walkChildren source full position gs key))
  | [], key => by
    rw [walkChildrenM, walkChildren]
    exact law.pure _
  | g :: gs, key => by
    rw [walkChildrenM, walkChildren, readsOfList_append, readsOfList_toList]
    exact law.bind (law_enter law looks g _ (law_walkBody law looks g))
      (law.map (law_walkChildren law looks (position + 1) gs key) _)

theorem law_walkParam (law : Law R) (looks : ∀ key, R _ (lookup key) (source key) [key]) :
    ∀ (param : Option Grammar) (key : Key),
      R _ (walkParamM lookup full param key) (walkParam source full param key)
        (readsOfOption (walkParam source full param key))
  | none, key => by
    rw [walkParamM, walkParam]
    exact law.pure _
  | some g, key => by
    rw [walkParamM, walkParam]
    exact law_enter law looks g _ (law_walkBody law looks g)

end

end Grammar

/-- **Walks with effects.**  The walk in a monad reads the keys of the argument tree, one after
the other, and gives this tree. -/
theorem Command.walkM_reads [LawfulMonad m] {R : (α : Type) → m α → α → List Key → Prop}
    (law : Law R) {lookup : Key → m Reading} {source : Source}
    (looks : ∀ key, R _ (lookup key) (source key) [key]) (c : Command) (full : Bool) :
    R _ (c.walkM lookup full) (c.walk source full) (c.walk source full).reads :=
  law.bind (Grammar.law_walkParam law looks c.param .root)
    (law.map (Grammar.law_walkChildren law looks 0 c.args .root) _)

end

end CommandGraph
