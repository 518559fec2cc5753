/-
CommandGraph/Proofs/Grammar/Address.lean

The grammar node that a path leads to.

Walks build keys from positions, identifiers and repeat indices on their way down.
`Grammar.at?` reads such a path back: it looks at the grammar alone, at no values, and
gives the last node on the path.  Since it is a function, a key leads to one node
whatever the values are.

Only a choice shares its path with another node, namely with an option without an
identifier, and `at?` prefers the option.  Where all options have identifiers
(`hasNamedOptions`), every node is found at its own path (`bodyAt?_nil`).
-/
import CommandGraph.Proofs.Grammar.Children

namespace CommandGraph

namespace Grammar

/-! ### Options with identifiers -/

mutual

/-- Whether every option of every choice has an identifier. -/
def hasNamedOptions : Grammar → Bool
  | primitive .. | keyword .. | assignment .. | branch .. => true
  | choice _ options => options.all (!·.identifier.isEmpty) && allHaveNamedOptions options
  | block _ content => allHaveNamedOptions content
  | subcommand _ param args => someHasNamedOptions param && allHaveNamedOptions args
  | group _ children => allHaveNamedOptions children
  | array _ content _ _ => someHasNamedOptions content
  | base _ param => someHasNamedOptions param

/-- For several nodes. -/
def allHaveNamedOptions : List Grammar → Bool
  | [] => true
  | g :: gs => g.hasNamedOptions && allHaveNamedOptions gs

/-- For a node that may be missing. -/
def someHasNamedOptions : Option Grammar → Bool
  | none => true
  | some g => g.hasNamedOptions

end

theorem allHaveNamedOptions_iff {gs : List Grammar} :
    allHaveNamedOptions gs = true ↔ ∀ g ∈ gs, g.hasNamedOptions = true := by
  induction gs with
  | nil => simp [allHaveNamedOptions]
  | cons g gs ih => simp [allHaveNamedOptions, ih]

theorem someHasNamedOptions_iff {o : Option Grammar} :
    someHasNamedOptions o = true ↔ ∀ g ∈ o, g.hasNamedOptions = true := by
  cases o <;> simp [someHasNamedOptions]

/-- The condition goes down to children of every kind. -/
theorem hasNamedOptions_of_mem_children {g c : Grammar} (h : g.hasNamedOptions = true)
    (hc : c ∈ g.children) : c.hasNamedOptions = true := by
  cases g with
  | primitive | keyword | assignment | branch => simp [children] at hc
  | choice attrs options =>
    rw [hasNamedOptions, Bool.and_eq_true] at h
    exact allHaveNamedOptions_iff.1 h.2 c hc
  | block attrs gs | group attrs gs => exact allHaveNamedOptions_iff.1 h c hc
  | subcommand attrs param args =>
    rw [hasNamedOptions, Bool.and_eq_true] at h
    rcases List.mem_append.1 hc with hc | hc
    · exact someHasNamedOptions_iff.1 h.1 c (Option.mem_toList.1 hc)
    · exact allHaveNamedOptions_iff.1 h.2 c hc
  | array attrs content delimiters separator =>
    exact someHasNamedOptions_iff.1 h c (Option.mem_toList.1 hc)
  | base attrs param => exact someHasNamedOptions_iff.1 h c (Option.mem_toList.1 hc)

/-- An option with an identifier has one that is not empty. -/
theorem identifier_ne_empty_of_mem_options {attrs : Attributes} {options : List Grammar}
    (h : (choice attrs options).hasNamedOptions = true) {g : Grammar} (hg : g ∈ options) :
    g.identifier ≠ "" := by
  rw [hasNamedOptions, Bool.and_eq_true, List.all_eq_true] at h
  simpa using h.1 g hg

/-! ### Following a path -/

/-- What is left of a path behind an identifier; an empty one takes no step. -/
def afterName (name : String) (path : List Segment) : Option (List Segment) :=
  if name.isEmpty then some path
  else match path with
    | .name text :: rest => if text = name then some rest else none
    | _ => none

/-- The name that a path starts with. -/
def leadingName : List Segment → String
  | .name text :: _ => text
  | _ => ""

/-- The last node on a path from above a node.  `body` follows the path behind the identifier. -/
def enterAt? (g : Grammar) (body : List Segment → Option Grammar) (path : List Segment) :
    Option Grammar :=
  if g.isAddressable then
    (afterName g.identifier path).bind fun rest =>
      if g.isRepeatable then
        match rest with
        | [] => some g
        | .ordinal _ :: rest => (afterName g.identifier rest).bind body
        | _ => none
      else body rest
  else none

mutual

/-- The last node on a path that starts at a node. -/
def bodyAt? : Grammar → List Segment → Option Grammar
  | choice attrs options, path =>
    (optionAt? (leadingName path) options path).or
      (if path.isEmpty then some (choice attrs options) else none)
  | block _ content, .ordinal i :: path => childAt? i content path
  | group _ children, .ordinal i :: path => childAt? i children path
  | subcommand _ _ args, .ordinal i :: path => childAt? i args path
  | subcommand _ param _, .arrayParam :: path => paramAt? param path
  | array _ (some content) _ _, .ordinal _ :: path => enterAt? content (bodyAt? content) path
  | base _ param, .arrayParam :: path => paramAt? param path
  | g, [] => some g
  | _, _ => none

/-- The last node on a path into the first option of a name. -/
def optionAt? (name : String) : List Grammar → List Segment → Option Grammar
  | [], _ => none
  | g :: gs, path =>
    if g.identifier == name then enterAt? g (bodyAt? g) path else optionAt? name gs path

/-- The last node on a path into one of several siblings. -/
def childAt? : Nat → List Grammar → List Segment → Option Grammar
  | _, [], _ => none
  | 0, g :: _, path => enterAt? g (bodyAt? g) path
  | i + 1, _ :: gs, path => childAt? i gs path

/-- The last node on a path into the parameter in brackets. -/
def paramAt? : Option Grammar → List Segment → Option Grammar
  | none, _ => none
  | some g, path => enterAt? g (bodyAt? g) path

end

/-- The last node on a path from above a node. -/
def at? (g : Grammar) (path : List Segment) : Option Grammar :=
  enterAt? g g.bodyAt? path

/-! ### The same by library operations -/

/-- Of the options, the first one with the name is followed. -/
theorem optionAt?_eq (name : String) (gs : List Grammar) (path : List Segment) :
    optionAt? name gs path = (option? gs name).bind (·.at? path) := by
  induction gs with
  | nil => rfl
  | cons g gs ih =>
    rw [optionAt?, option?, List.find?_cons, ih]
    rcases g.identifier == name with - | - <;> rfl

/-- Of siblings, the one at the position is followed. -/
theorem childAt?_eq (i : Nat) (gs : List Grammar) (path : List Segment) :
    childAt? i gs path = gs[i]?.bind (·.at? path) := by
  induction gs generalizing i with
  | nil => rfl
  | cons g gs ih =>
    cases i with
    | zero => rfl
    | succ i => rw [childAt?, ih, List.getElem?_cons_succ]

/-- A node is the last one on the empty path, a choice only if its options have identifiers. -/
theorem bodyAt?_nil {g : Grammar} (h : g.isChoice = false ∨ g.hasNamedOptions = true) :
    g.bodyAt? [] = some g := by
  cases g with
  | choice attrs options =>
    have hg := h.resolve_left (by simp [isChoice])
    -- the empty path names no option, so that it leads to the choice itself
    have none_found : option? options "" = none := by
      refine List.find?_eq_none.2 fun o ho => ?_
      rw [beq_iff_eq]
      exact identifier_ne_empty_of_mem_options hg ho
    rw [bodyAt?, optionAt?_eq]
    show ((option? options "").bind _).or _ = _
    rw [none_found]
    rfl
  | array attrs content => cases content <;> rfl
  | _ => rfl

/-! ### The name at the start of a path -/

@[simp] theorem afterName_empty (path : List Segment) : afterName "" path = some path := rfl

/-- A path that goes on behind a name starts with it. -/
theorem leadingName_of_afterName {name : String} {path rest : List Segment}
    (h : afterName name path = some rest) (hne : name ≠ "") : leadingName path = name := by
  unfold afterName at h
  rw [if_neg (by simpa using hne)] at h
  rcases path with - | ⟨_ | text | _ | _, path⟩
  case cons.name =>
    by_cases e : text = name
    · exact e
    · simp [e] at h
  all_goals simp at h

/-- No name follows the key of a node without an identifier. -/
theorem leadingName_of_bodyAt? {g h : Grammar} (hg : g.isAnonymous = true) {path : List Segment}
    (hp : g.bodyAt? path = some h) : leadingName path = "" := by
  cases g with
  | group | block | branch =>
    rcases path with - | ⟨_ | _ | _ | _, path⟩ <;> simp_all [bodyAt?, leadingName]
  | array attrs content delimiters separator =>
    cases content <;> rcases path with - | ⟨_ | _ | _ | _, path⟩ <;>
      simp_all [bodyAt?, leadingName]
  | _ => simp [isAnonymous] at hg

/-- A path into a node starts with the identifier of the node. -/
theorem leadingName_of_at? {g h : Grammar} {path : List Segment} (hp : g.at? path = some h) :
    leadingName path = g.identifier := by
  rw [at?, enterAt?] at hp
  split at hp
  · next ha =>
    obtain ⟨rest, hr, hb⟩ := Option.bind_eq_some_iff.1 hp
    -- behind the key of a node without an identifier comes its content, and no name may stand there
    by_cases hn : g.identifier = ""
    · have anonymous : g.isAnonymous = true := by simpa [isAddressable, hn] using ha
      rw [hn] at hr hb ⊢
      obtain rfl : path = rest := by simpa using hr
      split at hb
      · split at hb
        · rfl
        · rfl
        · simp at hb
      · exact leadingName_of_bodyAt? anonymous hb
    · exact leadingName_of_afterName hr hn
  · simp at hp

end Grammar

end CommandGraph
