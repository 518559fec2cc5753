/-
CommandGraph/Grammar/Basic.lean

Argument grammars: what may stand behind a command, as a tree.

Leaves are primitives, which hold a value, and keywords and assignments, which are
fixed text.  Inner nodes choose between options, nest arguments in blocks, subcommands
and groups, or repeat one node in an array.  Any node may be optional or repeatable.

`Grammar.identifier` names a node within the key of its parent.  It is empty for groups,
blocks and arrays without a name, which are then told apart by position alone.
-/

namespace CommandGraph

/-- The kinds of values a primitive holds. -/
inductive Primitive where
  | string
  | numeric
  | numericRange
  | variableRef
  | switch
  | condition
  | expression
  | value
  | rawCode
  | embeddedCode
  deriving DecidableEq

namespace Primitive

/-- All kinds of values. -/
def all : List Primitive :=
  [string, numeric, numericRange, variableRef, switch, condition, expression, value, rawCode,
    embeddedCode]

/-- The name of a kind in files and in keys. -/
def tag : Primitive → String
  | string => "string"
  | numeric => "numeric"
  | numericRange => "numericRange"
  | variableRef => "variable"
  | switch => "switch"
  | condition => "condition"
  | expression => "expression"
  | value => "value"
  | rawCode => "rawCode"
  | embeddedCode => "embeddedCode"

/-- The name of a kind for people. -/
def title : Primitive → String
  | string => "String"
  | numeric => "Numeric"
  | numericRange => "Numeric Range"
  | variableRef => "Variable"
  | switch => "Switch"
  | condition => "Condition"
  | expression => "Expression"
  | value => "Value"
  | rawCode => "Code"
  | embeddedCode => "Script"

/-- The kind with the given name. -/
def ofTag? (tag : String) : Option Primitive :=
  all.find? (·.tag == tag)

@[simp] theorem ofTag?_tag (p : Primitive) : ofTag? p.tag = some p := by
  cases p <;> rfl

end Primitive

/-- What every grammar node may carry. -/
structure Attributes where
  name : Option String := none
  label : Option String := none
  optional : Bool := false
  repeatable : Bool := false
  /-- The text between repeated items. -/
  joiner : Option String := none
  deriving DecidableEq

/-- A node of an argument grammar. -/
inductive Grammar where
  /-- A value, written behind an optional leading text. -/
  | primitive (attrs : Attributes) (subtype : Primitive) (lead : Option String)
  | keyword (attrs : Attributes) (literal : String)
  | assignment (attrs : Attributes) (literal : String)
  | choice (attrs : Attributes) (options : List Grammar)
  /-- A block with its content. -/
  | block (attrs : Attributes) (content : List Grammar)
  /-- A block that is filled by the statements connected to it. -/
  | branch (attrs : Attributes)
  | subcommand (attrs : Attributes) (param : Option Grammar) (args : List Grammar)
  | group (attrs : Attributes) (children : List Grammar)
  /-- A list of items; without an item node its value is written as it is. -/
  | array (attrs : Attributes) (content : Option Grammar) (delimiters : Option (String × String))
      (separator : Option String)
  | base (attrs : Attributes) (param : Option Grammar)

/-- The literal of a keyword that is never written. -/
def hiddenKeyword : String :=
  "__hidden__"

/-- The selection of an optional choice that selects nothing. -/
def noOption : String :=
  "__none__"

namespace Grammar

/-! ### Attributes -/

/-- What the node carries. -/
def attrs : Grammar → Attributes
  | primitive a _ _ | keyword a _ | assignment a _ | choice a _ | block a _ | branch a
  | subcommand a _ _ | group a _ | array a _ _ _ | base a _ => a

/-- The node with its attributes changed. -/
def mapAttrs (f : Attributes → Attributes) : Grammar → Grammar
  | primitive a subtype lead => primitive (f a) subtype lead
  | keyword a literal => keyword (f a) literal
  | assignment a literal => assignment (f a) literal
  | choice a options => choice (f a) options
  | block a content => block (f a) content
  | branch a => branch (f a)
  | subcommand a param args => subcommand (f a) param args
  | group a children => group (f a) children
  | array a content delimiters separator => array (f a) content delimiters separator
  | base a param => base (f a) param

@[simp] theorem attrs_mapAttrs (f : Attributes → Attributes) (g : Grammar) :
    (g.mapAttrs f).attrs = f g.attrs := by
  cases g <;> rfl

def name (g : Grammar) : Option String :=
  g.attrs.name

def isOptional (g : Grammar) : Bool :=
  g.attrs.optional

def isRepeatable (g : Grammar) : Bool :=
  g.attrs.repeatable

def withName (g : Grammar) (name : String) : Grammar :=
  g.mapAttrs ({ · with name })

def withLabel (g : Grammar) (label : String) : Grammar :=
  g.mapAttrs ({ · with label })

def asOptional (g : Grammar) : Grammar :=
  g.mapAttrs ({ · with optional := true })

def asRepeatable (g : Grammar) : Grammar :=
  g.mapAttrs ({ · with repeatable := true })

/-! ### Kinds -/

/-- The name of the node's kind; a primitive goes by the kind of its value. -/
def tag : Grammar → String
  | primitive _ subtype _ => subtype.tag
  | keyword .. => "keyword"
  | assignment .. => "assignment"
  | choice .. => "choice"
  | block .. | branch .. => "block"
  | subcommand .. => "subcommand"
  | group .. => "group"
  | array .. => "array"
  | base .. => "base"

/-- The kind of value of a primitive. -/
def subtype? : Grammar → Option Primitive
  | primitive _ subtype _ => some subtype
  | _ => none

def isKeyword : Grammar → Bool
  | keyword .. => true
  | _ => false

def isChoice : Grammar → Bool
  | choice .. => true
  | _ => false

def isBlock : Grammar → Bool
  | block .. | branch .. => true
  | _ => false

/-- Whether the node may go without an identifier. -/
def isAnonymous : Grammar → Bool
  | group .. | block .. | branch .. | array .. => true
  | _ => false

mutual

/-- Whether there is a block at the node or below it. -/
def containsBlock : Grammar → Bool
  | primitive .. | keyword .. | assignment .. => false
  | block .. | branch .. => true
  | choice _ options => anyContainsBlock options
  | subcommand _ param args => someContainsBlock param || anyContainsBlock args
  | group _ children => anyContainsBlock children
  | array _ content _ _ => someContainsBlock content
  | base _ param => someContainsBlock param

def anyContainsBlock : List Grammar → Bool
  | [] => false
  | g :: gs => g.containsBlock || anyContainsBlock gs

def someContainsBlock : Option Grammar → Bool
  | none => false
  | some g => g.containsBlock

end

/-! ### Names -/

/-- The literal of a keyword, unless it is empty. -/
def keywordLiteral? : Grammar → Option String
  | keyword _ literal => if literal.isEmpty then none else some literal
  | _ => none

/-- The literal or kind that names a node without a name of its own. -/
def kindIdentifier : Grammar → String
  | keyword _ literal | assignment _ literal => literal
  | group .. | block .. | branch .. | array .. => ""
  | g => g.tag

/-- The name of a node, if it has one that is not empty; otherwise what its kind gives. -/
def ownIdentifier (g : Grammar) : String :=
  (g.name.filter (!·.isEmpty)).getD g.kindIdentifier

/-- The name of a node within the key of its parent.  A group goes by its first keyword. -/
def identifier : Grammar → String
  | group attrs children =>
    (children.findSome? keywordLiteral?).getD (group attrs children).ownIdentifier
  | g => g.ownIdentifier

/-- Whether the node can be reached by a key. -/
def isAddressable (g : Grammar) : Bool :=
  !g.identifier.isEmpty || g.isAnonymous

/-- The label of a node for people. -/
def displayLabel (g : Grammar) : String :=
  (g.attrs.label.or g.name).getD <| match g with
    | primitive _ subtype _ => subtype.title
    | array .. => "Array"
    | g => g.tag

/-- The option of a choice with the given identifier. -/
def option? (options : List Grammar) (identifier : String) : Option Grammar :=
  options.find? (·.identifier == identifier)

end Grammar

end CommandGraph
