/-
CommandGraph/Grammar/Json.lean

Grammar nodes as JSON objects.

The member `type` says the kind of a node, by name or by its place in `kinds`; the other
members are the attributes and what the kind needs.  A member may occur once; members
that the kind does not know are skipped, but have to be readable.

Decoding goes from the leaves up: every member is first decoded as a node and as a
list of nodes, whatever its name, and the kind then takes the ones it wants.
-/
import CommandGraph.Grammar.Basic
import CommandGraph.Json.Basic

namespace CommandGraph.Grammar

/-! ### Writing -/

/-- A text, or null. -/
def textOrNull (text : Option String) : Json :=
  text.elim .null .string

/-- A member that is left out when it has no value. -/
def textMember (name : String) (text : Option String) : List (String × Json) :=
  text.toList.map fun text => (name, .string text)

/-- The attributes of a node as members. -/
def attributeMembers (attrs : Attributes) : List (String × Json) :=
  textMember "name" attrs.name ++ textMember "label" attrs.label ++
    [("optional", .bool attrs.optional), ("repeatable", .bool attrs.repeatable)] ++
    textMember "joiner" attrs.joiner

/-- A node of the given kind. -/
def nodeObject (attrs : Attributes) (kind : String) (members : List (String × Json)) : Json :=
  .object (attributeMembers attrs ++ ("type", .string kind) :: members)

mutual

/-- A node as JSON. -/
def toJson : Grammar → Json
  | primitive attrs subtype lead =>
    nodeObject attrs "primitive" [("subtype", .string subtype.tag), ("prefix", textOrNull lead)]
  | keyword attrs literal => nodeObject attrs "keyword" [("value", .string literal)]
  | assignment attrs literal => nodeObject attrs "assignment" [("value", .string literal)]
  | choice attrs options => nodeObject attrs "choice" [("options", .array (toJsonList options))]
  | block attrs content => nodeObject attrs "block" [("content", .array (toJsonList content))]
  | branch attrs => nodeObject attrs "block" [("content", .null)]
  | subcommand attrs param args =>
    nodeObject attrs "subcommand"
      [("arrayParam", toJsonOrNull param), ("args", .array (toJsonList args))]
  | group attrs children => nodeObject attrs "group" [("children", .array (toJsonList children))]
  | array attrs content delimiters separator =>
    nodeObject attrs "array"
      [("content", toJsonOrNull content),
        ("delimiters", delimiters.elim .null fun (opening, closing) =>
          .array [.string opening, .string closing]),
        ("separator", textOrNull separator)]
  | base attrs param => nodeObject attrs "base" [("arrayParam", toJsonOrNull param)]

def toJsonList : List Grammar → List Json
  | [] => []
  | g :: gs => g.toJson :: toJsonList gs

/-- A node, or null. -/
def toJsonOrNull : Option Grammar → Json
  | none => .null
  | some g => g.toJson

end

/-! ### Reading -/

/-- What a member holds when it is taken for a node or for a list of nodes. -/
structure Decoded where
  isNull : Bool
  node : Option Grammar
  nodes : Option (List Grammar)

/-- The members of a node, as they are and decoded. -/
structure NodeMembers where
  members : Record
  decoded : List (String × Decoded)

namespace NodeMembers

/-- A list of nodes that has to be present. -/
def nodes? (source : NodeMembers) (name : String) : Option (List Grammar) :=
  (source.decoded.lookup name).bind (·.nodes)

/-- A list of nodes that may be missing; then it is empty. -/
def nodesOrNil? (source : NodeMembers) (name : String) : Option (List Grammar) :=
  match source.decoded.lookup name with
  | some decoded => decoded.nodes
  | none => some []

/-- A value decoded by `select` that may be missing or null. -/
def optional? {α : Type} (source : NodeMembers) (name : String) (select : Decoded → Option α) :
    Option (Option α) :=
  match source.decoded.lookup name with
  | some decoded => if decoded.isNull then some none else (select decoded).map some
  | none => some none

def text? (source : NodeMembers) (name : String) : Option String :=
  source.members.required? name Json.string?

def optionalText? (source : NodeMembers) (name : String) : Option (Option String) :=
  source.members.optional? name Json.string?

end NodeMembers

/-- The kind of value of a primitive; an object that names it may hold an empty object. -/
def subtypeOfJson? : Json → Option Primitive
  | .object [(name, .object [])] => Primitive.ofTag? name
  | value => value.name?.bind Primitive.ofTag?

/-- An array of exactly two texts. -/
def delimitersOfJson? : Json → Option (String × String)
  | .array [.string opening, .string closing] => some (opening, closing)
  | _ => none

/-- The members that every node may have. -/
def attributeNames : List String :=
  ["name", "label", "optional", "repeatable", "joiner"]

/-- The kinds in their order, each with the names of its members. -/
def kinds : List (String × List String) :=
  [("primitive", ["subtype", "prefix"]),
    ("keyword", ["value"]),
    ("assignment", ["value"]),
    ("choice", ["options"]),
    ("block", ["content"]),
    ("subcommand", ["arrayParam", "args"]),
    ("group", ["children"]),
    ("array", ["content", "delimiters", "separator"]),
    ("base", ["arrayParam"])]

/-- The kind that a member `type` stands for. -/
def kindOfJson? : Json → Option (String × List String)
  | .string name => kinds.find? (·.1 == name)
  | .int n => if 0 ≤ n then kinds[n.toNat]? else none
  | _ => none

def attributesOf? (members : Record) : Option Attributes := do
  return {
    name := ← members.optional? "name" Json.string?
    label := ← members.optional? "label" Json.string?
    optional := ← members.withDefault? "optional" false Json.bool?
    repeatable := ← members.withDefault? "repeatable" false Json.bool?
    joiner := ← members.optional? "joiner" Json.string? }

/-- The node of a kind with the given attributes. -/
def ofKind? (attrs : Attributes) (source : NodeMembers) : String → Option Grammar
  | "primitive" => do
    return primitive attrs (← source.members.required? "subtype" subtypeOfJson?)
      (← source.optionalText? "prefix")
  | "keyword" => return keyword attrs (← source.text? "value")
  | "assignment" => return assignment attrs (← source.text? "value")
  | "choice" => return choice attrs (← source.nodes? "options")
  | "block" => do
    match ← source.optional? "content" Decoded.nodes with
    | some content => return block attrs content
    | none => return branch attrs
  | "subcommand" => do
    return subcommand attrs (← source.optional? "arrayParam" Decoded.node)
      (← source.nodesOrNil? "args")
  | "group" => return group attrs (← source.nodes? "children")
  | "array" => do
    return array attrs (← source.optional? "content" Decoded.node)
      (← source.members.optional? "delimiters" delimitersOfJson?)
      (← source.optionalText? "separator")
  | "base" => return base attrs (← source.optional? "arrayParam" Decoded.node)
  | _ => none

/-- The node that an object stands for, its members decoded already. -/
def ofMembers? (source : NodeMembers) : Option Grammar := do
  let members := source.members
  let rest := members.filter fun member => !attributeNames.contains member.1
  let (kind, names) ← (members.lookup "type").bind kindOfJson?
  let single := (attributeNames ++ "type" :: names).all (Json.occurrences members · ≤ 1)
  if single && Json.membersReadable rest then ofKind? (← attributesOf? members) source kind
  else none

mutual

/-- The node that a JSON value stands for. -/
def ofJson? : Json → Option Grammar
  | .object members => ofMembers? ⟨members, decode members⟩
  | _ => none

/-- The nodes that an array stands for. -/
def listOfJson? : Json → Option (List Grammar)
  | .array items => ofItems? items
  | _ => none

def ofItems? : List Json → Option (List Grammar)
  | [] => some []
  | item :: items => do return (← ofJson? item) :: (← ofItems? items)

/-- The members of an object, each taken for a node and for a list of nodes. -/
def decode : List (String × Json) → List (String × Decoded)
  | [] => []
  | (name, value) :: members =>
    (name, {
      isNull := value matches .null
      node := ofJson? value
      nodes := listOfJson? value }) :: decode members

end

end CommandGraph.Grammar
