/-
CommandGraph/Json/Basic.lean

JSON values, and records in JSON.

Integers of 64 bits, signed or unsigned, are kept exact; every other number is a
double.  `unreadable` stands for well-formed text that denotes no value: a number
beyond the largest double, a string with half a surrogate pair, a container nested too
deep.  Such a value does no harm where it is skipped and makes every decoder fail that
looks at it.

A record is an object whose members come in any order, each at most once; members
under other names are skipped.  It may also be an array of the members in their order,
where only trailing ones can be missing.  A choice between names is one of the names,
or an object with that name as its only member.
-/

namespace CommandGraph

/-! ### Values -/

/-- A JSON value. -/
inductive Json where
  | null
  | bool (value : Bool)
  | int (value : Int)
  | float (value : Float)
  | string (value : String)
  | array (items : List Json)
  | object (members : List (String × Json))
  | unreadable

namespace Json

/-! ### Plain decoders -/

def bool? : Json → Option Bool
  | bool b => some b
  | _ => none

def string? : Json → Option String
  | string s => some s
  | _ => none

/-- Any number as a double. -/
def float? : Json → Option Float
  | int n => some (Float.ofInt n)
  | float x => some x
  | _ => none

def array? : Json → Option (List Json)
  | array items => some items
  | _ => none

/-- A value that may be null. -/
def nullable? {α : Type} (decode : Json → Option α) : Json → Option (Option α)
  | null => some none
  | value => (decode value).map some

/-- The items of an array, each decoded. -/
def list? {α : Type} (decode : Json → Option α) (value : Json) : Option (List α) :=
  value.array?.bind (·.mapM decode)

/-! ### Readable values -/

mutual

/-- Whether every part of a value is readable. -/
def isReadable : Json → Bool
  | unreadable => false
  | array items => areReadable items
  | object members => membersReadable members
  | _ => true

def areReadable : List Json → Bool
  | [] => true
  | item :: items => item.isReadable && areReadable items

def membersReadable : List (String × Json) → Bool
  | [] => true
  | (_, value) :: members => value.isReadable && membersReadable members

end

/-! ### Members -/

/-- How often a member name occurs. -/
def occurrences (members : List (String × Json)) (name : String) : Nat :=
  members.countP (·.1 == name)

end Json

/-! ### Records -/

/-- The members of a record that are present. -/
abbrev Record := List (String × Json)

namespace Record

/-- The members of a record with the given names. -/
def ofJson? (names : List String) : Json → Option Record
  | .object members =>
    let known := members.filter fun member => names.contains member.1
    if names.all fun name => Json.occurrences known name ≤ 1 then some known else none
  | .array items => if items.length ≤ names.length then some (names.zip items) else none
  | _ => none

/-- A member that has to be present. -/
def required? {α : Type} (record : Record) (name : String) (decode : Json → Option α) :
    Option α :=
  (record.lookup name).bind decode

/-- A member that may be missing. -/
def withDefault? {α : Type} (record : Record) (name : String) (default : α)
    (decode : Json → Option α) : Option α :=
  match record.lookup name with
  | some value => decode value
  | none => some default

/-- A member that may be missing or null. -/
def optional? {α : Type} (record : Record) (name : String) (decode : Json → Option α) :
    Option (Option α) :=
  record.withDefault? name none (Json.nullable? decode)

end Record

/-- The name that a choice between names selects. -/
def Json.name? : Json → Option String
  | .string name => some name
  | .object [(name, .null)] => some name
  | _ => none

end CommandGraph
