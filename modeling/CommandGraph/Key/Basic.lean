/-
CommandGraph/Key/Basic.lean

Keys: structured addresses of the places in one command where a value is stored.

A key is a path of segments.  Walking a grammar appends a position or a name for
every step down; a trailing marker turns the address of an argument into the address
of a piece of state that belongs to it (`enabled`, `count`, `result`) or of the
execution socket of the whole command (`flow`).

Keys are ordered segment by segment, a shorter key before its extensions, so that
`compare` is a lawful total order (`Key.instTransOrd`, `Key.instLawfulEqOrd`) and maps
over keys list their entries in it.
-/
import Std.Data.ExtTreeMap

namespace CommandGraph

/-- What a derived key stands for. -/
inductive Marker where
  | enabled
  | count
  | result
  | flow
  deriving DecidableEq

/-- One step of a key. -/
inductive Segment where
  /-- A position among siblings, or the index of a repeated item. -/
  | ordinal (index : Nat)
  /-- The identifier of a grammar node. -/
  | name (text : String)
  /-- The parameter in brackets of a command, a subcommand or a base. -/
  | arrayParam
  | marker (marker : Marker)
  deriving DecidableEq

/-- The address of a value inside one command. -/
structure Key where
  segments : List Segment := []
  deriving DecidableEq

/-! ### Order -/

/-- Markers in their order. -/
def Marker.rank : Marker → Nat
  | enabled => 0
  | count => 1
  | result => 2
  | flow => 3

/-- The kind of a segment, in the order of kinds. -/
def Segment.rank : Segment → Nat
  | ordinal _ => 0
  | name _ => 1
  | arrayParam => 2
  | marker _ => 3

/-- The number that decides between two segments of one kind. -/
def Segment.number : Segment → Nat
  | ordinal index => index
  | marker m => m.rank
  | _ => 0

/-- The text that decides between two segments of one kind. -/
def Segment.text : Segment → String
  | name text => text
  | _ => ""

namespace Segment

theorem ext_rank {a b : Segment} (hr : a.rank = b.rank) (hn : a.number = b.number)
    (ht : a.text = b.text) : a = b := by
  cases a <;> cases b <;> simp_all [rank, number, text]
  next m n => cases m <;> cases n <;> simp_all [Marker.rank]

instance : Ord Segment where
  compare := compareLex (compareOn rank) (compareLex (compareOn number) (compareOn text))

instance : Std.TransOrd Segment :=
  inferInstanceAs
    (Std.TransCmp (compareLex (compareOn rank) (compareLex (compareOn number) (compareOn text))))

instance : Std.LawfulEqOrd Segment where
  compare_self := Std.ReflCmp.compare_self
  eq_of_compare {a b} h := by
    have ⟨hr, h⟩ := Ordering.then_eq_eq.1 h
    have ⟨hn, ht⟩ := Ordering.then_eq_eq.1 h
    exact ext_rank (Std.LawfulEqOrd.eq_of_compare hr) (Std.LawfulEqOrd.eq_of_compare hn)
      (Std.LawfulEqOrd.eq_of_compare ht)

end Segment

namespace Key

instance : Ord Key where
  compare := compareOn segments

instance instTransOrd : Std.TransOrd Key :=
  inferInstanceAs (Std.TransCmp (compareOn segments))

instance instLawfulEqOrd : Std.LawfulEqOrd Key where
  compare_self := Std.ReflCmp.compare_self
  eq_of_compare {a b} h := by
    have e : a.segments = b.segments := Std.LawfulEqOrd.eq_of_compare h
    cases a
    cases b
    exact congrArg Key.mk e

/-! ### Building keys -/

/-- The empty key, where every walk starts. -/
def root : Key := {}

/-- A key with one more segment. -/
def push (key : Key) (segment : Segment) : Key where
  segments := key.segments ++ [segment]

def ordinal (key : Key) (index : Nat) : Key :=
  key.push (.ordinal index)

def named (key : Key) (text : String) : Key :=
  key.push (.name text)

/-- Appends a name unless it is empty: groups, blocks and arrays may have none. -/
def join (key : Key) (text : String) : Key :=
  if text.isEmpty then key else key.named text

def arrayParam (key : Key) : Key :=
  key.push .arrayParam

def marked (key : Key) (marker : Marker) : Key :=
  key.push (.marker marker)

/-- Where the flag of an optional argument is stored. -/
def enabled (key : Key) : Key :=
  key.marked .enabled

/-- Where the number of items of a repeated argument or an array is stored. -/
def count (key : Key) : Key :=
  key.marked .count

/-- Where the result of evaluated code is kept. -/
def result (key : Key) : Key :=
  key.marked .result

/-- The key of the execution sockets of a command. -/
def flow : Key :=
  root.marked .flow

/-! ### Reading keys -/

/-- The marker that a key ends with. -/
def marker? (key : Key) : Option Marker :=
  match key.segments.getLast? with
  | some (.marker m) => some m
  | _ => none

/-- Whether a key equals `base` or lies below it. -/
def isUnder (key base : Key) : Bool :=
  base.segments.isPrefixOf key.segments

@[simp] theorem marker?_marked (key : Key) (m : Marker) : (key.marked m).marker? = some m := by
  simp [marker?, marked, push]

theorem isUnder_iff {key base : Key} :
    key.isUnder base = true ↔ ∃ rest, key.segments = base.segments ++ rest := by
  rw [isUnder, List.isPrefixOf_iff_prefix]
  exact exists_congr fun _ => eq_comm

@[simp] theorem isUnder_self (key : Key) : key.isUnder key = true :=
  isUnder_iff.2 ⟨[], by simp⟩

@[simp] theorem isUnder_push (key : Key) (segment : Segment) :
    (key.push segment).isUnder key = true :=
  isUnder_iff.2 ⟨[segment], rfl⟩

end Key

end CommandGraph
