/-
CommandGraph/Values.lean

Stored argument values, and the stored state of one command: a finite map from keys to values.

A value is a flag, a 64-bit integer or a text.  The same entry may be asked for as a flag, as a
number of items or as text, whatever its own kind; `asFlag`, `asCount` and `display` say what the
answer is.

Maps are equal as soon as they hold the same entries, and list them in the order of
keys.  `fill` is the only write that never replaces an entry.
-/
import CommandGraph.Key.Basic
import CommandGraph.Number.Decimal
import CommandGraph.Text.Characters

namespace CommandGraph

/-! ### Values -/

/-- A stored argument value. -/
inductive Scalar where
  | flag (value : Bool)
  | int (value : Int64)
  | text (value : String)
  deriving DecidableEq

namespace Scalar

/-- The value read as the flag of an optional argument. -/
def asFlag : Scalar → Bool
  | flag b => b
  | int n => n != 0
  | text s => s == "true" || s == "1"

/-- The value read as a number of items: what is negative or no number counts as zero. -/
def asCount : Scalar → Nat
  | flag b => b.toNat
  | int n => n.toInt.toNat
  | text s => (Natural.ofText? (trimBlanks s.toList)).getD 0

/-- Whether the value is the empty text. -/
def isEmpty : Scalar → Bool
  | text s => s.isEmpty
  | _ => false

/-- The value as text. -/
def display : Scalar → String
  | flag b => if b then "true" else "false"
  | int n => toString n.toInt
  | text s => s

/-- A number of items as a stored value.  Counts of 2^63 and more wrap around. -/
def ofCount (n : Nat) : Scalar :=
  int (Int64.ofNat n)

/-- One past the largest count that is kept exactly, 2^63. -/
def countBound : Nat :=
  9223372036854775808

theorem asCount_ofCount {n : Nat} (h : n < countBound) : (ofCount n).asCount = n := by
  simp [ofCount, asCount, Int64.toInt_ofNat_of_lt h]

/-- A count as it is read again: nothing is left of one that does not fit. -/
theorem asCount_ofCount_eq {n : Nat} (h : n < UInt64.size) :
    (ofCount n).asCount = if n < countBound then n else 0 := by
  split
  · next fits => exact asCount_ofCount fits
  · next large =>
    rw [countBound] at large
    rw [show UInt64.size = 18446744073709551616 from rfl] at h
    rw [ofCount, asCount, Int64.toInt_ofNat', Int.bmod_def,
      show Int64.size = 18446744073709551616 from rfl]
    split <;> omega

/-- The first count that is not kept. -/
theorem asCount_ofCount_countBound : (ofCount countBound).asCount = 0 := by
  decide

end Scalar

/-! ### Maps -/

/-- A finite map from keys to stored values. -/
abbrev Values := Std.ExtTreeMap Key Scalar

namespace Values

/-- Stores a value unless the key has one already. -/
def fill (values : Values) (key : Key) (value : Scalar) : Values :=
  values.insertIfNew key value

/-- Stores every entry of `entries`, later ones over earlier ones. -/
def extend (values : Values) (entries : List (Key × Scalar)) : Values :=
  entries.foldl (fun values entry => values.insert entry.1 entry.2) values

/-- The map with the given entries; of two for one key the later one counts. -/
def ofEntries (entries : List (Key × Scalar)) : Values :=
  extend ∅ entries

/-- The entries whose keys satisfy a condition. -/
def keep (values : Values) (condition : Key → Bool) : Values :=
  values.filter fun key _ => condition key

theorem mem_iff_exists {values : Values} {key : Key} :
    key ∈ values ↔ ∃ value, values[key]? = some value := by
  rw [Std.ExtTreeMap.mem_iff_isSome_getElem?, Option.isSome_iff_exists]

theorem getElem?_fill (values : Values) (key other : Key) (value : Scalar) :
    (values.fill key value)[other]? =
      if key = other ∧ key ∉ values then some value else values[other]? := by
  simp [fill, Std.ExtTreeMap.getElem?_insertIfNew]

theorem getElem?_insert_eq (values : Values) (key other : Key) (value : Scalar) :
    (values.insert key value)[other]? = if key = other then some value else values[other]? := by
  simp [Std.ExtTreeMap.getElem?_insert]

theorem getElem?_extend_of_forall_ne {values : Values} {entries : List (Key × Scalar)} {key : Key}
    (h : ∀ entry ∈ entries, entry.1 ≠ key) : (values.extend entries)[key]? = values[key]? := by
  induction entries generalizing values with
  | nil => rfl
  | cons entry entries ih =>
    show (extend (values.insert entry.1 entry.2) entries)[key]? = values[key]?
    rw [ih fun e mem => h e (List.mem_cons_of_mem _ mem), getElem?_insert_eq,
      if_neg (h entry List.mem_cons_self)]

theorem getElem?_keep (values : Values) (condition : Key → Bool) (key : Key) :
    (values.keep condition)[key]? = if condition key then values[key]? else none := by
  rw [keep, Std.ExtTreeMap.getElem?_filter]
  cases h : condition key <;> simp only [Std.ExtTreeMap.getKey_eq, h, Option.pfilter_eq_filter]
  · cases values[key]? <;> simp
  · cases values[key]? <;> simp

end Values

end CommandGraph
