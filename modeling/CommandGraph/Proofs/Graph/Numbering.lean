/-
CommandGraph/Proofs/Graph/Numbering.lean

The ids of new nodes.

A factory numbers the nodes that it makes.  One that takes up the work on an existing graph starts
behind the largest number that the ids in use have (`Factory.firstFree`).  A new id is written
without sign and leading zeros, so it has its own number (`Factory.number?_newId`), and ids in use
have smaller ones or none.

The counter ends below 2^64, and it is past the number of the node that was made last.  So nodes
run out one number early, and an id in use that has the largest number leaves none
(`Factory.resume_creates`).
-/
import CommandGraph.Graph.Factory
import CommandGraph.Proofs.Text.Digits
import Mathlib.Data.List.Nodup
import Mathlib.Data.List.Range

namespace CommandGraph

namespace Natural

/-- Digits come without a sign. -/
theorem ofText?_digits {n : Nat} (h : n < bound) : ofText? (digits n) = some n := by
  unfold ofText?
  split
  · next cs signed =>
    have digit : '+'.isDigit = true := isDigit_of_mem_digits (signed ▸ List.mem_cons_self)
    cases digit
  · exact ofDigits?_digits h

end Natural

namespace Factory

variable {ids : List String} {id : String} {k n : Nat}

/-! ### Numbers of ids -/

/-- The id that a factory gives to the node with the given number. -/
def newId (n : Nat) : String :=
  stem ++ toString n

theorem toList_newId (n : Nat) : (newId n).toList = stem.toList ++ Natural.digits n := by
  rw [newId, String.toList_append]
  exact congrArg _ Nat.toList_repr

/-- The number of a new id is the one that it was made from. -/
theorem number?_newId (h : n < Natural.bound) : number? (newId n) = some n := by
  have first : stem.toList.isPrefixOf (newId n).toList = true := by
    rw [List.isPrefixOf_iff_prefix, toList_newId]
    exact List.prefix_append _ _
  have behind : (newId n).toList.drop stem.length = Natural.digits n := by
    rw [toList_newId]
    exact List.drop_left
  rw [number?, if_pos first, behind, Natural.ofText?_digits h]

/-- The first number behind those of the ids in use. -/
def firstFree (ids : List String) : Nat :=
  match (ids.filterMap number?).max? with
  | some largest => largest + 1
  | none => 1

/-- Numbers start at one, as those of a new factory do. -/
theorem one_le_firstFree (ids : List String) : 1 ≤ firstFree ids := by
  unfold firstFree
  split
  · exact Nat.le_add_left 1 _
  · exact Nat.le_refl 1

/-- Every number in use is smaller than the first free one. -/
theorem lt_firstFree (mem : id ∈ ids) (number : number? id = some k) : k < firstFree ids := by
  have mem : k ∈ ids.filterMap number? := List.mem_filterMap.2 ⟨id, mem, number⟩
  unfold firstFree
  split
  · next largest found => exact Nat.lt_succ_of_le ((List.max?_eq_some_iff.1 found).2 k mem)
  · next found =>
    rw [List.max?_eq_none_iff.1 found] at mem
    cases mem

/-- The first free number is one, or it comes right behind a number in use. -/
theorem firstFree_eq (ids : List String) :
    firstFree ids = 1 ∨ ∃ id ∈ ids, ∃ k, number? id = some k ∧ firstFree ids = k + 1 := by
  unfold firstFree
  split
  · next largest found =>
    obtain ⟨id, mem, number⟩ := List.mem_filterMap.1 (List.max?_eq_some_iff.1 found).1
    exact .inr ⟨id, mem, largest, number, rfl⟩
  · exact .inl rfl

/-- Numbers from the first free one on belong to no id in use. -/
theorem newId_not_mem (le : firstFree ids ≤ n) (lt : n < Natural.bound) : newId n ∉ ids :=
  fun mem => Nat.lt_irrefl n (Nat.lt_of_lt_of_le (lt_firstFree mem (number?_newId lt)) le)

theorem resume?_eq (ids : List String) : resume? ids = startingAt? (firstFree ids) := by
  unfold resume? firstFree
  cases (ids.filterMap number?).max? <;> rfl

/-! ### New nodes -/

/-- What a new node is made for. -/
structure Request where
  command : Command
  position : Position
  name : String

/-- Makes a new node and counts on. -/
def createM (request : Request) : StateT Factory Option Node := fun factory =>
  factory.create? request.command request.position request.name

/-- A node is made, and the factory counts on, as long as there is a number behind. -/
theorem createM_of_lt {factory : Factory} (request : Request)
    (lt : factory.next + 1 < Natural.bound) :
    ∃ node, node.id = newId factory.next ∧
      (createM request).run factory = some (node, ⟨factory.next + 1⟩) := by
  have counts : startingAt? (factory.next + 1) = some ⟨factory.next + 1⟩ := if_pos lt
  exact ⟨_, rfl, Option.map_eq_some_iff.2 ⟨_, counts, rfl⟩⟩

/-- The last number is not given away: a factory has to have a next number, too. -/
theorem createM_of_not_lt {factory : Factory} (request : Request)
    (not_lt : ¬ factory.next + 1 < Natural.bound) : (createM request).run factory = none := by
  have stops : startingAt? (factory.next + 1) = none := if_neg not_lt
  exact Option.map_eq_none_iff.2 stops

/-- The first node, and then the others from the factory that is left behind. -/
theorem run_mapM_cons (request : Request) (requests : List Request) (factory : Factory) :
    ((request :: requests).mapM createM).run factory =
      ((createM request).run factory).bind fun made =>
        ((requests.mapM createM).run made.2).map fun rest => (made.1 :: rest.1, rest.2) := by
  rw [List.mapM_cons, StateT.run_bind]
  refine Option.bind_congr fun made _ => ?_
  rw [StateT.run_bind]
  exact Option.map_eq_bind.symm

/-- Nodes that are made one after the other have consecutive numbers. -/
theorem ids_of_mapM {requests : List Request} {factory last : Factory} {nodes : List Node}
    (valid : factory.next < Natural.bound)
    (made : (requests.mapM createM).run factory = some (nodes, last)) :
    factory.next + requests.length < Natural.bound ∧
      nodes.map (·.id) = (List.range' factory.next requests.length).map newId := by
  induction requests generalizing factory nodes with
  | nil =>
    cases made
    exact ⟨valid, rfl⟩
  | cons request requests ih =>
    rw [run_mapM_cons] at made
    by_cases lt : factory.next + 1 < Natural.bound
    · obtain ⟨node, numbered, first⟩ := createM_of_lt request lt
      rw [first, Option.bind_some] at made
      obtain ⟨⟨others, following⟩, behind, e⟩ := Option.map_eq_some_iff.1 made
      obtain ⟨rfl, rfl⟩ := Prod.mk.inj e
      -- the others start one number further on, and are one fewer
      obtain ⟨fits, consecutive⟩ := ih lt behind
      rw [List.length_cons, List.range'_succ, List.map_cons, List.map_cons, numbered, consecutive]
      rw [Nat.add_right_comm] at fits
      exact ⟨fits, rfl⟩
    · rw [createM_of_not_lt request lt] at made
      cases made

/-- Nodes can be made as long as the numbers last. -/
theorem exists_mapM {requests : List Request} {factory : Factory}
    (fits : factory.next + requests.length < Natural.bound) :
    ∃ nodes last, (requests.mapM createM).run factory = some (nodes, last) := by
  induction requests generalizing factory with
  | nil => exact ⟨[], factory, rfl⟩
  | cons request requests ih =>
    have fits : factory.next + 1 + requests.length < Natural.bound := by
      rwa [List.length_cons, ← Nat.add_assoc, Nat.add_right_comm] at fits
    obtain ⟨node, -, first⟩ :=
      createM_of_lt request (Nat.lt_of_le_of_lt (Nat.le_add_right _ _) fits)
    obtain ⟨others, last, behind⟩ := ih fits
    rw [run_mapM_cons, first, Option.bind_some, behind]
    exact ⟨node :: others, last, rfl⟩

/-! ### Taking up the work on a graph -/

/-- Makes new nodes beside those whose ids are given. -/
def createBeside? (ids : List String) (requests : List Request) : Option (List Node × Factory) :=
  (resume? ids).bind (requests.mapM createM).run

/-- The numbers of new nodes follow each other from the first free one on. -/
theorem createBeside?_eq_some {requests : List Request} {nodes : List Node} {last : Factory}
    (made : createBeside? ids requests = some (nodes, last)) :
    firstFree ids + requests.length < Natural.bound ∧
      nodes.map (·.id) = (List.range' (firstFree ids) requests.length).map newId := by
  obtain ⟨factory, resumed, made⟩ := Option.bind_eq_some_iff.1 made
  rw [resume?_eq, startingAt?, Option.ite_none_right_eq_some] at resumed
  obtain ⟨valid, resumed⟩ := resumed
  obtain rfl := Option.some.inj resumed
  exact ids_of_mapM valid made

/-- How many nodes can be made depends on the first free number alone. -/
theorem exists_createBeside?_iff {requests : List Request} :
    (∃ nodes last, createBeside? ids requests = some (nodes, last)) ↔
      firstFree ids + requests.length < Natural.bound := by
  constructor
  · rintro ⟨nodes, last, made⟩
    exact (createBeside?_eq_some made).1
  · intro fits
    have resumed : resume? ids = some ⟨firstFree ids⟩ :=
      (resume?_eq ids).trans (if_pos (Nat.lt_of_le_of_lt (Nat.le_add_right _ _) fits))
    have fits : (⟨firstFree ids⟩ : Factory).next + requests.length < Natural.bound := fits
    obtain ⟨nodes, last, made⟩ := exists_mapM fits
    exact ⟨nodes, last, Option.bind_eq_some_iff.2 ⟨_, resumed, made⟩⟩

/-- A bound on the first free number is a bound on one and on what comes behind each number in
use. -/
theorem firstFree_add_lt_iff :
    firstFree ids + n < Natural.bound ↔
      1 + n < Natural.bound ∧
        ∀ id ∈ ids, ∀ k, number? id = some k → k + 1 + n < Natural.bound := by
  constructor
  · intro fits
    refine ⟨Nat.lt_of_le_of_lt (Nat.add_le_add_right (one_le_firstFree ids) n) fits, ?_⟩
    intro id mem k number
    exact Nat.lt_of_le_of_lt (Nat.add_le_add_right (lt_firstFree mem number) n) fits
  · rintro ⟨small, all⟩
    rcases firstFree_eq ids with first | ⟨id, mem, k, number, first⟩
    · rwa [first]
    · rw [first]
      exact all id mem k number

/-- **New nodes have new ids, until the numbers run out.**  A factory that takes up the work beside
some ids can make `n` nodes exactly if counting `n + 1` further than zero and than each of their
numbers stays below 2^64.  The ids of the nodes that it makes are distinct, and none of them is in
use. -/
theorem resume_creates (ids : List String) (requests : List Request) :
    ((∃ nodes last, createBeside? ids requests = some (nodes, last)) ↔
        1 + requests.length < Natural.bound ∧
          ∀ id ∈ ids, ∀ k, number? id = some k → k + 1 + requests.length < Natural.bound) ∧
      ∀ nodes last, createBeside? ids requests = some (nodes, last) →
        nodes.length = requests.length ∧ (nodes.map (·.id)).Nodup ∧
          ∀ node ∈ nodes, node.id ∉ ids := by
  refine ⟨exists_createBeside?_iff.trans firstFree_add_lt_iff, ?_⟩
  intro nodes last made
  obtain ⟨fits, ids_eq⟩ := createBeside?_eq_some made
  -- the numbers of the new nodes are free, and small enough to be read back
  have numbered : ∀ i ∈ List.range' (firstFree ids) requests.length,
      firstFree ids ≤ i ∧ i < Natural.bound := by
    intro i mem
    obtain ⟨le, lt⟩ := List.mem_range'_1.1 mem
    exact ⟨le, Nat.lt_trans lt fits⟩
  refine ⟨?_, ?_, ?_⟩
  · have length := congrArg List.length ids_eq
    rwa [List.length_map, List.length_map, List.length_range'] at length
  · rw [ids_eq]
    refine List.Nodup.map_on ?_ List.nodup_range'
    intro i hi j hj same
    -- nodes with one id would have one number, and numbers in a row are distinct
    have same_number := congrArg number? same
    rw [number?_newId (numbered i hi).2, number?_newId (numbered j hj).2] at same_number
    exact Option.some.inj same_number
  · intro node mem
    obtain ⟨i, hi, e⟩ := List.mem_map.1 (ids_eq ▸ List.mem_map_of_mem mem)
    rw [← e]
    exact newId_not_mem (numbered i hi).1 (numbered i hi).2

/-- Two nodes are made beside three ids, whose numbers are 2, 9 and none; a plus sign is read. -/
theorem resume_creates_gaps :
    ∃ nodes last, createBeside? ["node-2", "node-+9", "custom"]
        (List.replicate 2 ⟨{ name := "stop" }, {}, "stop"⟩) = some (nodes, last) ∧
      (nodes.map (·.id)).Nodup ∧ ∀ node ∈ nodes, node.id ∉ ["node-2", "node-+9", "custom"] := by
  obtain ⟨completes, fresh⟩ := resume_creates ["node-2", "node-+9", "custom"]
    (List.replicate 2 ⟨{ name := "stop" }, {}, "stop"⟩)
  obtain ⟨nodes, last, made⟩ := completes.2 (by decide)
  exact ⟨nodes, last, made, (fresh nodes last made).2⟩

/-- Beside an id with the largest number the work cannot be taken up. -/
theorem createBeside?_largest :
    createBeside? ["node-18446744073709551615"] [] = none := by
  decide

end Factory

end CommandGraph
