/-
CommandGraph/Proofs/Expr/Height.lean

How high the expressions are that are read.

With `n` levels an expression is read that is up to

    3 * n * n - n - 1

high: that is a bound (`Expr.height_of_ofText`), and it is attained for each number of levels
(`Expr.exists_height_eq`).  This is more than the number of levels, since what stands to the left
of an operator, or in front of a question mark, can be higher than the room that there was for
it.  If no left operand and no condition is higher than what stands to its right, the
expression has at most as many levels as there are.
-/
import CommandGraph.Proofs.Expr.Room
import CommandGraph.Proofs.Expr.RoundTrip
import Mathlib.Tactic.Ring

namespace CommandGraph

namespace Expr

/-! ### A bound -/

/-- The height of the highest expression that is read with some room. -/
def mostHigh : Nat → Nat
  | 0 => 0
  | 1 => 1
  | room + 2 => mostHigh (room + 1) + 6 * (room + 1) + 2

/-- The greatest height in closed form. -/
theorem mostHigh_eq (room : Nat) :
    mostHigh (room + 1) + (room + 1) + 1 = 3 * (room + 1) * (room + 1) := by
  induction room with
  | zero => rfl
  | succ room ih =>
    rw [mostHigh]
    have square : 3 * (room + 1 + 1) * (room + 1 + 1) =
        3 * (room + 1) * (room + 1) + 6 * (room + 1) + 3 := by
      ring
    omega

theorem mostHigh_lt_succ (room : Nat) : mostHigh room < mostHigh (room + 1) := by
  cases room with
  | zero => exact Nat.zero_lt_one
  | succ room =>
    rw [mostHigh]
    omega

theorem mostHigh_mono {room more : Nat} (le : room ≤ more) : mostHigh room ≤ mostHigh more := by
  induction le with
  | refl => exact Nat.le_refl _
  | step _ ih => exact Nat.le_trans ih (Nat.le_of_lt (mostHigh_lt_succ _))

theorem heightList_le {args : List Expr} {bound : Nat} (h : ∀ arg ∈ args, arg.height ≤ bound) :
    heightList args ≤ bound := by
  induction args with
  | nil => exact Nat.zero_le _
  | cons first args ih =>
    rw [heightList]
    have others := ih fun arg mem => h arg (List.mem_cons_of_mem _ mem)
    exact Nat.max_le.2 ⟨h first List.mem_cons_self, others⟩

/-! ### A bound for each stage

An operator takes a level from what stands to its right, but none from what stands to its left; so
each precedence adds the room once more. -/

/-- The height of the highest expression that fits into some room. -/
def maxHeight (room : Nat) : Stage → Nat
  | .expression => mostHigh room
  | .operand precedence => mostHigh room + 1 + (unaryPrecedence - precedence) * room
  | .run precedence total =>
    mostHigh total + 1 + (unaryPrecedence - (precedence + 1)) * total + (total - room)
  | .primary => mostHigh room + 1

variable {stage : Stage} {precedence total room : Nat} {e : Expr}

/-- The room of a run gets less. -/
theorem Fits.room_le_total (h : Fits (.run precedence total) room e) : room ≤ total := by
  generalize run : Stage.run precedence total = stage at h
  induction h with
  | first _ _ =>
    cases run
    exact Nat.le_refl _
  | next _ _ ih _ =>
    cases run
    exact Nat.le_of_succ_le (ih rfl)
  | _ => cases run

/-- What fits into some room is no higher than the bound of its stage. -/
theorem Fits.height_le (h : Fits stage room e) : e.height ≤ maxHeight room stage := by
  induction h with
  | literal room value => exact Nat.le_add_left 1 _
  | name room text => exact Nat.le_add_left 1 _
  | call function h ih =>
    rw [height, maxHeight]
    exact Nat.succ_le_succ (heightList_le ih)
  | parenthesized h ih => exact Nat.le_succ_of_le ih
  | atom h ih => exact Nat.le_add_right_of_le ih
  | @unary room e op h ih =>
    have := mostHigh_lt_succ room
    rw [height]
    rw [maxHeight, Nat.sub_self, Nat.zero_mul] at ih ⊢
    omega
  | first h ih => exact Nat.le_add_right_of_le ih
  | @next total room op left right h h' ih ih' =>
    -- the operand to the right has one level less, the run to the left has them all
    have less := h.room_le_total
    have highest := mostHigh_mono (Nat.le_of_succ_le less)
    have wider : (unaryPrecedence - (op.precedence + 1)) * room ≤
        (unaryPrecedence - (op.precedence + 1)) * total :=
      Nat.mul_le_mul_left _ (Nat.le_of_succ_le less)
    rw [height]
    simp only [maxHeight] at ih ih' ⊢
    omega
  | @operand precedence total room e lt h ih =>
    have levels : (unaryPrecedence - precedence) * total =
        (unaryPrecedence - (precedence + 1)) * total + total := by
      rw [← Nat.succ_mul]
      congr 1
      omega
    simp only [maxHeight] at ih ⊢
    omega
  | @plain room e h ih =>
    -- all six precedences have added the room by now
    simp only [maxHeight] at ih ⊢
    cases room with
    | zero => exact ih
    | succ room =>
      rw [mostHigh]
      simp only [unaryPrecedence] at ih
      omega
  | @conditional room condition yes no h h' h'' ih ih' ih'' =>
    rw [height]
    simp only [maxHeight] at ih ih' ih'' ⊢
    cases room with
    | zero => cases h'
    | succ room =>
      rw [mostHigh]
      simp only [unaryPrecedence] at ih
      omega

/-! ### Expressions that lean to the right -/

/-- Whether what stands to the left in a node is not higher than what stands to its right. -/
def LeansRight : Expr → Prop
  | binary _ left right => left.height ≤ right.height
  | conditional condition yes no => condition.height ≤ max yes.height no.height
  | _ => True

/-- A bound on what fits into some room and leans to the right. -/
def maxHeightRight (room : Nat) : Stage → Nat
  | .expression => room
  | .operand _ | .primary => room + 1
  | .run _ total => total + 1

instance : DecidablePred LeansRight
  | binary .. | conditional .. => inferInstanceAs (Decidable (_ ≤ _))
  | literal _ | name _ | unary .. | call .. => isTrue trivial

/-- What fits into some room and leans to the right is no higher than the room. -/
theorem Fits.height_le_of_leansRight (h : Fits stage room e)
    (leans : ∀ node ∈ e.nodes, node.LeansRight) : e.height ≤ maxHeightRight room stage := by
  induction h with
  | literal room value => exact Nat.le_add_left 1 _
  | name room text => exact Nat.le_add_left 1 _
  | call function h ih =>
    rw [height, maxHeightRight]
    exact Nat.succ_le_succ
      (heightList_le fun arg mem => ih arg mem ((forall_nodes_call.1 leans).2 arg mem))
  | parenthesized h ih => exact Nat.le_succ_of_le (ih leans)
  | atom h ih => exact ih leans
  | unary op h ih =>
    rw [height]
    exact Nat.succ_le_succ (ih (forall_nodes_unary.1 leans).2)
  | first h ih => exact ih leans
  | next h h' ih ih' =>
    obtain ⟨here, -, right_leans⟩ := forall_nodes_binary.1 leans
    have right_le := ih' right_leans
    have less := h.room_le_total
    rw [LeansRight] at here
    simp only [maxHeightRight] at right_le ⊢
    rw [height]
    omega
  | operand lt h ih => exact ih leans
  | plain h ih => exact ih leans
  | conditional h h' h'' ih ih' ih'' =>
    obtain ⟨here, -, yes_leans, no_leans⟩ := forall_nodes_conditional.1 leans
    have yes_le := ih' yes_leans
    have no_le := ih'' no_leans
    rw [LeansRight] at here
    simp only [maxHeightRight] at yes_le no_le ⊢
    rw [height]
    omega

/-! ### What is read -/

variable {source : String} {maxDepth : Nat}

/-- What is read fits into the levels that there are. -/
theorem fits_of_ofText (ok : ofText source maxDepth = .ok e) : Fits .expression maxDepth e := by
  obtain ⟨lexemes, -, ok⟩ := bind_eq_ok.1 ok
  split at ok
  · cases ok
  · obtain ⟨⟨found, rest⟩, read, ok⟩ := bind_eq_ok.1 ok
    dsimp only at ok
    split at ok
    · obtain rfl := Except.ok.inj ok
      exact (ParseContext.sound _ maxDepth).conditional read
    · cases ok

/-- **The height of what is read.**  It is less than three times the square of the number of
levels, and at most this number for an expression that leans to the right. -/
theorem height_of_ofText (ok : ofText source maxDepth = .ok e) :
    e.height + maxDepth < 3 * maxDepth * maxDepth ∧
      ((∀ node ∈ e.nodes, node.LeansRight) → e.height ≤ maxDepth) := by
  have fits := fits_of_ofText ok
  refine ⟨?_, fits.height_le_of_leansRight⟩
  have highest : e.height ≤ mostHigh maxDepth := fits.height_le
  cases maxDepth with
  | zero => cases fits
  | succ room =>
    have := mostHigh_eq room
    omega

/-- An expression that leans to the right. -/
def leaning : Expr :=
  binary .subtract (name "x") (binary .divide (name "y") (unary .negate (name "z")))

/-- An expression that leans to the right is read with as many levels as it is high. -/
theorem height_of_ofText_leaning :
    ofText "x - y / -z" 4 = .ok leaning ∧ (∀ node ∈ leaning.nodes, node.LeansRight) ∧
      leaning.height + 4 < 3 * 4 * 4 ∧ leaning.height ≤ 4 := by
  have text : leaning.display = "x - y / -z" := by decide +kernel
  have ok : ofText leaning.display 4 = .ok leaning :=
    ofText_display_of_nesting (by decide +kernel) (by decide)
  have leans : ∀ node ∈ leaning.nodes, node.LeansRight := by decide
  have bounds := height_of_ofText ok
  rw [text] at ok
  exact ⟨ok, leans, bounds.1, bounds.2 leans⟩

/-- A sum whose left operand is a product of three numbers. -/
def sumOfProduct : Expr :=
  binary .add
    (binary .multiply
      (binary .multiply (literal (.number 1)) (literal (.number 1))) (literal (.number 1)))
    (literal (.number 1))

/-- The products have given their levels back when the sum begins. -/
theorem ofText_sumOfProduct :
    ofText "1 * 1 * 1 + 1" 3 = .ok sumOfProduct ∧ ¬ sumOfProduct.height ≤ 3 := by
  have text : sumOfProduct.display = "1 * 1 * 1 + 1" := by decide +kernel
  rw [← text]
  exact ⟨ofText_display_of_nesting (by decide +kernel) (by decide), by decide⟩

/-! ### The bound is attained -/

/-- A run of operators, each with a name to its right. -/
def chain (op : BinaryOp) : Nat → Expr → Expr
  | 0, e => e
  | length + 1, e => binary op (chain op length e) (name "x")

/-- Runs of all precedences, one inside the other. -/
def chains (length : Nat) (e : Expr) : Expr :=
  chain .or length (chain .and length (chain .equal length (chain .less length
    (chain .add length (chain .multiply length e)))))

/-- The highest expression that is read with some room. -/
def tower : Nat → Expr
  | 0 | 1 => name "x"
  | room + 2 =>
    conditional (chains (room + 1) (call "f" [tower (room + 1)])) (name "x") (name "x")

theorem height_pos (e : Expr) : 0 < e.height := by
  cases e <;> exact Nat.succ_pos _

/-- Each operator of a chain adds to its height. -/
theorem height_chain (op : BinaryOp) (length : Nat) (e : Expr) :
    (chain op length e).height = e.height + length := by
  induction length with
  | zero => rfl
  | succ length ih =>
    have := e.height_pos
    have one : (name "x").height = 1 := rfl
    rw [chain, height, ih, one]
    omega

/-- The tower is as high as expressions get. -/
theorem height_tower (room : Nat) : (tower (room + 1)).height = mostHigh (room + 1) := by
  induction room with
  | zero => rfl
  | succ room ih =>
    have one : (name "x").height = 1 := rfl
    have inner : (call "f" [tower (room + 1)]).height = mostHigh (room + 1) + 1 := by
      rw [height, heightList, heightList, ih, Nat.max_zero]
    rw [tower, height, chains, mostHigh]
    simp only [height_chain, inner, one]
    omega

theorem precedence_le_chain {op : BinaryOp} (tight : op.precedence < e.precedence) (length : Nat) :
    op.precedence ≤ (chain op length e).precedence := by
  cases length with
  | zero => exact Nat.le_of_lt tight
  | succ length => exact Nat.le_refl _

theorem runLength_chain {op : BinaryOp} (tight : op.precedence < e.precedence) (length : Nat) :
    (chain op length e).runLength op.precedence = length := by
  induction length with
  | zero => exact runLength_eq_zero (Nat.ne_of_gt tight)
  | succ length ih => rw [chain, runLength, if_pos rfl, ih]

/-- A run takes as many levels as it has operators, unless its first operand takes more. -/
theorem nesting_chain_le (op : BinaryOp) (lower : Nat) {bound length : Nat}
    (lt : lower < op.precedence)
    (h : op.precedence < e.precedence ∧ e.nesting ≤ bound) (le : length ≤ bound) :
    lower < (chain op length e).precedence ∧ (chain op length e).nesting ≤ bound := by
  obtain ⟨tight, fits⟩ := h
  refine ⟨Nat.lt_of_lt_of_le lt (precedence_le_chain tight length), ?_⟩
  induction length with
  | zero => exact fits
  | succ length ih =>
    have here := ih (Nat.le_of_succ_le le)
    rw [chain, nesting, runLength_chain tight, nesting_name,
      parenLevel_eq_zero (precedence_le_chain tight length),
      parenLevel_eq_zero (Nat.succ_le_of_lt (Nat.lt_succ_of_lt op.precedence_bounds.2))]
    omega

/-- The tower is read with one level more than there is room for. -/
theorem nesting_tower (room : Nat) : (tower (room + 1)).nesting ≤ room := by
  induction room with
  | zero =>
    rw [tower, nesting]
  | succ room ih =>
    have inner : 7 < (call "f" [tower (room + 1)]).precedence ∧
        (call "f" [tower (room + 1)]).nesting ≤ room + 1 := by
      refine ⟨Nat.le_succ 8, ?_⟩
      rw [nesting, nestingList, nestingList]
      omega
    -- chains that bind more tightly stand further inside
    have condition : 1 < (chains (room + 1) (call "f" [tower (room + 1)])).precedence ∧
        (chains (room + 1) (call "f" [tower (room + 1)])).nesting ≤ room + 1 := by
      have le := Nat.le_refl (room + 1)
      have products := nesting_chain_le .multiply 6 (by decide) inner le
      have sums := nesting_chain_le .add 5 (by decide) products le
      have comparisons := nesting_chain_le .less 4 (by decide) sums le
      have equations := nesting_chain_le .equal 3 (by decide) comparisons le
      have conjunctions := nesting_chain_le .and 2 (by decide) equations le
      exact nesting_chain_le .or 1 (by decide) conjunctions le
    rw [tower, nesting, parenLevel_eq_zero condition.1, nesting_name]
    omega

/-- What holds of names, of operators and inside an expression holds in a chain around it. -/
theorem forall_nodes_chain {P : Expr → Prop} (x : P (name "x"))
    (operators : ∀ op left right, P (binary op left right)) (op : BinaryOp) (length : Nat)
    (h : ∀ node ∈ e.nodes, P node) : ∀ node ∈ (chain op length e).nodes, P node := by
  induction length with
  | zero => exact h
  | succ length ih =>
    have right : ∀ node ∈ (name "x").nodes, P node := List.forall_mem_singleton.2 x
    exact forall_nodes_binary.2 ⟨operators _ _ _, ih, right⟩

/-- The tower is made of nodes that can be read. -/
theorem isReadable_tower (room : Nat) : ∀ node ∈ (tower room).nodes, node.IsReadable := by
  have x : (name "x").IsReadable := by decide +kernel
  have names : ∀ node ∈ (name "x").nodes, node.IsReadable := List.forall_mem_singleton.2 x
  fun_induction tower room with
  | case1 => exact names
  | case2 => exact names
  | case3 room ih =>
    -- whether a call is readable does not depend on its arguments
    have function : (call "f" []).IsReadable := by decide +kernel
    have inner : ∀ node ∈ (call "f" [tower (room + 1)]).nodes, node.IsReadable :=
      forall_nodes_call.2 ⟨function, List.forall_mem_singleton.2 ih⟩
    have extend (op : BinaryOp) {e : Expr} (h : ∀ node ∈ e.nodes, node.IsReadable) :=
      forall_nodes_chain x (fun _ _ _ => trivial) op (room + 1) h
    refine forall_nodes_conditional.2 ⟨trivial, ?_, names, names⟩
    exact extend .or (extend .and (extend .equal (extend .less (extend .add
      (extend .multiply inner)))))

/-- For each number of levels, there is a text that is read as an expression of the greatest
possible height. -/
theorem exists_height_eq (positive : 0 < maxDepth) : ∃ source e,
    ofText source maxDepth = .ok e ∧ e.height + maxDepth + 1 = 3 * maxDepth * maxDepth := by
  obtain ⟨room, rfl⟩ : ∃ room, maxDepth = room + 1 := ⟨maxDepth - 1, by omega⟩
  refine ⟨(tower (room + 1)).display, tower (room + 1), ?_, ?_⟩
  · exact ofText_display_of_nesting (isReadable_tower _) (Nat.lt_succ_of_le (nesting_tower room))
  · rw [height_tower, mostHigh_eq]

end Expr

end CommandGraph
