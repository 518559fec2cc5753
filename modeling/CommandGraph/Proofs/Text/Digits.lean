/-
CommandGraph/Proofs/Text/Digits.lean

Runs of characters, and the digits of numbers in text.

A reader takes the characters of one kind from the front of a text and goes on behind them.
What it takes is what was written, as long as a character of another kind follows
(`span_append`).  The digits of a number are such a run, and denote the number
(`Natural.ofDigits?_digits`).
-/
import CommandGraph.Number.Decimal

namespace CommandGraph

/-! ### Runs of characters -/

/-- A run of characters ends in front of a text that starts with another one. -/
theorem span_append {p : Char → Bool} {cs rest : List Char} (all : ∀ c ∈ cs, p c = true)
    (stops : ∀ c ∈ rest.head?, p c = false) :
    (cs ++ rest).takeWhile p = cs ∧ (cs ++ rest).dropWhile p = rest := by
  rw [List.takeWhile_append_of_pos all, List.dropWhile_append_of_pos all]
  cases rest with
  | nil => exact ⟨List.append_nil cs, rfl⟩
  | cons c rest =>
    have ends := stops c rfl
    rw [List.takeWhile_cons_of_neg (by simpa using ends), List.append_nil,
      List.dropWhile_cons_of_neg (by simpa using ends)]
    exact ⟨rfl, rfl⟩

/-- A number is written with the digits below its base. -/
theorem exists_digit_of_mem_toDigits {base n : Nat} {c : Char} (one_lt : 1 < base)
    (h : c ∈ Nat.toDigits base n) : ∃ d < base, c = d.digitChar := by
  induction n using Nat.strongRecOn with
  | ind n ih =>
    rcases Nat.lt_or_ge n base with small | large
    · rw [Nat.toDigits_of_lt_base small] at h
      exact ⟨n, small, List.mem_singleton.1 h⟩
    · rw [Nat.toDigits_of_base_le one_lt large] at h
      rcases List.mem_append.1 h with h | h
      · exact ih _ (Nat.div_lt_self (by omega) one_lt) h
      · exact ⟨n % base, Nat.mod_lt n (by omega), List.mem_singleton.1 h⟩

namespace Natural

/-! ### Digits of a number -/

theorem isDigit_of_mem_digits {n : Nat} {c : Char} (h : c ∈ digits n) : c.isDigit = true :=
  Nat.isDigit_of_mem_toDigits (by decide) (by decide) h

theorem digits_ne_nil (n : Nat) : digits n ≠ [] :=
  Nat.toDigits_ne_nil

/-- Numbers are written without leading zeros. -/
theorem head?_digits_ne_zero {n : Nat} (h : 0 < n) : (digits n).head? ≠ some '0' := by
  induction n using Nat.strongRecOn with
  | ind n ih =>
    rcases Nat.lt_or_ge n 10 with small | large
    · have all : ∀ d : Fin 10, 0 < d.val → some (Nat.digitChar d) ≠ some '0' := by decide
      rw [digits, Nat.toDigits_of_lt_base small]
      exact all ⟨n, small⟩ h
    · have last : digits n = digits (n / 10) ++ [Nat.digitChar (n % 10)] :=
        Nat.toDigits_of_base_le (by decide) large
      rw [last, List.head?_append, Option.or_of_isSome (List.isSome_head?.2 (digits_ne_nil _))]
      exact ih _ (by omega) (by omega)

theorem isDigits_digits (n : Nat) : isDigits (digits n) = true := by
  rw [isDigits, Bool.and_eq_true, List.all_eq_true]
  refine ⟨?_, fun c mem => isDigit_of_mem_digits mem⟩
  simpa using digits_ne_nil n

/-- The digits of a number that fits denote this number. -/
theorem ofDigits?_digits {n : Nat} (h : n < bound) : ofDigits? (digits n) = some n := by
  rw [ofDigits?, isDigits_digits, ofDigits_digits]
  simp [h]

/-- Digits are read as a number that fits, or not at all. -/
theorem lt_bound_of_ofDigits? {cs : List Char} {n : Nat} (h : ofDigits? cs = some n) :
    n < bound := by
  rw [ofDigits?] at h
  split at h
  · next bounded =>
    obtain rfl := Option.some.inj h
    rw [Bool.and_eq_true, decide_eq_true_iff] at bounded
    exact bounded.2
  · cases h

end Natural

end CommandGraph
