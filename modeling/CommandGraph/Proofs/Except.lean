/-
CommandGraph/Proofs/Except.lean

Steps that may fail.

A sequence of steps succeeds exactly if all of them do, and what each of them gives is then
given on to the next one (`bind_eq_ok`, `eq_ok_of_mapM`).  It fails in a certain way only if one
of its steps does (`Avoids.bind`).
-/

namespace CommandGraph

variable {ε α β : Type}

/-! ### Sequences that succeed -/

/-- A sequence of two steps succeeds if both do. -/
theorem bind_eq_ok {x : Except ε α} {f : α → Except ε β} {b : β} :
    x >>= f = .ok b ↔ ∃ a, x = .ok a ∧ f a = .ok b := by
  cases x with
  | error e => simp [bind, Except.bind]
  | ok a => simp [bind, Except.bind]

theorem eq_of_ok_eq {a a' : α} {b b' : β}
    (h : (.ok (a, b) : Except ε (α × β)) = .ok (a', b')) : a = a' ∧ b = b' :=
  Prod.mk.inj (Except.ok.inj h)

theorem mapM_congr {f g : α → Except ε β} {l : List α} (h : ∀ a ∈ l, f a = g a) :
    l.mapM f = l.mapM g := by
  induction l with
  | nil => rfl
  | cons a l ih =>
    rw [List.mapM_cons, List.mapM_cons, h a List.mem_cons_self,
      ih fun b hb => h b (List.mem_cons_of_mem _ hb)]

/-- If a list of steps succeeds, each of them does. -/
theorem eq_ok_of_mapM {f : α → Except ε β} {l : List α} {bs : List β} (h : l.mapM f = .ok bs)
    {a : α} (ha : a ∈ l) : ∃ b, f a = .ok b := by
  induction l generalizing bs with
  | nil => simp at ha
  | cons first l ih =>
    rw [List.mapM_cons] at h
    obtain ⟨b, hb, h⟩ := bind_eq_ok.1 h
    obtain ⟨rest, hrest, -⟩ := bind_eq_ok.1 h
    rcases List.mem_cons.1 ha with rfl | ha
    · exact ⟨b, hb⟩
    · exact ih hrest ha

/-! ### Failures that do not occur -/

/-- Whether a step does not fail in a certain way. -/
def Avoids (failure : ε → Prop) (x : Except ε α) : Prop :=
  ∀ e, failure e → x ≠ .error e

namespace Avoids

variable {failure : ε → Prop} {e : ε}

theorem ok (a : α) : Avoids failure (.ok a : Except ε α) := by
  intro e _ h
  cases h

theorem error (h : ¬ failure e) : Avoids failure (.error e : Except ε α) := by
  intro e' fails e_eq
  obtain rfl := Except.error.inj e_eq
  exact h fails

/-- An error that is passed on. -/
theorem of_error (h : Avoids failure (.error e : Except ε α)) :
    Avoids failure (.error e : Except ε β) :=
  error fun fails => h e fails rfl

theorem bind {x : Except ε α} {f : α → Except ε β} (h : Avoids failure x)
    (h' : ∀ a, Avoids failure (f a)) : Avoids failure (x >>= f) := by
  cases x with
  | ok a => exact h' a
  | error e => exact h.of_error

theorem map {x : Except ε α} (h : Avoids failure x) (f : α → β) : Avoids failure (x.map f) := by
  cases x with
  | ok a => exact ok (f a)
  | error e => exact h.of_error

end Avoids

/-! ### Steps that give nothing when they fail -/

/-- Each result of a sequence of steps comes from one of them. -/
theorem exists_of_mem_mapM {f : α → Option β} {l : List α} {bs : List β} (h : l.mapM f = some bs)
    {b : β} (hb : b ∈ bs) : ∃ a ∈ l, f a = some b := by
  induction l generalizing bs with
  | nil =>
    cases h
    cases hb
  | cons first l ih =>
    rw [List.mapM_cons] at h
    obtain ⟨b', hb', h⟩ := Option.bind_eq_some_iff.1 h
    obtain ⟨rest, hrest, h⟩ := Option.bind_eq_some_iff.1 h
    obtain rfl := Option.some.inj h
    rcases List.mem_cons.1 hb with rfl | hb
    · exact ⟨first, List.mem_cons_self, hb'⟩
    · obtain ⟨a, ha, e⟩ := ih hrest hb
      exact ⟨a, List.mem_cons_of_mem _ ha, e⟩

/-- What every step takes back is taken back as a whole. -/
theorem mapM_map_eq_some {f : α → β} {g : β → Option α} {l : List α}
    (h : ∀ a ∈ l, g (f a) = some a) : (l.map f).mapM g = some l := by
  induction l with
  | nil => rfl
  | cons a l ih =>
    rw [List.map_cons, List.mapM_cons, h a List.mem_cons_self,
      ih fun b hb => h b (List.mem_cons_of_mem _ hb)]
    rfl

end CommandGraph
