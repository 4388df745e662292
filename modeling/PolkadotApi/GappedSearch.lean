import Mathlib.Order.Basic

set_option autoImplicit false

namespace PolkadotApi.GappedSearch

variable {α : Type} (read : ℕ → Option α) (P : α → Prop)

def Passes (n : ℕ) : Prop := ∀ i < n, ∃ a, read i = some a ∧ ¬ P a

def StopsAt (j : ℕ) : Prop := Passes read P j ∧ ∃ a, read j = some a ∧ P a

def GapAt (j : ℕ) : Prop := Passes read P j ∧ read j = none

theorem search_cases (n : ℕ) :
    Passes read P n ∨ (∃ j < n, StopsAt read P j) ∨ ∃ j < n, GapAt read P j := by
  induction n with
  | zero => exact Or.inl fun i hi => absurd hi (Nat.not_lt_zero i)
  | succ n ih =>
    rcases ih with hpass | ⟨j, hj, hstop⟩ | ⟨j, hj, hgap⟩
    · cases hread : read n with
      | none => exact Or.inr (Or.inr ⟨n, Nat.lt_succ_self n, hpass, hread⟩)
      | some a =>
        by_cases ha : P a
        · exact Or.inr (Or.inl ⟨n, Nat.lt_succ_self n, hpass, a, hread, ha⟩)
        · refine Or.inl ?_
          intro i hi
          rcases Nat.lt_succ_iff_lt_or_eq.1 hi with hlt | rfl
          · exact hpass i hlt
          · exact ⟨a, hread, ha⟩
    · exact Or.inr (Or.inl ⟨j, Nat.lt_succ_of_lt hj, hstop⟩)
    · exact Or.inr (Or.inr ⟨j, Nat.lt_succ_of_lt hj, hgap⟩)

variable {read P} {n i j : ℕ}

theorem Passes.not_stops (h : Passes read P n) (hj : j < n) : ¬ StopsAt read P j := by
  rintro ⟨-, a, ha, hP⟩
  obtain ⟨b, hb, hnot⟩ := h j hj
  cases ha.symm.trans hb
  exact hnot hP

theorem Passes.not_gap (h : Passes read P n) (hj : j < n) : ¬ GapAt read P j := by
  rintro ⟨-, hnone⟩
  obtain ⟨b, hb, -⟩ := h j hj
  cases hnone.symm.trans hb

theorem StopsAt.unique (h : StopsAt read P i) (h' : StopsAt read P j) : i = j := by
  rcases Nat.lt_trichotomy i j with hlt | heq | hgt
  · exact absurd h (h'.1.not_stops hlt)
  · exact heq
  · exact absurd h' (h.1.not_stops hgt)

theorem GapAt.not_stops (h : GapAt read P i) (j : ℕ) : ¬ StopsAt read P j := by
  intro hstop
  rcases Nat.lt_trichotomy i j with hlt | rfl | hgt
  · exact hstop.1.not_gap hlt h
  · obtain ⟨a, ha, -⟩ := hstop.2
    cases h.2.symm.trans ha
  · exact h.1.not_stops hgt hstop

theorem Passes.loop {β : Type} (h : Passes read P j) (loop : ℕ → ℕ → β)
    (hnext : ∀ rounds i a, read i = some a → ¬ P a → loop (rounds + 1) i = loop rounds (i + 1))
    (rounds : ℕ) : loop (j + rounds) 0 = loop rounds j := by
  induction j generalizing rounds with
  | zero => rw [Nat.zero_add]
  | succ j ih =>
    obtain ⟨a, ha, hnot⟩ := h j (Nat.lt_succ_self j)
    have hbefore : Passes read P j := fun i hi => h i (Nat.lt_succ_of_lt hi)
    calc loop (j + 1 + rounds) 0 = loop (j + (rounds + 1)) 0 := by
          rw [Nat.add_assoc, Nat.add_comm 1]
      _ = loop (rounds + 1) j := ih hbefore (rounds + 1)
      _ = loop rounds (j + 1) := hnext rounds j a ha hnot

end PolkadotApi.GappedSearch
