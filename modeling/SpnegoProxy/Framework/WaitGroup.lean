import Mathlib.Data.Finset.Card

/-!
# Wait groups

`Counted n P`: the counter `n` of a wait group is the number of the threads
that `P` holds of. A machine proves it of the threads that were added and are
not done, and each kind of step keeps it by one of the rules; at zero, no
thread is left (`Counted.zero`).
-/

namespace SP

universe u

variable {ι : Type u} {n : Nat} {P P' : ι → Prop} {i : ι}

/-- The counter counts the threads of `P`. -/
def Counted (n : Nat) (P : ι → Prop) : Prop := ∃ U : Finset ι, U.card = n ∧ ∀ i, i ∈ U ↔ P i

namespace Counted

/-- A group that no thread was added to. -/
theorem init (h : ∀ i, ¬ P i) : Counted 0 P := ⟨∅, rfl, fun i => by simp [h i]⟩

/-- A counter at zero counts no thread. -/
theorem zero (h : Counted 0 P) : ¬ P i := by
  obtain ⟨U, hU, hP⟩ := h
  rw [Finset.card_eq_zero] at hU
  subst hU
  exact fun hi => Finset.notMem_empty i ((hP i).mpr hi)

/-- A step that neither adds a thread nor is a thread's last. -/
theorem keep (h : Counted n P) (hP : ∀ j, P' j ↔ P j) : Counted n P' := by
  obtain ⟨U, hU, hUP⟩ := h
  exact ⟨U, hU, fun j => (hUP j).trans (hP j).symm⟩

theorem add (h : Counted n P) (hi : ¬ P i) (hi' : P' i) (hP : ∀ j, j ≠ i → (P' j ↔ P j)) :
    Counted (n + 1) P' := by
  classical
  obtain ⟨U, hU, hUP⟩ := h
  have hiU : i ∉ U := fun hm => hi ((hUP i).mp hm)
  refine ⟨insert i U, by rw [Finset.card_insert_of_notMem hiU, hU], fun j => ?_⟩
  rw [Finset.mem_insert]
  by_cases hj : j = i
  · subst hj; simp [hi']
  · simp [hj, hUP j, hP j hj]

theorem done (h : Counted n P) (hi : P i) (hi' : ¬ P' i) (hP : ∀ j, j ≠ i → (P' j ↔ P j)) :
    Counted (n - 1) P' := by
  classical
  obtain ⟨U, hU, hUP⟩ := h
  have hiU : i ∈ U := (hUP i).mpr hi
  refine ⟨U.erase i, by rw [Finset.card_erase_of_mem hiU, hU], fun j => ?_⟩
  rw [Finset.mem_erase]
  by_cases hj : j = i
  · subst hj; simp [hi']
  · simp [hj, hUP j, hP j hj]

/-- A counter that is not at zero counts some thread. -/
theorem pos (h : Counted n P) (hn : n ≠ 0) : ∃ i, P i := by
  obtain ⟨U, hU, hUP⟩ := h
  obtain ⟨i, hi⟩ := Finset.card_pos.mp (Nat.pos_of_ne_zero (hU ▸ hn))
  exact ⟨i, (hUP i).mp hi⟩

end Counted

end SP
