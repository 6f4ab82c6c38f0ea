import Mathlib.Tactic.ByContra

/-!
# Mutexes

`Owned mu P`: the mutex `mu` is held by exactly the threads that `P` holds
of, so by one at most. A machine proves it of the places of its threads, and
each kind of step keeps it by one of the rules.
-/

namespace SP

universe u

variable {ι : Type u} {mu : Option ι} {P P' : ι → Prop} {i j : ι}

/-- The mutex is held by the threads of `P`. -/
def Owned (mu : Option ι) (P : ι → Prop) : Prop := ∀ i, mu = some i ↔ P i

namespace Owned

theorem held (h : Owned mu P) (hi : P i) : mu = some i := (h i).mpr hi

theorem unique (h : Owned mu P) (hi : P i) (hj : P j) : i = j :=
  Option.some.inj ((h.held hi).symm.trans (h.held hj))

/-- A free mutex is held by no thread. -/
theorem free (h : Owned none P) : ¬ P i := fun hi => (nomatch h.held hi)

/-- A step inside or outside the mutex. -/
theorem keep (h : Owned mu P) (hP : ∀ j, P' j ↔ P j) : Owned mu P' :=
  fun j => (h j).trans (hP j).symm

theorem acquire (h : Owned none P) (hi : P' i) (hP : ∀ j, j ≠ i → (P' j ↔ P j)) :
    Owned (some i) P' := by
  intro j
  refine ⟨fun hj => Option.some.inj hj ▸ hi, fun hj => ?_⟩
  by_contra hne
  exact h.free ((hP j fun e => hne (congrArg some e.symm)).mp hj)

theorem release (h : Owned (some i) P) (hi : ¬ P' i) (hP : ∀ j, j ≠ i → (P' j ↔ P j)) :
    Owned none P' := by
  refine fun j => ⟨fun hj => (nomatch hj), fun hj => ?_⟩
  have hne : j ≠ i := fun e => hi (e ▸ hj)
  exact absurd (Option.some.inj (h.held ((hP j hne).mp hj))).symm hne

end Owned

end SP
