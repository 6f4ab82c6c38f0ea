import SpnegoProxy.Framework.Machine

/-!
# Runs that come to an end

A measure that every action lowers bounds the length of a run. Some actions
may bring new work with them; a run is then no longer than the measure at its
start and the work that was brought (`Machine.length_le`).
-/

namespace SP.Machine

universe u v

variable {σ : Type u} {α : Type v} {M : Machine σ α} {s s' : σ} {as : List α}

/-- Each action takes one off the measure, but the actions of `p` may add less than `c`. -/
theorem length_le {I : σ → Prop} {m : σ → Nat} {p : α → Bool} {c : Nat} (hs : I s)
    (hI : ∀ {s a s'}, I s → M.step s a = some s' → I s')
    (hm : ∀ {s a s'}, I s → M.step s a = some s' → m s' + 1 ≤ m s + if p a then c else 0)
    (h : M.execFrom s as = some s') : I s' ∧ as.length + m s' ≤ m s + c * as.countP p := by
  refine invariantFrom (I := fun as s' => I s' ∧ as.length + m s' ≤ m s + c * as.countP p) ?_ ?_ h
  · exact ⟨hs, by simp⟩
  · intro as t a t' _ ih ht
    refine ⟨hI ih.1 ht, ?_⟩
    have hbefore := ih.2
    have hstep := hm ih.1 ht
    rw [List.length_append, List.length_singleton, List.countP_append, List.countP_singleton,
      Nat.mul_add]
    split at hstep
    next hp =>
      rw [if_pos hp, Nat.mul_one]
      omega
    next hp =>
      rw [if_neg hp, Nat.mul_zero]
      omega

end SP.Machine
