import SpnegoProxy.Framework.Wp

/-!
# Weakest preconditions of state programs that may fail

`Ends m s Q E`: the program `m`, run from the state `s`, returns a value and a
state that satisfy `Q`, or fails with an error that satisfies `E`. The rules
are those of `WP`, and one for failing.
-/

namespace SP

universe u

variable {σ ε α β : Type u}

/-- From `s`, the program `m` ends in a result and a state that satisfy `Q`,
or in an error that satisfies `E`. -/
def Ends (m : StateT σ (Except ε) α) (s : σ) (Q : α → σ → Prop) (E : ε → Prop) : Prop :=
  match m.run s with
  | .ok (a, s') => Q a s'
  | .error e => E e

namespace Ends

variable {m : StateT σ (Except ε) α} {s s' : σ} {Q Q' : α → σ → Prop} {E E' : ε → Prop}

/-- What a program that has ended well ended in. -/
theorem of_ok {a : α} (h : Ends m s Q E) (hm : m.run s = .ok (a, s')) : Q a s' := by
  rw [Ends, hm] at h; exact h

/-- The state that it ended in, if it did. -/
theorem of_toOption (h : Ends m s Q E) (hm : (m.run s).toOption.map Prod.snd = some s') :
    ∃ a, Q a s' := by
  cases hr : m.run s with
  | error e => rw [hr] at hm; cases hm
  | ok r =>
    rw [hr] at hm
    cases hm
    exact ⟨r.1, h.of_ok hr⟩

theorem mono (h : Ends m s Q E) (hq : ∀ a s', Q a s' → Q' a s') (he : ∀ e, E e → E' e) :
    Ends m s Q' E' := by
  unfold Ends at h ⊢
  cases hm : m.run s with
  | error e => rw [hm] at h; exact he e h
  | ok r => rw [hm] at h; exact hq r.1 r.2 h

/-- What was shown of a program twice. -/
theorem and (h : Ends m s Q E) (h' : Ends m s Q' E') :
    Ends m s (fun a s' => Q a s' ∧ Q' a s') fun e => E e ∧ E' e := by
  unfold Ends at h h' ⊢
  cases hm : m.run s with
  | error e => rw [hm] at h h'; exact ⟨h, h'⟩
  | ok r => rw [hm] at h h'; exact ⟨h, h'⟩

theorem bind_iff {f : α → StateT σ (Except ε) β} {Q : β → σ → Prop} :
    Ends (m >>= f) s Q E ↔ Ends m s (fun a s' => Ends (f a) s' Q E) E := by
  have hb : (m >>= f).run s = m.run s >>= fun r => (f r.1).run r.2 := StateT.run_bind ..
  unfold Ends
  rw [hb]
  cases m.run s <;> rfl

theorem pure_iff {a : α} : Ends (pure a) s Q E ↔ Q a s := Iff.rfl

theorem get_iff {Q : σ → σ → Prop} : Ends get s Q E ↔ Q s s := Iff.rfl

theorem set_iff {Q : PUnit → σ → Prop} : Ends (set s') s Q E ↔ Q ⟨⟩ s' := Iff.rfl

theorem modify_iff {f : σ → σ} {Q : PUnit → σ → Prop} : Ends (modify f) s Q E ↔ Q ⟨⟩ (f s) := Iff.rfl

theorem throw_iff {e : ε} : Ends (throw e) s Q E ↔ E e := Iff.rfl

theorem ite {c : Prop} [Decidable c] {m' : StateT σ (Except ε) α} (ht : c → Ends m s Q E)
    (he : ¬ c → Ends m' s Q E) : Ends (if c then m else m') s Q E := by
  split
  · exact ht ‹_›
  · exact he ‹_›

end Ends

end SP
