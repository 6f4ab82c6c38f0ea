import Mathlib.Order.Defs.Unbundled

/-!
# Weakest preconditions of state programs

`WP m s Q`: the program `m`, run from the state `s`, returns a value and a
state that satisfy `Q`. `Moves R m` bounds what a program may change: every
state and the one it ends in are related by the preorder `R`. The rules
follow the shape of a program: one for each way to build it, and `WP.mono`
to use what is proved of a part.
-/

namespace SP

universe u

variable {σ α β : Type u}

/-- From `s`, the program `m` ends in a result and a state that satisfy `Q`. -/
def WP (m : StateM σ α) (s : σ) (Q : α → σ → Prop) : Prop := Q (m.run s).1 (m.run s).2

namespace WP

/-- A program whose run is known. -/
theorem of_run {m : StateM σ α} {s s' : σ} {a : α} {Q : α → σ → Prop} (h : m.run s = (a, s'))
    (hq : Q a s') : WP m s Q := by
  rw [WP, h]; exact hq

theorem mono {m : StateM σ α} {s : σ} {Q Q' : α → σ → Prop} (h : WP m s Q)
    (hq : ∀ a s', Q a s' → Q' a s') : WP m s Q' := hq _ _ h

theorem and {m : StateM σ α} {s : σ} {Q Q' : α → σ → Prop} (h : WP m s Q) (h' : WP m s Q') :
    WP m s fun a s' => Q a s' ∧ Q' a s' := ⟨h, h'⟩

theorem bind_iff {m : StateM σ α} {f : α → StateM σ β} {s : σ} {Q : β → σ → Prop} :
    WP (m >>= f) s Q ↔ WP m s fun a s' => WP (f a) s' Q := Iff.rfl

theorem pure_iff {a : α} {s : σ} {Q : α → σ → Prop} : WP (pure a) s Q ↔ Q a s := Iff.rfl

theorem get_iff {s : σ} {Q : σ → σ → Prop} : WP get s Q ↔ Q s s := Iff.rfl

theorem modify_iff {f : σ → σ} {s : σ} {Q : PUnit → σ → Prop} : WP (modify f) s Q ↔ Q ⟨⟩ (f s) :=
  Iff.rfl

theorem ite {c : Prop} [Decidable c] {m m' : StateM σ α} {s : σ} {Q : α → σ → Prop}
    (ht : c → WP m s Q) (he : ¬ c → WP m' s Q) : WP (if c then m else m') s Q := by
  split
  · exact ht ‹_›
  · exact he ‹_›

end WP

/-- The program takes every state to one that `R` relates it to. -/
def Moves (R : σ → σ → Prop) (m : StateM σ α) : Prop := ∀ s, WP m s fun _ s' => R s s'

namespace Moves

variable {R : σ → σ → Prop}

theorem pure [Std.Refl R] (a : α) : Moves R (pure a : StateM σ α) := fun s => refl_of R s

theorem bind [IsTrans σ R] {m : StateM σ α} {f : α → StateM σ β} (hm : Moves R m)
    (hf : ∀ a, Moves R (f a)) : Moves R (m >>= f) :=
  fun s => WP.bind_iff.mpr ((hm s).mono fun a s' h => (hf a s').mono fun _ _ h' => IsTrans.trans _ _ _ h h')

theorem get [Std.Refl R] : Moves R (get : StateM σ σ) := fun s => refl_of R s

theorem ite {c : Prop} [Decidable c] {m m' : StateM σ α} (ht : c → Moves R m)
    (he : ¬ c → Moves R m') :
    Moves R (if c then m else m') := fun s => WP.ite (fun h => ht h s) fun h => he h s

end Moves

end SP
