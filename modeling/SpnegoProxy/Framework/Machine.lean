import Mathlib.Data.List.Induction
import Mathlib.Data.Option.Basic

/-!
# Machines and their runs

A machine has a state to start in and actions that some states can take. A
run is the list of the actions taken; interleavings of several threads are
runs whose actions say which thread moves. `Machine.invariant` is the rule
for what holds after every run, of the state and of the actions that led to
it together. `Machine.simulation` follows what is seen of a run by a run of
another machine. `SeenAfter` is about the order of what is seen.
-/

namespace SP

universe u v

/-- Where to start, and what an action does to a state that can take it. -/
structure Machine (σ : Type u) (α : Type v) where
  init : σ
  step : σ → α → Option σ

namespace Machine

variable {σ : Type u} {α : Type v} (M : Machine σ α)

/-- The actions `as` taken from the state `s`. -/
def execFrom (s : σ) : List α → Option σ
  | [] => some s
  | a :: as => (M.step s a).bind fun s' => execFrom s' as

/-- The state after a run, if its actions can be taken. -/
def exec (as : List α) : Option σ := M.execFrom M.init as

variable {M} {s s' : σ} {a : α} {as bs : List α}

theorem execFrom_append :
    M.execFrom s (as ++ bs) = (M.execFrom s as).bind fun s' => M.execFrom s' bs := by
  induction as generalizing s with
  | nil => rfl
  | cons a as ih =>
    simp only [List.cons_append, execFrom]
    cases M.step s a with
    | none => rfl
    | some s' => exact ih

/-- The last action of a run. -/
theorem execFrom_snoc :
    M.execFrom s (as ++ [a]) = some s' ↔ ∃ t, M.execFrom s as = some t ∧ M.step t a = some s' := by
  rw [execFrom_append, Option.bind_eq_some_iff]
  refine exists_congr fun t => and_congr_right fun _ => ?_
  simp only [execFrom]
  cases M.step t a <;> simp

/-- A beginning of a run is a run. -/
theorem exec_of_append (h : M.exec (as ++ bs) = some s) : ∃ s', M.exec as = some s' := by
  rw [exec, execFrom_append] at h
  obtain ⟨s', hs', -⟩ := Option.bind_eq_some_iff.mp h
  exact ⟨s', hs'⟩

/-- What holds before any action and is kept by every action holds after every
run from a state. -/
theorem invariantFrom {I : List α → σ → Prop} (h₀ : I [] s)
    (hstep : ∀ {as t a t'}, M.execFrom s as = some t → I as t → M.step t a = some t' → I (as ++ [a]) t')
    (h : M.execFrom s as = some s') : I as s' := by
  induction as using List.reverseRecOn generalizing s' with
  | nil => cases h; exact h₀
  | append_singleton as a ih =>
    obtain ⟨t, ht, ha⟩ := execFrom_snoc.mp h
    exact hstep ht (ih ht) ha

/-- What holds at the start and is kept by every action holds after every run. -/
theorem invariant {I : List α → σ → Prop} (h₀ : I [] M.init)
    (hstep : ∀ {as s a s'}, M.exec as = some s → I as s → M.step s a = some s' → I (as ++ [a]) s')
    (h : M.exec as = some s) : I as s := invariantFrom h₀ hstep h

/-- What every action sees of a run is a run of `P`, if `P` can follow each
action by what is seen of it. -/
theorem simulation {τ : Type*} {ε : Type*} {P : Machine τ ε} {trace : σ → List ε} {R : σ → τ → Prop}
    (h₀ : trace M.init = [] ∧ R M.init P.init)
    (hstep : ∀ {s a s' p}, M.step s a = some s' → R s p →
      ∃ es p', trace s' = trace s ++ es ∧ P.execFrom p es = some p' ∧ R s' p')
    (h : M.exec as = some s) : ∃ p, P.exec (trace s) = some p ∧ R s p := by
  refine invariant (I := fun _ s => ∃ p, P.exec (trace s) = some p ∧ R s p) ?_ ?_ h
  · exact ⟨P.init, by rw [h₀.1]; rfl, h₀.2⟩
  · rintro as s a s' - ⟨p, hp, hr⟩ ha
    obtain ⟨es, p', htr, hes, hr'⟩ := hstep ha hr
    refine ⟨p', ?_, hr'⟩
    rw [htr, exec, execFrom_append, show P.execFrom P.init (trace s) = some p from hp]
    exact hes

end Machine

/-! ## Traces -/

section Trace

variable {ε : Type u} {tr pre post : List ε} {a b e : ε}

/-- Where one more event can split a trace: at itself, or before it. -/
theorem snoc_split : tr ++ [e] = pre ++ b :: post ↔
    (e = b ∧ tr = pre ∧ post = []) ∨ ∃ post', post = post' ++ [e] ∧ tr = pre ++ b :: post' := by
  constructor
  · intro h
    rcases List.eq_nil_or_concat post with rfl | ⟨post', x, rfl⟩
    · obtain ⟨h₁, h₂⟩ := List.append_inj' h rfl
      exact .inl ⟨List.head_eq_of_cons_eq h₂, h₁, rfl⟩
    · have hx : tr ++ [e] = (pre ++ b :: post') ++ [x] := by simpa using h
      obtain ⟨h₁, h₂⟩ := List.append_inj' hx rfl
      exact .inr ⟨post', by rw [List.head_eq_of_cons_eq h₂, List.concat_eq_append], h₁⟩
  · rintro (⟨rfl, rfl, rfl⟩ | ⟨post', rfl, rfl⟩) <;> simp

/-- `b` is seen after an `a`. -/
def SeenAfter (tr : List ε) (a b : ε) : Prop := ∃ pre post, tr = pre ++ b :: post ∧ a ∈ pre

theorem not_seenAfter_nil : ¬ SeenAfter [] a b := by
  rintro ⟨pre, post, h, -⟩
  simp at h

theorem seenAfter_snoc : SeenAfter (tr ++ [e]) a b ↔ SeenAfter tr a b ∨ e = b ∧ a ∈ tr := by
  constructor
  · rintro ⟨pre, post, h, ha⟩
    rcases snoc_split.mp h with ⟨rfl, rfl, -⟩ | ⟨post', -, h'⟩
    · exact .inr ⟨rfl, ha⟩
    · exact .inl ⟨pre, post', h', ha⟩
  · rintro (⟨pre, post, rfl, ha⟩ | ⟨rfl, ha⟩)
    · exact ⟨pre, post ++ [e], by simp, ha⟩
    · exact ⟨tr, [], rfl, ha⟩

/-- One more event that is not `b`. -/
theorem seenAfter_snoc_of_ne (hne : e ≠ b) : SeenAfter (tr ++ [e]) a b ↔ SeenAfter tr a b := by
  rw [seenAfter_snoc]
  exact or_iff_left fun h => hne h.1

theorem SeenAfter.mem (h : SeenAfter tr a b) : a ∈ tr ∧ b ∈ tr := by
  obtain ⟨pre, post, rfl, ha⟩ := h
  exact ⟨List.mem_append_left _ ha, by simp⟩

end Trace

end SP
