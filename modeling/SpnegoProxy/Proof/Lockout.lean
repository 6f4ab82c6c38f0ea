import SpnegoProxy.Spec.Lockout

/-!
# What the lockout policy bounds

In any part of a trace that keeps the policy and in which no login succeeds,
the failed logins are spaced from the `threshold`-th on, and at most
`threshold` more than the open periods that elapsed.
-/

namespace SP.Proof

open SP.Impl SP.Spec

variable {threshold : Nat} {timeout : Int}

theorem calls_snoc (tr : List TokenEvent) (e : TokenEvent) :
    calls (tr ++ [e]) = calls tr ++ (endedCall e).toList := by
  cases e <;> simp [calls, endedCall]

theorem elapsed_snoc (tr : List TokenEvent) (e : TokenEvent) :
    elapsed (tr ++ [e]) = elapsed tr + if elapsesEvent e = true then 1 else 0 := by
  simp [elapsed, List.countP_append, List.countP_singleton]

/-- One more login, which began late enough after the last one. -/
theorem Spaced.snoc {cs : List InnerCall} {c : InnerCall} (h : Spaced threshold timeout cs)
    (hc : ∀ l, cs.getLast? = some l → threshold ≤ cs.length → l.finish + timeout ≤ c.start) :
    Spaced threshold timeout (cs ++ [c]) := by
  intro k a b hk ha hb
  obtain ⟨hlt, -⟩ := List.getElem?_eq_some_iff.mp hb
  simp only [List.length_append, List.length_singleton] at hlt
  rw [List.getElem?_append_left (by omega)] at ha
  by_cases hend : k + 1 < cs.length
  · rw [List.getElem?_append_left hend] at hb
    exact h k a b hk ha hb
  · have hlen : cs.length = k + 1 := by omega
    rw [← hlen, List.getElem?_concat_length] at hb
    obtain rfl := Option.some.inj hb
    exact hc a (by rw [List.getLast?_eq_getElem?, hlen]; exact ha) (by omega)

/-- What the policy remembers after a part of a trace in which no login
succeeds. -/
structure Bounded (threshold : Nat) (timeout : Int) (tr : List TokenEvent) (p : Lockout) :
    Prop where
  fails : (calls tr).length ≤ p.fails
  count : (calls tr).length ≤ threshold + elapsed tr
  ready : p.elapsed = true → (calls tr).length < threshold + elapsed tr
  running : ∀ i t, p.running = some (i, t) → (calls tr).length < threshold + elapsed tr ∧
    (threshold ≤ (calls tr).length → p.last + timeout ≤ t)
  last : ∀ c, (calls tr).getLast? = some c → c.finish = p.last
  spaced : Spaced threshold timeout (calls tr)

namespace Bounded

variable {tr : List TokenEvent} {p p' : Lockout}

/-- A part of a trace can begin anywhere, also while a login runs. -/
theorem init (hth : 1 ≤ threshold) (p : Lockout) : Bounded threshold timeout [] p where
  fails := Nat.zero_le _
  count := Nat.zero_le _
  ready _ := hth
  running _ _ _ := ⟨hth, fun h => absurd hth (by simpa [calls] using h)⟩
  last _ h := by cases h
  spaced _ _ _ _ h := by simp [calls] at h

theorem started {i : Nat} {t : Int} (h : Bounded threshold timeout tr p)
    (hp : p.fails < threshold ∨ p.elapsed = true ∧ p.last + timeout ≤ t) :
    Bounded threshold timeout (tr ++ [.started i t]) { p with running := some (i, t) } := by
  have hcalls : calls (tr ++ [.started i t]) = calls tr := by simp [calls_snoc, endedCall]
  have hel : elapsed (tr ++ [.started i t]) = elapsed tr := by simp [elapsed_snoc, elapsesEvent]
  have hf := h.fails
  constructor <;> rw [hcalls] <;> try rw [hel]
  · exact hf
  · exact h.count
  · exact h.ready
  · intro _ _ hr
    obtain ⟨-, rfl⟩ := Prod.mk.inj (Option.some.inj hr)
    rcases hp with hlt | ⟨he, hle⟩
    · exact ⟨by omega, fun _ => by omega⟩
    · exact ⟨h.ready he, fun _ => hle⟩
  · exact h.last
  · exact h.spaced

theorem ended {c : InnerCall} (h : Bounded threshold timeout tr p)
    (hp : p.running = some (c.caller, c.start)) : Bounded threshold timeout (tr ++ [.ended c])
      { running := none, fails := p.fails + 1, last := c.finish, elapsed := false } := by
  have hcalls : calls (tr ++ [.ended c]) = calls tr ++ [c] := by simp [calls_snoc, endedCall]
  have hel : elapsed (tr ++ [.ended c]) = elapsed tr := by simp [elapsed_snoc, elapsesEvent]
  have hf := h.fails
  obtain ⟨hcount, hlate⟩ := h.running _ _ hp
  constructor <;> rw [hcalls] <;> try rw [hel]
  · simpa using hf
  · simpa using Nat.succ_le_of_lt hcount
  · exact fun he => absurd he (by simp)
  · exact fun _ _ hr => absurd hr (by simp)
  · intro l hl
    simp only [List.getLast?_concat, Option.some.injEq] at hl
    rw [hl]
  · refine Spaced.snoc h.spaced fun l hl hle => ?_
    rw [h.last l hl]
    exact hlate hle

theorem changed {c : StateChange} (h : Bounded threshold timeout tr p) :
    Bounded threshold timeout (tr ++ [.changed c]) { p with elapsed := p.elapsed || elapses c } := by
  have hcalls : calls (tr ++ [.changed c]) = calls tr := by simp [calls_snoc, endedCall]
  have hel : elapsed (tr ++ [.changed c]) = elapsed tr + if elapses c = true then 1 else 0 := elapsed_snoc _ _
  have hcount := h.count
  constructor <;> rw [hcalls] <;> try rw [hel]
  · exact h.fails
  · omega
  · intro he
    rcases Bool.or_eq_true _ _ ▸ he with ho | hc
    · have := h.ready ho
      omega
    · rw [if_pos hc]
      omega
  · intro i t hr
    exact ⟨Nat.lt_of_lt_of_le (h.running i t hr).1 (by omega), (h.running i t hr).2⟩
  · exact h.last
  · exact h.spaced

theorem returned {i : Nat} {r : CallResult} (h : Bounded threshold timeout tr p) :
    Bounded threshold timeout (tr ++ [.returned i r]) p := by
  have hcalls : calls (tr ++ [.returned i r]) = calls tr := by simp [calls_snoc, endedCall]
  have hel : elapsed (tr ++ [.returned i r]) = elapsed tr := by simp [elapsed_snoc, elapsesEvent]
  constructor <;> rw [hcalls] <;> try rw [hel]
  exacts [h.fails, h.count, h.ready, h.running, h.last, h.spaced]

/-- One event more. -/
theorem step {e : TokenEvent} (h : Bounded threshold timeout tr p)
    (he : ∀ c, endedCall e = some c → c.result.success = false)
    (hs : lockoutStep threshold timeout p e = some p') : Bounded threshold timeout (tr ++ [e]) p' := by
  cases e with
  | started i t =>
    obtain ⟨⟨-, hp⟩, hs⟩ := Option.ite_none_right_eq_some.mp hs
    obtain rfl := Option.some.inj hs
    exact h.started hp
  | ended c =>
    obtain ⟨hp, hs⟩ := Option.ite_none_right_eq_some.mp hs
    obtain rfl := Option.some.inj hs
    rw [he c rfl]
    exact h.ended hp
  | changed c => cases hs; exact h.changed
  | returned i r => cases hs; exact h.returned

end Bounded

/-- Any part of a trace that keeps the policy. -/
theorem lockout_bounded (hth : 1 ≤ threshold) {pre part post : List TokenEvent} {p : Lockout}
    (h : (lockout threshold timeout).exec (pre ++ part ++ post) = some p)
    (hfail : ∀ c ∈ calls part, c.result.success = false) :
    Spaced threshold timeout (calls part) ∧ (calls part).length ≤ threshold + elapsed part := by
  obtain ⟨q, hq⟩ := Machine.exec_of_append h
  rw [Machine.exec, Machine.execFrom_append] at hq
  obtain ⟨q₀, -, hpart⟩ := Option.bind_eq_some_iff.mp hq
  have hb : (∀ c ∈ calls part, c.result.success = false) → Bounded threshold timeout part q := by
    refine Machine.invariantFrom (I := fun tr q => (∀ c ∈ calls tr, c.result.success = false) →
      Bounded threshold timeout tr q) (fun _ => Bounded.init hth q₀) ?_ hpart
    intro tr t e t' _ ih hs hall
    rw [calls_snoc] at hall
    refine (ih fun c hc => hall c (List.mem_append_left _ hc)).step (fun c hc => hall c ?_) hs
    simp [hc]
  exact ⟨(hb hfail).spaced, (hb hfail).count⟩

end SP.Proof
