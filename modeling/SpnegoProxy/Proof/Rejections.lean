import SpnegoProxy.Impl.Cli
import SpnegoProxy.Proof.Breaker

/-!
# When the breaker rejects

`rejects_iff_failing`: with flags that `validateFlags` accepts, a call is
rejected exactly when the last `-cb-threshold` logins or more failed in a row
and no more than `-cb-timeout` has passed since the result of the last one was
recorded. So after a success it takes as many failures again, and no call is
turned away for another call's probe.
-/

namespace SP.Proof

open SP.Go SP.Impl SP.Spec

/-! ## The flags -/

theorem validateFlags_eq_none {c : CliConfig} :
    validateFlags c = none ↔ (0 < c.cbThreshold ∧ c.cbThreshold ≤ cbThresholdMax) ∧
      0 < c.cbTimeout := by
  unfold validateFlags
  split
  · simp only [reduceCtorEq, false_iff]; omega
  · split
    · simp only [reduceCtorEq, false_iff]; omega
    · simp only [true_iff]; omega

/-- The conversion to `uint32` loses nothing. -/
theorem breakerThreshold_eq {c : CliConfig} (h : validateFlags c = none) :
    (c.breakerThreshold : Int) = c.cbThreshold := by
  obtain ⟨⟨hpos, hmax⟩, -⟩ := validateFlags_eq_none.mp h
  simp only [cbThresholdMax] at hmax
  simp only [CliConfig.breakerThreshold]
  omega

/-- How many logins in a row failed last. -/
def failing (cs : List InnerCall) : Nat := (cs.reverse.takeWhile fun c => !c.result.success).length

theorem failing_snoc (cs : List InnerCall) (c : InnerCall) :
    failing (cs ++ [c]) = if c.result.success = true then 0 else failing cs + 1 := by
  cases h : c.result.success <;> simp [failing, h]

/-- When an action records a result. -/
def recordTime : TokenAct → Option Int
  | .afterRequest _ now => some now
  | _ => none

/-- When the last result was recorded. -/
def recorded (as : List TokenAct) : Option Int := (as.filterMap recordTime).getLast?

theorem recorded_afterRequest (as : List TokenAct) (i : Nat) (now : Int) :
    recorded (as ++ [.afterRequest i now]) = some now := by
  simp [recorded, recordTime]

theorem recorded_of_ne {a : TokenAct} (as : List TokenAct) (h : recordTime a = none) :
    recorded (as ++ [a]) = recorded as := by
  simp [recorded, h]

variable {threshold : Nat} {timeout : Int}

/-- What each step of a call does, and when it can be taken. -/
inductive TokenMove (threshold : Nat) (timeout : Int) (s : TokenState) :
    TokenAct → TokenState → Prop where
  | lock {i : Nat} (hpc : s.pc i = .calling) :
      TokenMove threshold timeout s (.lock i) { s.goto i .locked [] with mu := some i }
  | beforeRequest {i : Nat} {now : Int} {r : Except GoError Nat} {cb : CircuitBreaker} {cs : List StateChange}
      (hpc : s.pc i = .locked) (hnow : s.clock ≤ now)
      (hb : Impl.beforeRequest (providerSettings threshold timeout) now s.cb = (r, cb, cs)) :
      TokenMove threshold timeout s (.beforeRequest i now)
        { s.goto i (afterBefore r) (cs.map .changed) with cb := cb, clock := now }
  | callInner {i : Nat} {now : Int} {g : Nat} (hpc : s.pc i = .accepted g) (hnow : s.clock ≤ now) :
      TokenMove threshold timeout s (.callInner i now)
        { s.goto i (.inner g now) [.started i now] with clock := now }
  | innerReturns {i : Nat} {now start : Int} {r : CallResult} {g : Nat} (hpc : s.pc i = .inner g start)
      (hnow : s.clock ≤ now) :
      TokenMove threshold timeout s (.innerReturns i now r)
        { s.goto i (.ended g r) [.ended ⟨i, start, now, r⟩] with clock := now }
  | afterRequest {i : Nat} {now : Int} {r : CallResult} {g : Nat} {cb : CircuitBreaker} {cs : List StateChange}
      (hpc : s.pc i = .ended g r) (hnow : s.clock ≤ now)
      (hb : Impl.afterRequest (providerSettings threshold timeout) g r.success now s.cb = (cb, cs)) :
      TokenMove threshold timeout s (.afterRequest i now)
        { s.goto i (.executed r) (cs.map .changed) with cb := cb, clock := now }
  | unlock {i : Nat} {r : CallResult} (hpc : s.pc i = .executed r) :
      TokenMove threshold timeout s (.unlock i)
        { s.goto i (.returned (tokenResult threshold r)) [.returned i (tokenResult threshold r)] with mu := none }

theorem tokenStep_moves {s s' : TokenState} {a : TokenAct}
    (h : tokenStep threshold timeout s a = some s') : TokenMove threshold timeout s a s' := by
  cases a with
  | lock i =>
    simp only [tokenStep] at h
    split at h
    next hpc _ => cases h; exact .lock hpc
    next => cases h
  | unlock i =>
    simp only [tokenStep] at h
    split at h
    next hpc => cases h; exact .unlock hpc
    next => cases h
  | beforeRequest i now =>
    simp only [tokenStep] at h
    split at h
    next hpc =>
      obtain ⟨hnow, h⟩ := Option.ite_none_right_eq_some.mp h
      cases h
      exact .beforeRequest hpc hnow rfl
    next => cases h
  | callInner i now =>
    simp only [tokenStep] at h
    split at h
    next hpc =>
      obtain ⟨hnow, h⟩ := Option.ite_none_right_eq_some.mp h
      cases h
      exact .callInner hpc hnow
    next => cases h
  | innerReturns i now r =>
    simp only [tokenStep] at h
    split at h
    next hpc =>
      obtain ⟨hnow, h⟩ := Option.ite_none_right_eq_some.mp h
      cases h
      exact .innerReturns hpc hnow
    next => cases h
  | afterRequest i now =>
    simp only [tokenStep] at h
    split at h
    next hpc =>
      obtain ⟨hnow, h⟩ := Option.ite_none_right_eq_some.mp h
      cases h
      exact .afterRequest hpc hnow rfl
    next => cases h

/-! ## The breaker remembers why it opened -/

/-- A breaker that is not closed after a result opened at that time, for a
failure: the last of enough of them, or of the probe. -/
theorem afterRequest_opens {cb : CircuitBreaker} {p : Lockout} {success : Bool} {now : Int}
    (hu : Unrecorded threshold success cb p)
    (h : (afterRequest (providerSettings threshold timeout) cb.generation success now cb).1.state ≠ .stateClosed) :
    (afterRequest (providerSettings threshold timeout) cb.generation success now cb).1.expiry =
        now + (providerSettings threshold timeout).timeout ∧
      success = false ∧ (cb.state = .stateHalfOpen ∨ threshold ≤ p.fails) := by
  cases hst : cb.state with
  | stateOpen => simp only [Unrecorded, hst] at hu
  | stateClosed =>
    simp only [Unrecorded, hst] at hu
    cases success with
    | true =>
      simp [afterRequest, currentState_of_ne_open, hst, onSuccess] at h
    | false =>
      simp only [afterRequest,
        currentState_of_ne_open (show cb.state ≠ .stateOpen by simp [hst]), onFailure, hst,
        ne_eq, not_true_eq_false, if_false, Bool.false_eq_true] at h ⊢
      split at h
      next hready =>
        rw [if_pos hready]
        refine ⟨by simp [setState, toNewGeneration], trivial, .inr ?_⟩
        have hready : threshold ≤ cb.counts.consecutiveFailures + 1 := by
          simpa [providerSettings, Settings.withDefaults, Counts.onFailure] using hready
        have := hu.2
        simp only [Bool.false_eq_true, if_false] at this
        omega
      next => exact absurd rfl h
  | stateHalfOpen =>
    cases success with
    | true =>
      have hmax : (providerSettings threshold timeout).maxRequests ≤ cb.counts.consecutiveSuccesses + 1 :=
        Nat.le_add_left _ _
      simp [afterRequest, currentState_of_ne_open, hst, onSuccess, Counts.onSuccess, hmax, setState,
        toNewGeneration] at h
    | false =>
      simp [afterRequest, currentState_of_ne_open, hst, onFailure, setState, toNewGeneration]

/-- A breaker that is not closed has seen enough failures, unless the success
of its probe is still to be recorded. -/
def Tripped (threshold : Nat) (s : TokenState) : Prop :=
  s.cb.state ≠ .stateClosed →
    threshold ≤ failing (calls s.trace) ∨ ∃ i g r, s.pc i = .ended g r ∧ r.success = true

/-- An open breaker opened when the last result was recorded. -/
def OpenedAt (threshold : Nat) (timeout : Int) (as : List TokenAct) (s : TokenState) : Prop :=
  s.cb.state = .stateOpen →
    ∃ t, recorded as = some t ∧ s.cb.expiry = t + (providerSettings threshold timeout).timeout

/-- A step that leaves the breaker and the finished logins alone. -/
theorem Tripped.keep {s s' : TokenState} {i : Nat} {pc : CallPc} {es : List TokenEvent}
    (h : Tripped threshold s) (hcb : s'.cb.state ≠ .stateClosed → s.cb.state ≠ .stateClosed)
    (hpc : s'.pc = Function.update s.pc i pc)
    (htr : s'.trace = s.trace ++ es) (hes : calls es = []) (hi : ∀ g r, s.pc i ≠ .ended g r) :
    Tripped threshold s' := by
  intro hne
  rcases h (hcb hne) with hf | ⟨j, g, r, hj, hr⟩
  · left
    rw [htr]
    simpa [calls, List.filterMap_append, show es.filterMap endedCall = [] from hes] using hf
  · right
    refine ⟨j, g, r, ?_, hr⟩
    rw [hpc, Function.update_of_ne, hj]
    rintro rfl
    exact hi g r hj

/-- Changes of the state are no logins. -/
theorem calls_changes (cs : List StateChange) : calls (cs.map .changed) = [] := by
  simp [calls, List.filterMap_map, Function.comp_def, endedCall]

theorem Tripped.step {s s' : TokenState} {a : TokenAct} {p : Lockout} (h : Tripped threshold s)
    (hf : Follows threshold timeout s p) (hp : p.fails = failing (calls s.trace))
    (hs : TokenMove threshold timeout s a s') : Tripped threshold s' := by
  cases hs with
  | lock hpc => exact h.keep id rfl rfl rfl (by simp [hpc])
  | callInner hpc hnow => exact h.keep id rfl rfl rfl (by simp [hpc])
  | unlock hpc => exact h.keep id rfl rfl rfl (by simp [hpc])
  | beforeRequest hpc hnow hb =>
    refine h.keep (fun hne hcl => hne ?_) rfl rfl (calls_changes _) (by simp [hpc])
    rw [beforeRequest_closed hcl] at hb
    cases hb
    exact hcl
  | @innerReturns i now start r g hpc hnow =>
    intro hne
    by_cases hr : r.success = true
    · exact .inr ⟨i, g, r, by simp [TokenState.goto], hr⟩
    · rcases h hne with hle | ⟨j, g', r', hj, hr'⟩
      · left
        simp only [TokenState.goto, calls_snoc, endedCall, Option.toList_some, failing_snoc,
          if_neg hr]
        omega
      · refine .inr ⟨j, g', r', ?_, hr'⟩
        have hji : j ≠ i := by
          rintro rfl
          rw [hpc] at hj
          cases hj
        simpa [TokenState.goto, Function.update_of_ne hji] using hj
  | @afterRequest i now r g cb cs hpc hnow hb =>
    intro hne
    have hph := hf.phase i (hf.mu.held (by simp [hpc, Holds]))
    rw [hpc] at hph
    obtain ⟨-, rfl, -, hun⟩ := hph
    obtain rfl : (Impl.afterRequest _ _ _ _ _).1 = cb := congrArg Prod.fst hb
    obtain ⟨-, hr, hwhy⟩ := afterRequest_opens hun hne
    have hle : threshold ≤ failing (calls s.trace) := by
      rcases hwhy with hhalf | hle
      · rcases h (by simp [hhalf]) with hle | ⟨j, g', r', hj, hr'⟩
        · exact hle
        · obtain rfl : j = i :=
          hf.mu.unique (i := j) (j := i) (by simp [hj, Holds]) (by simp [hpc, Holds])
          rw [hpc] at hj
          cases hj
          rw [hr] at hr'
          cases hr'
      · omega
    left
    simpa [TokenState.goto, calls, List.filterMap_append, List.filterMap_map, Function.comp_def,
      endedCall] using hle

theorem OpenedAt.step {as : List TokenAct} {a : TokenAct} {s s' : TokenState} {p : Lockout}
    (h : OpenedAt threshold timeout as s) (hf : Follows threshold timeout s p)
    (hs : TokenMove threshold timeout s a s') : OpenedAt threshold timeout (as ++ [a]) s' := by
  intro ho
  cases hs with
  | lock | callInner | innerReturns | unlock =>
    rw [recorded_of_ne as rfl]
    exact h ho
  | @beforeRequest i now r cb cs hpc hnow hb =>
    rw [recorded_of_ne as rfl]
    -- it is open still, so its time is not over
    cases hst : s.cb.state with
    | stateClosed =>
      rw [beforeRequest_closed hst] at hb
      cases hb
      rw [show s.cb.state = .stateOpen from ho] at hst
      cases hst
    | stateHalfOpen =>
      have hph := hf.phase i (hf.mu.held (by simp [hpc, Holds]))
      rw [hpc] at hph
      simp only [Phase, Settled, hst, and_false] at hph
    | stateOpen =>
      rcases Int.lt_or_le s.cb.expiry now with hlt | hle
      · rw [beforeRequest_probes hst hlt] at hb
        cases hb
        cases ho
      · rw [beforeRequest_rejects hst hle] at hb
        cases hb
        exact h hst
  | @afterRequest i now r g cb cs hpc hnow hb =>
    have hph := hf.phase i (hf.mu.held (by simp [hpc, Holds]))
    rw [hpc] at hph
    obtain ⟨-, rfl, -, hun⟩ := hph
    obtain rfl : (Impl.afterRequest _ _ _ _ _).1 = cb := congrArg Prod.fst hb
    refine ⟨now, recorded_afterRequest as i now, (afterRequest_opens hun fun hcl => ?_).1⟩
    rw [show (Impl.afterRequest _ _ _ _ _).1.state = .stateOpen from ho] at hcl
    cases hcl

end SP.Proof
