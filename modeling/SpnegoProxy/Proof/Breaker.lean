import SpnegoProxy.Framework.Mutex
import SpnegoProxy.Proof.Lockout

/-!
# The breaker keeps the lockout policy

`p.mu` is held across `Execute`, so at most one call is between
`beforeRequest` and `afterRequest`, and its generation is still the current
one when its result is recorded. `Follows` relates the provider to the policy
at each place that call can be.
-/

namespace SP.Proof

open SP.Go SP.Impl SP.Spec

variable {threshold : Nat} {timeout : Int}

/-- Any number of concurrent calls of `GetToken`. -/
def provider (threshold : Nat) (timeout : Int) : Machine TokenState TokenAct :=
  ⟨{}, tokenStep threshold timeout⟩

/-! ## The breaker, state by state -/

section Breaker

variable {cb : CircuitBreaker} {now : Int} {g : Nat}

theorem timeout_le (threshold : Nat) (timeout : Int) :
    timeout ≤ (providerSettings threshold timeout).timeout := by
  simp only [providerSettings, Settings.withDefaults, defaultTimeout]
  split <;> omega

theorem currentState_of_ne_open {st : Settings} (h : cb.state ≠ .stateOpen) :
    currentState st now cb = (cb, []) := by
  simp [currentState, h]

theorem beforeRequest_closed (h : cb.state = .stateClosed) :
    beforeRequest (providerSettings threshold timeout) now cb =
      (.ok cb.generation, { cb with counts := cb.counts.onRequest }, []) := by
  simp [beforeRequest, currentState_of_ne_open, h]

theorem beforeRequest_rejects (h : cb.state = .stateOpen) (hnow : now ≤ cb.expiry) :
    beforeRequest (providerSettings threshold timeout) now cb = (.error errOpenState, cb, []) := by
  simp [beforeRequest, currentState, h, Int.not_lt.mpr hnow]

/-- An open breaker whose time is over lets one probe through. -/
theorem beforeRequest_probes (h : cb.state = .stateOpen) (hnow : cb.expiry < now) :
    beforeRequest (providerSettings threshold timeout) now cb =
      (.ok (cb.generation + 1), ⟨.stateHalfOpen, cb.generation + 1, ⟨1, 0, 0⟩, 0⟩,
        [⟨.stateOpen, .stateHalfOpen⟩]) := by
  simp [beforeRequest, currentState, setState, toNewGeneration, Counts.onRequest, providerSettings,
    Settings.withDefaults, h, hnow]

/-- No call is between `beforeRequest` and `afterRequest`. -/
def Settled (threshold : Nat) (timeout : Int) (cb : CircuitBreaker) (p : Lockout) : Prop :=
  match cb.state with
  | .stateClosed => cb.counts.consecutiveFailures = p.fails ∧ p.fails < threshold
  | .stateHalfOpen => False
  | .stateOpen => p.last + timeout ≤ cb.expiry

/-- A call was let through and has not begun. -/
def LetThrough (threshold : Nat) (timeout : Int) (clock : Int) (cb : CircuitBreaker) (p : Lockout) : Prop :=
  match cb.state with
  | .stateClosed => cb.counts.consecutiveFailures = p.fails ∧ p.fails < threshold
  | .stateHalfOpen => p.elapsed = true ∧ p.last + timeout ≤ clock
  | .stateOpen => False

/-- A call runs. -/
def Busy (threshold : Nat) (cb : CircuitBreaker) (p : Lockout) : Prop :=
  match cb.state with
  | .stateClosed => cb.counts.consecutiveFailures = p.fails ∧ p.fails < threshold
  | .stateHalfOpen => True
  | .stateOpen => False

/-- A call has ended and is not recorded yet. -/
def Unrecorded (threshold : Nat) (success : Bool) (cb : CircuitBreaker) (p : Lockout) : Prop :=
  match cb.state with
  | .stateClosed => cb.counts.consecutiveFailures < threshold ∧
      p.fails = if success = true then 0 else cb.counts.consecutiveFailures + 1
  | .stateHalfOpen => success = true → p.fails = 0
  | .stateOpen => False

/-- A breaker that opens stays open for the timeout. -/
theorem settled_open {p : Lockout} (h : cb.state ≠ .stateOpen) (hnow : p.last ≤ now) :
    Settled threshold timeout (setState (providerSettings threshold timeout) .stateOpen now cb).1 p := by
  have ht := timeout_le threshold timeout
  rw [setState, if_neg h]
  simp only [Settled, toNewGeneration, if_true]
  omega

theorem settled_closed {p : Lockout} (hth : 1 ≤ threshold) (h : cb.state ≠ .stateClosed)
    (hp : p.fails = 0) :
    Settled threshold timeout (setState (providerSettings threshold timeout) .stateClosed now cb).1 p := by
  rw [setState, if_neg h]
  simp only [Settled, toNewGeneration]
  omega

theorem afterRequest_failure {p : Lockout} (h : Unrecorded threshold false cb p)
    (hnow : p.last ≤ now) :
    Settled threshold timeout (afterRequest (providerSettings threshold timeout) cb.generation false now cb).1 p := by
  cases hst : cb.state with
  | stateClosed =>
    simp only [Unrecorded, hst, Bool.false_eq_true, if_false] at h
    simp only [afterRequest,
      currentState_of_ne_open (show cb.state ≠ .stateOpen by simp [hst]), onFailure, hst,
      ne_eq, not_true_eq_false, if_false, Bool.false_eq_true, Counts.onFailure]
    split
    next => exact settled_open (by simp) hnow
    next hn =>
      have hn : ¬ threshold ≤ cb.counts.consecutiveFailures + 1 := by
        simpa [providerSettings, Settings.withDefaults] using hn
      simp only [Settled]
      omega
  | stateHalfOpen =>
    simp only [afterRequest,
      currentState_of_ne_open (show cb.state ≠ .stateOpen by simp [hst]), onFailure, hst,
      ne_eq, not_true_eq_false, if_false, Bool.false_eq_true]
    exact settled_open (by simp [hst]) hnow
  | stateOpen => simp only [Unrecorded, hst] at h

theorem afterRequest_success {p : Lockout} (hth : 1 ≤ threshold)
    (h : Unrecorded threshold true cb p) :
    Settled threshold timeout (afterRequest (providerSettings threshold timeout) cb.generation true now cb).1 p := by
  cases hst : cb.state with
  | stateClosed =>
    simp only [Unrecorded, hst, if_true] at h
    simp only [afterRequest,
      currentState_of_ne_open (show cb.state ≠ .stateOpen by simp [hst]), onSuccess, hst,
      ne_eq, not_true_eq_false, if_false, if_true, Counts.onSuccess, Settled]
    omega
  | stateHalfOpen =>
    simp only [Unrecorded, hst, forall_const] at h
    have hmax : (providerSettings threshold timeout).maxRequests ≤ cb.counts.consecutiveSuccesses + 1 :=
      Nat.le_add_left _ _
    simp only [afterRequest,
      currentState_of_ne_open (show cb.state ≠ .stateOpen by simp [hst]), onSuccess, hst,
      ne_eq, not_true_eq_false, if_false, if_true, Counts.onSuccess, hmax]
    exact settled_closed hth (by simp) h
  | stateOpen => simp only [Unrecorded, hst] at h

end Breaker

/-! ## The provider follows the policy -/

/-- The call holds `p.mu`. -/
def Holds : CallPc → Prop
  | .calling | .returned _ => False
  | _ => True

/-- The policy when the call `i`, which holds `p.mu`, is at a place. -/
def Phase (threshold : Nat) (timeout : Int) (s : TokenState) (p : Lockout) (i : Nat) : CallPc → Prop
  | .accepted g => p.running = none ∧ g = s.cb.generation ∧ LetThrough threshold timeout s.clock s.cb p
  | .inner g t => p.running = some (i, t) ∧ g = s.cb.generation ∧ Busy threshold s.cb p
  | .ended g r => p.running = none ∧ g = s.cb.generation ∧ p.last ≤ s.clock ∧ Unrecorded threshold r.success s.cb p
  | _ => p.running = none ∧ Settled threshold timeout s.cb p

structure Follows (threshold : Nat) (timeout : Int) (s : TokenState) (p : Lockout) : Prop where
  mu : Owned s.mu fun i => Holds (s.pc i)
  free : s.mu = none → p.running = none ∧ Settled threshold timeout s.cb p
  phase : ∀ i, s.mu = some i → Phase threshold timeout s p i (s.pc i)

/-- The policy after changes that `OnStateChange` logged. -/
def Lockout.afterChanges (p : Lockout) (cs : List StateChange) : Lockout :=
  { p with elapsed := p.elapsed || cs.any elapses }

theorem lockout_changes (p : Lockout) (cs : List StateChange) :
    (lockout threshold timeout).execFrom p (cs.map .changed) = some (Lockout.afterChanges p cs) := by
  induction cs generalizing p with
  | nil => simp [Machine.execFrom, Lockout.afterChanges]
  | cons c cs ih =>
    simp only [List.map_cons, Machine.execFrom, lockout, lockoutStep, Option.bind_some]
    rw [← lockout, ih]
    simp [Lockout.afterChanges, Bool.or_assoc]

namespace Follows

variable {s s' : TokenState} {p p' : Lockout} {i : Nat} {pc : CallPc}

theorem init (hth : 1 ≤ threshold) : Follows threshold timeout (provider threshold timeout).init
    (lockout threshold timeout).init where
  mu _ := ⟨fun h => (nomatch h), fun h => h.elim⟩
  free _ := ⟨rfl, rfl, hth⟩
  phase _ h := (nomatch h)

theorem holds_update (s : TokenState) (i : Nat) (pc : CallPc) {j : Nat} (hj : j ≠ i) :
    Holds (Function.update s.pc i pc j) ↔ Holds (s.pc j) := by
  rw [Function.update_of_ne hj]

/-- The call that holds `p.mu` goes on. -/
theorem move (h : Follows threshold timeout s p) (hi : s.mu = some i) (hmu : s'.mu = s.mu)
    (hpc : s'.pc = Function.update s.pc i pc) (hold : Holds pc)
    (hph : Phase threshold timeout s' p' i pc) : Follows threshold timeout s' p' where
  mu := by
    rw [hmu, hpc]
    refine h.mu.keep fun j => ?_
    by_cases hj : j = i
    · subst hj
      simp [hold, (h.mu j).mp hi]
    · exact holds_update s i pc hj
  free hn := by rw [hmu, hi] at hn; cases hn
  phase j hj := by
    rw [hmu, hi] at hj
    obtain rfl := Option.some.inj hj
    rw [hpc, Function.update_self]
    exact hph

/-- The lock is taken by a call that waited for it. -/
theorem lock (h : Follows threshold timeout s p) (hn : s.mu = none) :
    Follows threshold timeout { s.goto i .locked [] with mu := some i } p where
  mu := (hn ▸ h.mu).acquire (by simp [TokenState.goto, Holds]) fun _ hj => holds_update s i _ hj
  free hn := by cases hn
  phase j hj := by
    obtain rfl := Option.some.inj hj
    simpa [TokenState.goto, Phase] using h.free hn

theorem unlock {r : CallResult} {es : List TokenEvent} (h : Follows threshold timeout s p)
    (hi : s.mu = some i) (hph : p.running = none ∧ Settled threshold timeout s.cb p) :
    Follows threshold timeout { s.goto i (.returned r) es with mu := none } p where
  mu := (hi ▸ h.mu).release (by simp [TokenState.goto, Holds]) fun _ hj => holds_update s i _ hj
  free _ := hph
  phase j hj := by cases hj

/-- The policy follows what is seen of a step. -/
def Matched (threshold : Nat) (timeout : Int) (s s' : TokenState) (p : Lockout) : Prop :=
  ∃ es p', s'.trace = s.trace ++ es ∧ (lockout threshold timeout).execFrom p es = some p' ∧
    Follows threshold timeout s' p'

/-- `beforeRequest` rejects, lets a call of a closed breaker through, or makes
it the probe of an open one. -/
theorem beforeRequest_ok {now : Int} (h : Follows threshold timeout s p) (hpc : s.pc i = .locked)
    (hs : tokenStep threshold timeout s (.beforeRequest i now) = some s') :
    Matched threshold timeout s s' p := by
  have hi : s.mu = some i := h.mu.held (by simp [hpc, Holds])
  have hph := h.phase i hi
  rw [hpc] at hph
  obtain ⟨hrun, hset⟩ := hph
  simp only [tokenStep, hpc] at hs
  obtain ⟨hnow, hs⟩ := Option.ite_none_right_eq_some.mp hs
  obtain rfl := Option.some.inj hs
  refine ⟨_, _, rfl, lockout_changes _ _, h.move hi rfl rfl ?_ ?_⟩
  · cases (beforeRequest (providerSettings threshold timeout) now s.cb).1 <;> trivial
  · cases hst : s.cb.state with
    | stateClosed =>
      rw [beforeRequest_closed hst]
      simp only [Settled, hst] at hset
      refine ⟨hrun, rfl, ?_⟩
      simpa [LetThrough, hst, Counts.onRequest, Lockout.afterChanges] using hset
    | stateHalfOpen => simp only [Settled, hst] at hset
    | stateOpen =>
      simp only [Settled, hst] at hset
      rcases Int.lt_or_le s.cb.expiry now with hlt | hle
      · rw [beforeRequest_probes hst hlt]
        refine ⟨hrun, rfl, ?_, ?_⟩
        · simp [Lockout.afterChanges, elapses]
        · simp only [Lockout.afterChanges]
          omega
      · rw [beforeRequest_rejects hst hle]
        refine ⟨hrun, ?_⟩
        simpa [Settled, hst, Lockout.afterChanges] using hset

theorem callInner_ok {now : Int} {g : Nat} (h : Follows threshold timeout s p)
    (hpc : s.pc i = .accepted g) (hs : tokenStep threshold timeout s (.callInner i now) = some s') :
    Matched threshold timeout s s' p := by
  have hi : s.mu = some i := h.mu.held (by simp [hpc, Holds])
  have hph := h.phase i hi
  rw [hpc] at hph
  obtain ⟨hrun, hg, hready⟩ := hph
  simp only [tokenStep, hpc] at hs
  obtain ⟨hnow, hs⟩ := Option.ite_none_right_eq_some.mp hs
  obtain rfl := Option.some.inj hs
  have hmay : p.fails < threshold ∨ p.elapsed = true ∧ p.last + timeout ≤ now := by
    cases hst : s.cb.state with
    | stateClosed => simp only [LetThrough, hst] at hready; exact .inl hready.2
    | stateHalfOpen => simp only [LetThrough, hst] at hready; exact .inr ⟨hready.1, by omega⟩
    | stateOpen => simp only [LetThrough, hst] at hready
  refine ⟨_, { p with running := some (i, now) }, rfl, ?_, h.move hi rfl rfl trivial ⟨rfl, hg, ?_⟩⟩
  · simp [Machine.execFrom, lockout, lockoutStep, hrun, hmay]
  · cases hst : s.cb.state with
    | stateClosed => simpa [Busy, LetThrough, TokenState.goto, hst] using hready
    | stateHalfOpen => simp [Busy, TokenState.goto, hst]
    | stateOpen => simp only [LetThrough, hst] at hready

theorem innerReturns_ok {now start : Int} {g : Nat} {r : CallResult}
    (h : Follows threshold timeout s p) (hpc : s.pc i = .inner g start)
    (hs : tokenStep threshold timeout s (.innerReturns i now r) = some s') :
    Matched threshold timeout s s' p := by
  have hi : s.mu = some i := h.mu.held (by simp [hpc, Holds])
  have hph := h.phase i hi
  rw [hpc] at hph
  obtain ⟨hrun, hg, hbusy⟩ := hph
  simp only [tokenStep, hpc] at hs
  obtain ⟨hnow, hs⟩ := Option.ite_none_right_eq_some.mp hs
  obtain rfl := Option.some.inj hs
  refine ⟨_, ⟨none, if r.success then 0 else p.fails + 1, now, false⟩, rfl, ?_,
    h.move hi rfl rfl trivial ⟨rfl, hg, Int.le_refl _, ?_⟩⟩
  · simp [Machine.execFrom, lockout, lockoutStep, hrun]
  · cases hst : s.cb.state with
    | stateClosed =>
      simp only [Busy, hst] at hbusy
      simp only [Unrecorded, TokenState.goto, hst]
      rw [hbusy.1]
      exact ⟨hbusy.2, rfl⟩
    | stateHalfOpen =>
      simp only [Unrecorded, TokenState.goto, hst]
      exact fun hr => if_pos hr
    | stateOpen => simp only [Busy, hst] at hbusy

theorem afterRequest_ok {now : Int} {g : Nat} {r : CallResult} (hth : 1 ≤ threshold)
    (h : Follows threshold timeout s p) (hpc : s.pc i = .ended g r)
    (hs : tokenStep threshold timeout s (.afterRequest i now) = some s') :
    Matched threshold timeout s s' p := by
  have hi : s.mu = some i := h.mu.held (by simp [hpc, Holds])
  have hph := h.phase i hi
  rw [hpc] at hph
  obtain ⟨hrun, rfl, hlast, hun⟩ := hph
  simp only [tokenStep, hpc] at hs
  obtain ⟨hnow, hs⟩ := Option.ite_none_right_eq_some.mp hs
  obtain rfl := Option.some.inj hs
  refine ⟨_, _, rfl, lockout_changes _ _, h.move hi rfl rfl trivial ⟨hrun, ?_⟩⟩
  cases hr : r.success with
  | false =>
    rw [hr] at hun
    exact afterRequest_failure (p := p) hun (Int.le_trans hlast hnow)
  | true =>
    rw [hr] at hun
    exact afterRequest_success (p := p) hth hun

/-- Each step of a call. -/
theorem step {a : TokenAct} (hth : 1 ≤ threshold) (h : Follows threshold timeout s p)
    (hs : tokenStep threshold timeout s a = some s') : Matched threshold timeout s s' p := by
  cases a with
  | lock i =>
    simp only [tokenStep] at hs
    split at hs
    next hpc hmu =>
      obtain rfl := Option.some.inj hs
      exact ⟨[], p, rfl, rfl, h.lock hmu⟩
    next => cases hs
  | beforeRequest i now =>
    cases hpc : s.pc i with
    | locked => exact h.beforeRequest_ok hpc hs
    | _ => simp [tokenStep, hpc] at hs
  | callInner i now =>
    cases hpc : s.pc i with
    | accepted g => exact h.callInner_ok hpc hs
    | _ => simp [tokenStep, hpc] at hs
  | innerReturns i now r =>
    cases hpc : s.pc i with
    | inner g start => exact h.innerReturns_ok hpc hs
    | _ => simp [tokenStep, hpc] at hs
  | afterRequest i now =>
    cases hpc : s.pc i with
    | ended g r => exact h.afterRequest_ok hth hpc hs
    | _ => simp [tokenStep, hpc] at hs
  | unlock i =>
    cases hpc : s.pc i with
    | executed r =>
      have hi : s.mu = some i := h.mu.held (by simp [hpc, Holds])
      have hph := h.phase i hi
      rw [hpc] at hph
      simp only [tokenStep, hpc] at hs
      obtain rfl := Option.some.inj hs
      exact ⟨_, p, rfl, rfl, h.unlock hi hph⟩
    | _ => simp [tokenStep, hpc] at hs

end Follows

/-- The provider refines the lockout policy. -/
theorem provider_follows (hth : 1 ≤ threshold) {as : List TokenAct} {s : TokenState}
    (h : (provider threshold timeout).exec as = some s) :
    ∃ p, (lockout threshold timeout).exec s.trace = some p ∧ Follows threshold timeout s p :=
  Machine.simulation ⟨rfl, Follows.init hth⟩ (fun hs hf => Follows.step hth hf hs) h

/-! ## Who is rejected -/

/-- The wrapped provider's own errors do not wrap `gobreaker`'s sentinels. -/
def Foreign : CallResult → Prop
  | .error e => e.chain.any ErrNode.isSentinel = false
  | _ => True

/-- A chain without a sentinel has no `*CircuitBreakerError`, which would wrap one. -/
theorem no_circuitBreaker {ns : List ErrNode} (hw : ErrNode.wrapsSentinel ns = true)
    (hn : ∀ n ∈ ns, n.isSentinel = false) : ns.any ErrNode.isCircuitBreaker = false := by
  induction ns with
  | nil => rfl
  | cons n ns ih =>
    simp only [ErrNode.wrapsSentinel, Bool.and_eq_true, Bool.or_eq_true, Bool.not_eq_true'] at hw
    have htail : ∀ m ∈ ns, m.isSentinel = false := fun m hm => hn m (List.mem_cons_of_mem _ hm)
    have hany : ns.any ErrNode.isSentinel = false := by simpa using htail
    simpa [ih hw.2 htail, hany] using hw.1

theorem not_rejection_of_foreign {r : CallResult} (h : Foreign r) :
    (tokenResult threshold r).rejection = false := by
  cases r with
  | token t => rfl
  | panicked => rfl
  | error e =>
    have hno : ∀ n ∈ e.chain, n.isSentinel = false := by simpa [Foreign] using h
    have ho : e.is .openState = false := by
      simp only [GoError.is, List.contains_eq_mem, decide_eq_false_iff_not]
      exact fun hm => (nomatch hno _ hm)
    have ht : e.is .tooManyRequests = false := by
      simp only [GoError.is, List.contains_eq_mem, decide_eq_false_iff_not]
      exact fun hm => (nomatch hno _ hm)
    simp only [tokenResult, ho, ht, Bool.false_eq_true, dite_false, CallResult.rejection]
    exact no_circuitBreaker e.wraps hno

theorem rejection_of_beforeRequest {st : Settings} {now : Int} {cb : CircuitBreaker} {e : GoError}
    (h : (beforeRequest st now cb).1 = .error e) :
    (tokenResult threshold (.error e)).rejection = true := by
  simp only [beforeRequest] at h
  split at h
  · cases h; rfl
  · split at h
    · cases h; rfl
    · cases h

/-- The call `i` made an inner call. -/
def Made (tr : List TokenEvent) (i : Nat) : Prop := ∃ t, .started i t ∈ tr

/-- What a call has done when it is at a place. -/
def Answered (threshold : Nat) (tr : List TokenEvent) (i : Nat) : CallPc → Prop
  | .calling | .locked | .accepted _ => ¬ Made tr i ∧ ∀ r, .returned i r ∉ tr
  | .inner _ _ => Made tr i ∧ ∀ r, .returned i r ∉ tr
  | .ended _ r => Foreign r ∧ Made tr i ∧ ∀ r, .returned i r ∉ tr
  | .executed r => ((tokenResult threshold r).rejection = true ↔ ¬ Made tr i) ∧ ∀ r, .returned i r ∉ tr
  | .returned _ => ∀ r, .returned i r ∈ tr → (r.rejection = true ↔ ¬ Made tr i)

/-- The call that an event is of. -/
def owner : TokenEvent → Option Nat
  | .started i _ => some i
  | .returned i _ => some i
  | .ended _ | .changed _ => none

section Answered

variable {tr es : List TokenEvent} {i : Nat} {pc : CallPc}

theorem made_append (h : ∀ e ∈ es, owner e ≠ some i) : Made (tr ++ es) i ↔ Made tr i := by
  refine exists_congr fun t => ?_
  rw [List.mem_append, or_iff_left]
  exact fun hm => h _ hm rfl

theorem returned_mem_append {r : CallResult} (h : ∀ e ∈ es, owner e ≠ some i) :
    .returned i r ∈ tr ++ es ↔ .returned i r ∈ tr := by
  rw [List.mem_append, or_iff_left]
  exact fun hm => h _ hm rfl

/-- Events of other calls change nothing. -/
theorem answered_append (h : ∀ e ∈ es, owner e ≠ some i) :
    Answered threshold (tr ++ es) i pc ↔ Answered threshold tr i pc := by
  cases pc <;> simp only [Answered, made_append h, returned_mem_append h]

/-- The call `i` goes on, and only its own events are seen. -/
theorem answered_goto {s : TokenState} (h : ∀ j, Answered threshold s.trace j (s.pc j))
    (hes : ∀ e ∈ es, ∀ j, j ≠ i → owner e ≠ some j) (hi : Answered threshold (s.trace ++ es) i pc)
    (j : Nat) : Answered threshold (s.goto i pc es).trace j ((s.goto i pc es).pc j) := by
  by_cases hj : j = i
  · subst hj
    simpa [TokenState.goto] using hi
  · simp only [TokenState.goto, Function.update_of_ne hj]
    exact (answered_append fun e he => hes e he j hj).mpr (h j)

theorem owner_changed {cs : List StateChange} {j : Nat} :
    ∀ e ∈ cs.map TokenEvent.changed, owner e ≠ some j := by
  simp [owner]

theorem answered_step {s s' : TokenState} {a : TokenAct}
    (h : ∀ j, Answered threshold s.trace j (s.pc j))
    (ha : ∀ i now r, a = .innerReturns i now r → Foreign r)
    (hs : tokenStep threshold timeout s a = some s') :
    ∀ j, Answered threshold s'.trace j (s'.pc j) := by
  cases a with
  | lock i =>
    simp only [tokenStep] at hs
    split at hs
    next hpc _ =>
      obtain rfl := Option.some.inj hs
      have hi := h i
      rw [hpc] at hi
      exact answered_goto h (by simp) (by rw [List.append_nil]; exact hi)
    next => cases hs
  | beforeRequest i now =>
    have hi := h i
    cases hpc : s.pc i with
    | locked =>
      rw [hpc] at hi
      simp only [tokenStep, hpc] at hs
      obtain ⟨-, hs⟩ := Option.ite_none_right_eq_some.mp hs
      obtain rfl := Option.some.inj hs
      refine answered_goto h (fun e he j _ => owner_changed e he) ((answered_append owner_changed).mpr ?_)
      cases hb : (beforeRequest (providerSettings threshold timeout) now s.cb).1 with
      | ok g => exact hi
      | error e => exact ⟨iff_of_true (rejection_of_beforeRequest hb) hi.1, hi.2⟩
    | _ => simp [tokenStep, hpc] at hs
  | callInner i now =>
    have hi := h i
    cases hpc : s.pc i with
    | accepted g =>
      rw [hpc] at hi
      simp only [tokenStep, hpc] at hs
      obtain ⟨-, hs⟩ := Option.ite_none_right_eq_some.mp hs
      obtain rfl := Option.some.inj hs
      refine answered_goto h (fun e he j hj => ?_) ⟨⟨now, by simp⟩, by simpa using hi.2⟩
      rw [List.mem_singleton.mp he]
      exact fun e => hj (Option.some.inj e).symm
    | _ => simp [tokenStep, hpc] at hs
  | innerReturns i now r =>
    have hi := h i
    cases hpc : s.pc i with
    | inner g start =>
      rw [hpc] at hi
      simp only [tokenStep, hpc] at hs
      obtain ⟨-, hs⟩ := Option.ite_none_right_eq_some.mp hs
      obtain rfl := Option.some.inj hs
      have hown : ∀ j, ∀ e ∈ [TokenEvent.ended ⟨i, start, now, r⟩], owner e ≠ some j :=
        by simp [owner]
      refine answered_goto h (fun e he j _ => hown j e he) ((answered_append (hown i)).mpr ?_)
      exact ⟨ha i now r rfl, hi⟩
    | _ => simp [tokenStep, hpc] at hs
  | afterRequest i now =>
    have hi := h i
    cases hpc : s.pc i with
    | ended g r =>
      rw [hpc] at hi
      simp only [tokenStep, hpc] at hs
      obtain ⟨-, hs⟩ := Option.ite_none_right_eq_some.mp hs
      obtain rfl := Option.some.inj hs
      refine answered_goto h (fun e he j _ => owner_changed e he) ((answered_append owner_changed).mpr ?_)
      exact ⟨iff_of_false (by simp [not_rejection_of_foreign hi.1]) (fun hn => hn hi.2.1), hi.2.2⟩
    | _ => simp [tokenStep, hpc] at hs
  | unlock i =>
    have hi := h i
    cases hpc : s.pc i with
    | executed r =>
      rw [hpc] at hi
      simp only [tokenStep, hpc] at hs
      obtain rfl := Option.some.inj hs
      refine answered_goto h (fun e he j hj => ?_) fun r' hr' => ?_
      · rw [List.mem_singleton.mp he]
        exact fun e => hj (Option.some.inj e).symm
      · have hr : r' = tokenResult threshold r := by simpa [hi.2] using hr'
        have hmade : Made (s.trace ++ [.returned i (tokenResult threshold r)]) i ↔ Made s.trace i :=
          by simp [Made]
        rw [hr, hmade]
        exact hi.1
    | _ => simp [tokenStep, hpc] at hs

end Answered

/-- No call is rejected but by the breaker, and by it before any inner call. -/
theorem provider_answered {as : List TokenAct} {s : TokenState}
    (h : (provider threshold timeout).exec as = some s)
    (hin : ∀ i now r, .innerReturns i now r ∈ as → Foreign r) (i : Nat) :
    Answered threshold s.trace i (s.pc i) := by
  refine Machine.invariant (I := fun as s => (∀ i now r, .innerReturns i now r ∈ as → Foreign r) →
    ∀ i, Answered threshold s.trace i (s.pc i)) ?_ ?_ h hin i
  · exact fun _ i => ⟨fun ⟨t, ht⟩ => (nomatch ht), fun r hr => (nomatch hr)⟩
  · intro as s a s' _ ih hs hall
    refine answered_step (ih fun i now r hm => hall i now r (List.mem_append_left _ hm)) (fun i now r ha => ?_) hs
    exact hall i now r (by simp [ha])

/-- The account-lockout bound. At most one inner call runs at a time. In any
part of a trace without a success the failed calls after the `threshold`-th
wait for the timeout, and are no more than the open periods that elapsed. A
call is rejected exactly when it made no inner call. -/
theorem lockout_bound (hth : 1 ≤ threshold) {as : List TokenAct} {s : TokenState}
    (h : (provider threshold timeout).exec as = some s)
    (hin : ∀ i now r, .innerReturns i now r ∈ as → Foreign r) :
    (∀ i j g g' t t', s.pc i = .inner g t → s.pc j = .inner g' t' → i = j) ∧
    (∀ pre part post, s.trace = pre ++ part ++ post → (∀ c ∈ calls part, c.result.success = false) →
      Spaced threshold timeout (calls part) ∧ (calls part).length ≤ threshold + elapsed part) ∧
    (∀ i r, .returned i r ∈ s.trace → (r.rejection = true ↔ ¬ Made s.trace i)) := by
  obtain ⟨p, hp, hf⟩ := provider_follows hth h
  refine ⟨fun i j g g' t t' hi hj => ?_, fun pre part post htr hfail => ?_, fun i r hr => ?_⟩
  · exact hf.mu.unique (i := i) (j := j) (by simp [hi, Holds]) (by simp [hj, Holds])
  · rw [htr] at hp
    exact lockout_bounded hth hp hfail
  · have ha := provider_answered h hin i
    cases hpc : s.pc i with
    | returned r' => rw [hpc] at ha; exact ha r hr
    | ended g r' => rw [hpc] at ha; exact absurd hr (ha.2.2 r)
    | _ => rw [hpc] at ha; exact absurd hr (ha.2 r)

/-- Three calls at a breaker that opens after one failure: a failure, a
rejection, and a probe that fails too. -/
def breakerRun : List TokenAct :=
  let failure : CallResult := .error ⟨[.other "KDC unreachable"], rfl⟩
  [.lock 0, .beforeRequest 0 0, .callInner 0 1, .innerReturns 0 2 failure, .afterRequest 0 3,
    .unlock 0,
    .lock 1, .beforeRequest 1 5, .unlock 1,
    .lock 2, .beforeRequest 2 14, .callInner 2 15, .innerReturns 2 16 failure, .afterRequest 2 17]

theorem lockout_bound_breakerRun : ∃ s, (provider 1 10).exec breakerRun = some s ∧
    (calls s.trace).length = 2 ∧ (calls s.trace).length ≤ 1 + elapsed s.trace ∧
    Spaced 1 10 (calls s.trace) ∧
    (∃ r, .returned 1 r ∈ s.trace ∧ r.rejection = true) ∧ ¬ Made s.trace 1 := by
  have hin : ∀ i now r, .innerReturns i now r ∈ breakerRun → Foreign r := by
    simp only [breakerRun, List.mem_cons, reduceCtorEq, TokenAct.innerReturns.injEq,
      List.not_mem_nil, or_false,
      false_or]
    rintro i now r (⟨-, -, rfl⟩ | ⟨-, -, rfl⟩) <;> rfl
  obtain ⟨s, hs⟩ : ∃ s, (provider 1 10).exec breakerRun = some s := ⟨_, rfl⟩
  obtain ⟨-, hpart, hret⟩ := lockout_bound (by decide) hs hin
  obtain ⟨hspaced, hcount⟩ := hpart [] s.trace [] (by simp) (by cases hs; decide)
  have hmem : .returned 1 (tokenResult 1 (.error errOpenState)) ∈ s.trace := by cases hs; decide
  exact ⟨s, hs, by cases hs; decide, hcount, hspaced, ⟨_, hmem, rfl⟩, (hret 1 _ hmem).mp rfl⟩

end SP.Proof
