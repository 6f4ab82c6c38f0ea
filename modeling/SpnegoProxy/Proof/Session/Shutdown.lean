import SpnegoProxy.Impl.Shutdown
import SpnegoProxy.Framework.Machine
import SpnegoProxy.Framework.Mutex
import SpnegoProxy.Proof.Session.Trace

/-!
# Session shutdown

The session is idle, and its idle flag set, exactly while the watcher may
close the connection. The two looks at the context on either side of the read
do the rest: the first keeps a session from reading after the watcher has
looked, the second from routing what it read after the cancellation.
-/

namespace SP.Proof.Shutdown

open SP.Go SP.Impl

variable {cfg : Config}

/-- A session and its watcher. -/
def shutdown (cfg : Config) : Machine ShutdownState ShutdownAct := ⟨{}, shutdownStep cfg⟩

/-! ## Places -/

/-- A thread is inside `s.mu`. -/
def Inside (s : ShutdownState) : Thread → Prop
  | .session =>
    match s.session with
    | .checking _ | .marking _ | .releasing _ | .refusing | .unmarking _ _ _ | .unlocking _ _ _ => True
    | _ => False
  | .watcher =>
    match s.watcher with
    | .checking | .closing | .unlocking => True
    | _ => False

/-- The session waits for a request, with its flag set. -/
def MarkedIdle : SessionPc → Prop
  | .releasing _ | .reading _ | .relocking _ _ _ | .unmarking _ _ _ => True
  | _ => False

/-- The session is past the first look at the context, and will read. -/
def Entering : SessionPc → Prop
  | .marking _ | .releasing _ | .reading _ => True
  | _ => False

/-- The session has a request in hand, from the return of `readRequest` to the
end of the relay. -/
def InHand (n : Nat) : SessionPc → Prop
  | .validating m _ | .rebinding _ m _ | .serving _ m => m = n
  | _ => False

/-- The session, with its context done, will route no request. -/
def Draining : SessionPc → Prop
  | .locking _ | .marking _ | .validating _ _ | .rebinding _ _ _ | .serving _ _ => False
  | _ => True

/-- The watcher is in `beginShutdown`. -/
def Woken : WatcherPc → Prop
  | .locking | .checking | .closing | .unlocking => True
  | _ => False

/-- The watcher has looked at the flag, or was stopped. -/
def PastFlag : WatcherPc → Prop
  | .unlocking | .finished => True
  | _ => False

/-! ## The mutex and the flag -/

structure LockInv (s : ShutdownState) : Prop where
  mu : Owned s.mu (Inside s)
  idle : s.idle = true ↔ MarkedIdle s.session
  stop : s.stopWatch = true → s.session = .stopped ∨ s.session = .ended
  woken : Woken s.watcher → s.ctxDone = true
  closing : s.watcher = .closing → s.idle = true
  passed : PastFlag s.watcher → s.stopWatch = true ∨ s.ctxDone = true ∧
    (s.connClosed = true ∨ ¬ Entering s.session)

namespace LockInv

variable {s s' : ShutdownState}

theorem init : LockInv (shutdown cfg).init where
  mu j := by cases j <;> simp [shutdown, Inside]
  idle := by simp [shutdown, MarkedIdle]
  stop := by simp [shutdown]
  woken h := h.elim
  closing h := by cases h
  passed h := h.elim

theorem inside_of_session (hw : s'.watcher = s.watcher) (j : Thread) (hj : j ≠ .session) :
    Inside s' j ↔ Inside s j := by
  cases j with
  | session => exact absurd rfl hj
  | watcher => simp only [Inside, hw]

theorem inside_of_watcher (hw : s'.session = s.session) (j : Thread) (hj : j ≠ .watcher) :
    Inside s' j ↔ Inside s j := by
  cases j with
  | watcher => exact absurd rfl hj
  | session => simp only [Inside, hw]

/-- The session goes on outside the mutex, or inside it, and does not touch the flag. -/
theorem goto {pc : SessionPc} {es : List SessionEvent} (h : LockInv s)
    (hin : Inside (s.goto pc es) .session ↔ Inside s .session)
    (hidle : MarkedIdle pc ↔ MarkedIdle s.session)
    (hstop : s.stopWatch = false) (hent : Entering pc → s.ctxDone = false ∨ Entering s.session) :
    LockInv (s.goto pc es) where
  mu := h.mu.keep fun j => by
    cases j with
    | session => exact hin
    | watcher => exact Iff.rfl
  idle := h.idle.trans hidle.symm
  stop hs := by simp [ShutdownState.goto, hstop] at hs
  woken := h.woken
  closing := h.closing
  passed hp := by
    rcases h.passed hp with hs | ⟨hctx, hc | hne⟩
    · exact .inl hs
    · exact .inr ⟨hctx, .inl hc⟩
    · refine .inr ⟨hctx, .inr fun he => ?_⟩
      rcases hent he with hf | he'
      · rw [hf] at hctx; cases hctx
      · exact hne he'

/-- The session takes the mutex. -/
theorem lock {pc : SessionPc} (h : LockInv s) (hmu : s.mu = none)
    (hin : Inside (s.goto pc []) .session) (hidle : MarkedIdle pc ↔ MarkedIdle s.session)
    (hstop : s.stopWatch = false)
    (hent : ¬ Entering pc) : LockInv { s.goto pc [] with mu := some .session } where
  mu := (hmu ▸ h.mu).acquire hin (inside_of_session rfl)
  idle := h.idle.trans hidle.symm
  stop hs := by simp [ShutdownState.goto, hstop] at hs
  woken := h.woken
  closing := h.closing
  passed hp := (h.passed hp).imp_right fun ⟨hctx, _⟩ => ⟨hctx, .inr hent⟩

/-- The session releases the mutex. -/
theorem unlock {pc : SessionPc} (h : LockInv s) (hs : Inside s .session)
    (hout : ¬ Inside (s.goto pc []) .session) (hidle : MarkedIdle pc ↔ MarkedIdle s.session)
    (hstop : s.stopWatch = false)
    (hent : Entering pc → Entering s.session) : LockInv { s.goto pc [] with mu := none } where
  mu := (h.mu.held hs ▸ h.mu).release hout (inside_of_session rfl)
  idle := h.idle.trans hidle.symm
  stop hs := by simp [ShutdownState.goto, hstop] at hs
  woken := h.woken
  closing := h.closing
  passed hp :=
    (h.passed hp).imp_right fun ⟨hctx, hc⟩ => ⟨hctx, hc.imp_right fun hne he => hne (hent he)⟩

/-- The session sets or clears the flag: the watcher is not inside the mutex. -/
theorem flag {pc : SessionPc} {b : Bool} (h : LockInv s) (hs : Inside s .session)
    (hin : Inside (s.goto pc []) .session) (hidle : b = true ↔ MarkedIdle pc)
    (hstop : s.stopWatch = false)
    (hent : Entering pc → Entering s.session) : LockInv { s.goto pc [] with idle := b } where
  mu := h.mu.keep fun j => by
    cases j with
    | session => exact iff_of_true hin hs
    | watcher => exact Iff.rfl
  idle := hidle
  stop hs := by simp [ShutdownState.goto, hstop] at hs
  woken := h.woken
  closing hw := by
    have hi : Inside s .watcher := by simp [Inside, show s.watcher = .closing from hw]
    exact (nomatch h.mu.unique hs hi)
  passed hp :=
    (h.passed hp).imp_right fun ⟨hctx, hc⟩ => ⟨hctx, hc.imp_right fun hne he => hne (hent he)⟩

theorem running (h : LockInv s) (hs : s.session ≠ .stopped) (he : s.session ≠ .ended) :
    s.stopWatch = false := by
  cases hst : s.stopWatch with
  | false => rfl
  | true => exact absurd (h.stop hst) (by simp [hs, he])

theorem serve (h : LockInv s) {n : Nat} (how : Option Serving) (hout : ¬ Inside s .session)
    (hbusy : ¬ MarkedIdle s.session) (hstop : s.stopWatch = false) : LockInv (s.serve n how) := by
  cases how with
  | some how =>
    exact h.goto (iff_of_false (by simp [Inside, ShutdownState.goto]) hout)
      (iff_of_false (by simp [MarkedIdle]) hbusy) hstop (by simp [Entering])
  | none =>
    exact h.goto (iff_of_false (by simp [Inside, ShutdownState.goto]) hout)
      (iff_of_false (by simp [MarkedIdle]) hbusy) hstop (by simp [Entering])

/-- A step of the session that the state decides. -/
theorem session (h : LockInv s) (hs : sessionStep cfg s = some s') : LockInv s' := by
  cases hpc : s.session with
  | locking l =>
    simp only [sessionStep, hpc] at hs
    obtain ⟨hmu, hs⟩ := Option.ite_none_right_eq_some.mp hs
    obtain rfl := Option.some.inj hs
    exact h.lock hmu (by simp [Inside, ShutdownState.goto]) (by simp [MarkedIdle, hpc])
      (h.running (by simp [hpc]) (by simp [hpc])) (by simp [Entering])
  | checking l =>
    simp only [sessionStep, hpc] at hs
    obtain rfl := Option.some.inj hs
    have hstop := h.running (by simp [hpc]) (by simp [hpc])
    cases hctx : s.ctxDone with
    | true => exact h.goto (by simp [Inside, ShutdownState.goto, hpc]) (by simp [MarkedIdle, hpc]) hstop (by simp [Entering])
    | false => exact h.goto (by simp [Inside, ShutdownState.goto, hpc]) (by simp [MarkedIdle, hpc]) hstop fun _ => .inl hctx
  | marking l =>
    simp only [sessionStep, hpc] at hs
    obtain rfl := Option.some.inj hs
    exact h.flag (by simp [Inside, hpc]) (by simp [Inside, ShutdownState.goto]) (by simp [MarkedIdle])
      (h.running (by simp [hpc]) (by simp [hpc])) (by simp [Entering, hpc])
  | releasing l =>
    simp only [sessionStep, hpc] at hs
    obtain rfl := Option.some.inj hs
    exact h.unlock (by simp [Inside, hpc]) (by simp [Inside, ShutdownState.goto]) (by simp [MarkedIdle, hpc])
      (h.running (by simp [hpc]) (by simp [hpc])) (by simp [Entering, hpc])
  | refusing =>
    simp only [sessionStep, hpc] at hs
    obtain rfl := Option.some.inj hs
    exact h.unlock (by simp [Inside, hpc]) (by simp [Inside, ShutdownState.goto]) (by simp [MarkedIdle, hpc])
      (h.running (by simp [hpc]) (by simp [hpc])) (by simp [Entering])
  | relocking l n r =>
    simp only [sessionStep, hpc] at hs
    obtain ⟨hmu, hs⟩ := Option.ite_none_right_eq_some.mp hs
    obtain rfl := Option.some.inj hs
    exact h.lock hmu (by simp [Inside, ShutdownState.goto]) (by simp [MarkedIdle, hpc])
      (h.running (by simp [hpc]) (by simp [hpc])) (by simp [Entering])
  | unmarking l n r =>
    simp only [sessionStep, hpc] at hs
    obtain rfl := Option.some.inj hs
    exact h.flag (by simp [Inside, hpc]) (by simp [Inside, ShutdownState.goto]) (by simp [MarkedIdle])
      (h.running (by simp [hpc]) (by simp [hpc])) (by simp [Entering])
  | unlocking l n r =>
    simp only [sessionStep, hpc] at hs
    obtain rfl := Option.some.inj hs
    exact h.unlock (by simp [Inside, hpc]) (by simp [Inside, ShutdownState.goto]) (by simp [MarkedIdle, hpc])
      (h.running (by simp [hpc]) (by simp [hpc])) (by simp [Entering])
  | rechecking l n r =>
    have hstop := h.running (by simp [hpc]) (by simp [hpc])
    simp only [sessionStep, hpc] at hs
    split at hs
    · obtain rfl := Option.some.inj hs
      exact h.goto (by simp [Inside, ShutdownState.goto, hpc]) (by simp [MarkedIdle, hpc]) hstop (by simp [Entering])
    · split at hs <;> obtain rfl := Option.some.inj hs <;>
        exact h.goto (by simp [Inside, ShutdownState.goto, hpc]) (by simp [MarkedIdle, hpc]) hstop (by simp [Entering])
  | validating n req =>
    simp only [sessionStep, hpc] at hs
    obtain rfl := Option.some.inj hs
    exact h.serve _ (by simp [Inside, hpc]) (by simp [MarkedIdle, hpc]) (h.running (by simp [hpc]) (by simp [hpc]))
  | rebinding host n req =>
    have hstop := h.running (by simp [hpc]) (by simp [hpc])
    simp only [sessionStep, hpc] at hs
    split at hs <;> obtain rfl := Option.some.inj hs
    · exact h.goto (by simp [Inside, ShutdownState.goto, hpc]) (by simp [MarkedIdle, hpc]) hstop (by simp [Entering])
    · exact h.serve _ (by simp [Inside, hpc]) (by simp [MarkedIdle, hpc]) hstop
  | leaving =>
    simp only [sessionStep, hpc] at hs
    obtain rfl := Option.some.inj hs
    refine ⟨?_, ?_, fun _ => .inl rfl, h.woken, h.closing, fun _ => .inl rfl⟩
    · exact h.mu.keep fun j => by cases j <;> simp [Inside, ShutdownState.goto, hpc]
    · exact h.idle.trans (by simp [MarkedIdle, ShutdownState.goto, hpc])
  | stopped =>
    simp only [sessionStep, hpc] at hs
    obtain rfl := Option.some.inj hs
    refine ⟨?_, ?_, fun _ => .inr rfl, h.woken, h.closing, fun hp => ?_⟩
    · exact h.mu.keep fun j => by cases j <;> simp [Inside, ShutdownState.goto, hpc]
    · exact h.idle.trans (by simp [MarkedIdle, ShutdownState.goto, hpc])
    · exact (h.passed hp).imp_right fun ⟨hctx, _⟩ => ⟨hctx, .inl rfl⟩
  | reading l => simp [sessionStep, hpc] at hs
  | serving how n => simp [sessionStep, hpc] at hs
  | ended => simp [sessionStep, hpc] at hs

theorem readReturns {r : Except ReadErr Request} (h : LockInv s)
    (hs : shutdownStep cfg s (.readReturns r) = some s') : LockInv s' := by
  simp only [shutdownStep] at hs
  split at hs
  next l hpc =>
    obtain rfl := Option.some.inj hs
    have hstop := h.running (by simp [hpc]) (by simp [hpc])
    have hgo : LockInv (s.goto (.relocking l s.reads r) [.read s.reads]) :=
      h.goto (by simp [Inside, ShutdownState.goto, hpc]) (by simp [MarkedIdle, hpc]) hstop (by simp [Entering])
    exact { hgo with }
  next => cases hs

theorem relayReturns {reuse : Bool} (h : LockInv s)
    (hs : shutdownStep cfg s (.relayReturns reuse) = some s') : LockInv s' := by
  simp only [shutdownStep] at hs
  split at hs
  next how n hpc =>
    obtain rfl := Option.some.inj hs
    have hstop := h.running (by simp [hpc]) (by simp [hpc])
    cases how <;> cases reuse <;>
      exact h.goto (by simp [afterRelay, Inside, ShutdownState.goto, hpc]) (by simp [afterRelay, MarkedIdle, hpc]) hstop
        (by simp [afterRelay, Entering])
  next => cases hs

theorem watcher (h : LockInv s) (hs : watcherStep s = some s') : LockInv s' := by
  cases hpc : s.watcher with
  | waiting =>
    simp only [watcherStep, hpc] at hs
    obtain ⟨hctx, hs⟩ := Option.ite_none_right_eq_some.mp hs
    obtain rfl := Option.some.inj hs
    refine ⟨?_, h.idle, h.stop, fun _ => hctx, by simp, fun hp => hp.elim⟩
    exact h.mu.keep fun j => by cases j <;> simp [Inside, hpc]
  | locking =>
    have hctx := h.woken (by simp [Woken, hpc])
    simp only [watcherStep, hpc] at hs
    obtain ⟨hmu, hs⟩ := Option.ite_none_right_eq_some.mp hs
    obtain rfl := Option.some.inj hs
    exact ⟨(hmu ▸ h.mu).acquire trivial (inside_of_watcher rfl), h.idle, h.stop,
      fun _ => hctx, by simp,
      fun hp => hp.elim⟩
  | checking =>
    have hctx := h.woken (by simp [Woken, hpc])
    have hin : Inside s .watcher := by simp [Inside, hpc]
    simp only [watcherStep, hpc] at hs
    split at hs <;> obtain rfl := Option.some.inj hs
    next hidle =>
      refine ⟨h.mu.keep fun j => ?_, h.idle, h.stop, fun _ => hctx, fun _ => hidle, fun hp => hp.elim⟩
      cases j <;> simp [Inside, hpc]
    next hidle =>
      refine ⟨h.mu.keep fun j => ?_, h.idle, h.stop, fun _ => hctx, by simp, fun _ => .inr ⟨hctx, .inr fun he => ?_⟩⟩
      · cases j <;> simp [Inside, hpc]
      · -- a session about to read is idle, or is inside the mutex itself
        have hni : ¬ MarkedIdle s.session := fun hi => hidle (h.idle.mpr hi)
        have hns : ¬ Inside s .session := fun hs => (nomatch h.mu.unique hs hin)
        cases hses : s.session <;> simp_all [Entering, MarkedIdle, Inside]
  | closing =>
    have hctx := h.woken (by simp [Woken, hpc])
    simp only [watcherStep, hpc] at hs
    obtain rfl := Option.some.inj hs
    refine ⟨h.mu.keep fun j => ?_, h.idle, h.stop, fun _ => hctx, by simp, fun _ => .inr ⟨hctx, .inl rfl⟩⟩
    cases j <;> simp [Inside, hpc]
  | unlocking =>
    have hin : Inside s .watcher := by simp [Inside, hpc]
    simp only [watcherStep, hpc] at hs
    obtain rfl := Option.some.inj hs
    exact ⟨(h.mu.held hin ▸ h.mu).release (fun hp => hp) (inside_of_watcher rfl), h.idle, h.stop, fun hw => hw.elim,
      by simp, fun _ => h.passed (by simp [PastFlag, hpc])⟩
  | finished => simp [watcherStep, hpc] at hs

theorem stopped (h : LockInv s) (hs : shutdownStep cfg s .stop = some s') : LockInv s' := by
  simp only [shutdownStep] at hs
  split at hs
  next hpc =>
    obtain ⟨hstop, hs⟩ := Option.ite_none_right_eq_some.mp hs
    obtain rfl := Option.some.inj hs
    refine ⟨h.mu.keep fun j => ?_, h.idle, h.stop, fun hw => hw.elim, by simp, fun _ => .inl hstop⟩
    cases j <;> simp [Inside, hpc]
  next => cases hs

theorem step {a : ShutdownAct} (h : LockInv s) (hs : shutdownStep cfg s a = some s') : LockInv s' := by
  cases a with
  | cancel =>
    obtain rfl := Option.some.inj hs
    exact ⟨h.mu, h.idle, h.stop,
      fun _ => rfl, h.closing, fun hp => (h.passed hp).imp_right fun hc => ⟨rfl, hc.2⟩⟩
  | session => exact h.session hs
  | readReturns r => exact h.readReturns hs
  | relayReturns reuse => exact h.relayReturns hs
  | watcher => exact h.watcher hs
  | stop => exact h.stopped hs

end LockInv

theorem shutdown_lockInv {as : List ShutdownAct} {s : ShutdownState}
    (h : (shutdown cfg).exec as = some s) : LockInv s :=
  Machine.invariant (I := fun _ s => LockInv s) LockInv.init (fun _ hi hs => hi.step hs) h

/-! ## What is routed -/

/-- The session carries the result of the `n`-th read. -/
def Carries (n : Nat) : SessionPc → Prop
  | .relocking _ m _ | .unmarking _ m _ | .unlocking _ m _ | .rechecking _ m _ => m = n
  | .validating m _ | .rebinding _ m _ | .serving _ m => m = n
  | _ => False

theorem InHand.carries {n : Nat} {pc : SessionPc} (h : InHand n pc) : Carries n pc := by
  cases pc <;> first | exact h | exact h.elim

theorem InHand.not_draining {n : Nat} {pc : SessionPc} (h : InHand n pc) : ¬ Draining pc := by
  cases pc <;> first | exact h.elim | exact fun hd => hd

/-- A step of the session that is not seen: a request gets into its hands only
before the context is done. -/
structure Unseen (s s' : ShutdownState) : Prop where
  ctxDone : s'.ctxDone = s.ctxDone
  reads : s'.reads = s.reads
  start : ∀ how n, s.session ≠ .serving how n
  trace : s'.trace = s.trace
  carries : ∀ n, Carries n s'.session → Carries n s.session
  inHand : ∀ n, InHand n s'.session → InHand n s.session ∨ s.ctxDone = false
  draining : s.ctxDone = true → Draining s.session → Draining s'.session

/-- A step of the session that routes the request in its hands. -/
structure Routes (s s' : ShutdownState) (n : Nat) (how : Serving) : Prop where
  ctxDone : s'.ctxDone = s.ctxDone
  reads : s'.reads = s.reads
  start : ∀ how n, s.session ≠ .serving how n
  trace : s'.trace = s.trace ++ [.routed n]
  session : s'.session = .serving how n
  inHand : InHand n s.session

theorem seen_serve {s : ShutdownState} {n : Nat} (how : Option Serving) (hn : InHand n s.session)
    (hstart : ∀ how n, s.session ≠ .serving how n) :
    Unseen s (s.serve n how) ∨ ∃ m how', Routes s (s.serve n how) m how' := by
  cases how with
  | some how => exact .inr ⟨n, how, rfl, rfl, hstart, rfl, rfl, hn⟩
  | none =>
    exact .inl ⟨rfl, rfl, hstart, List.append_nil _,
      fun _ h => h.elim, fun _ h => h.elim, fun _ _ => trivial⟩

/-- What the steps of the session that the state decides can be. -/
theorem sessionStep_seen {s s' : ShutdownState} (hs : sessionStep cfg s = some s') :
    Unseen s s' ∨ ∃ n how, Routes s s' n how := by
  cases hpc : s.session with
  | validating n req =>
    simp only [sessionStep, hpc] at hs
    obtain rfl := Option.some.inj hs
    exact seen_serve (s := s) (n := n) _ (by simp [InHand, hpc]) (by simp [hpc])
  | rebinding host n req =>
    simp only [sessionStep, hpc] at hs
    split at hs <;> obtain rfl := Option.some.inj hs
    · exact .inl (by constructor <;> simp [ShutdownState.goto, Carries, InHand, Draining, hpc])
    · exact seen_serve (s := s) (n := n) _ (by simp [InHand, hpc]) (by simp [hpc])
  | locking l | relocking l n r =>
    simp only [sessionStep, hpc] at hs
    obtain ⟨-, hs⟩ := Option.ite_none_right_eq_some.mp hs
    obtain rfl := Option.some.inj hs
    exact .inl (by constructor <;> simp [ShutdownState.goto, Carries, InHand, Draining, hpc])
  | checking l =>
    simp only [sessionStep, hpc] at hs
    obtain rfl := Option.some.inj hs
    cases hctx : s.ctxDone <;>
      exact .inl (by constructor <;> simp [ShutdownState.goto, Carries, InHand, Draining, hpc, hctx])
  | rechecking l n r =>
    simp only [sessionStep, hpc] at hs
    split at hs
    next hctx =>
      obtain rfl := Option.some.inj hs
      exact .inl (by constructor <;> simp [ShutdownState.goto, Carries, InHand, Draining, hpc])
    next hctx =>
      split at hs <;> obtain rfl := Option.some.inj hs <;>
        exact .inl (by constructor <;> simp [ShutdownState.goto, Carries, InHand, Draining, hpc, hctx])
  | reading l | serving how n | ended => simp [sessionStep, hpc] at hs
  | marking l | releasing l | refusing | unmarking l n r | unlocking l n r | leaving | stopped =>
    simp only [sessionStep, hpc] at hs
    obtain rfl := Option.some.inj hs
    exact .inl (by constructor <;> simp [ShutdownState.goto, Carries, InHand, Draining, hpc])

/-! ## Whole runs -/

structure TraceInv (s : ShutdownState) : Prop where
  done : .cancelled ∈ s.trace ↔ s.ctxDone = true
  read : ∀ n, .read n ∈ s.trace → n < s.reads
  routed : ∀ n, .routed n ∈ s.trace → n < s.reads
  carried : ∀ n, Carries n s.session → n < s.reads
  closed : .closed ∈ s.trace → s.ctxDone = true ∧ Draining s.session
  late : ∀ n, SeenAfter s.trace .cancelled (.read n) → .routed n ∉ s.trace ∧ ¬ InHand n s.session
  after : ∀ n, ¬ SeenAfter s.trace .closed (.routed n)
  relayed : ∀ n, .routed n ∈ s.trace → .relayed n ∈ s.trace ∨ ∃ how, s.session = .serving how n
  between : ∀ pre post, s.trace = pre ++ .closed :: post → ∀ n, .routed n ∈ pre → .relayed n ∈ pre

namespace TraceInv

variable {s s' : ShutdownState}

theorem init : TraceInv (shutdown cfg).init where
  done := by simp [shutdown]
  read _ h := (nomatch h)
  routed _ h := (nomatch h)
  carried _ h := h.elim
  closed h := (nomatch h)
  late _ h := absurd h not_seenAfter_nil
  after _ := not_seenAfter_nil
  relayed _ h := (nomatch h)
  between pre post h := by simp [shutdown] at h

theorem unseen (h : TraceInv s) (hs : Unseen s s') : TraceInv s' where
  done := by rw [hs.trace, hs.ctxDone]; exact h.done
  read := by rw [hs.trace, hs.reads]; exact h.read
  routed := by rw [hs.trace, hs.reads]; exact h.routed
  carried n hn := by rw [hs.reads]; exact h.carried n (hs.carries n hn)
  closed hc := by
    rw [hs.trace] at hc
    rw [hs.ctxDone]
    exact ⟨(h.closed hc).1, hs.draining (h.closed hc).1 (h.closed hc).2⟩
  late n hn := by
    rw [hs.trace] at hn ⊢
    refine ⟨(h.late n hn).1, fun hin => ?_⟩
    rcases hs.inHand n hin with hin' | hctx
    · exact (h.late n hn).2 hin'
    · rw [h.done.mp hn.mem.1] at hctx
      cases hctx
  after := by rw [hs.trace]; exact h.after
  relayed n hn := by
    rw [hs.trace] at hn ⊢
    refine (h.relayed n hn).imp_right fun ⟨how, hhow⟩ => absurd hhow (hs.start how n)
  between := by rw [hs.trace]; exact h.between

/-- One more event, which is not the watcher's. -/
theorem between_snoc {tr : List SessionEvent} {e : SessionEvent} (he : e ≠ .closed)
    (h : ∀ pre post, tr = pre ++ .closed :: post → ∀ n, .routed n ∈ pre → .relayed n ∈ pre) :
    ∀ pre post, tr ++ [e] = pre ++ .closed :: post → ∀ n, .routed n ∈ pre → .relayed n ∈ pre := by
  intro pre post hsplit
  rcases snoc_split.mp hsplit with ⟨rfl, -⟩ | ⟨post', -, htr⟩
  · exact absurd rfl he
  · exact h pre post' htr

theorem routes {n : Nat} {how : Serving} (h : TraceInv s) (hs : Routes s s' n how) :
    TraceInv s' where
  done := by rw [hs.trace, hs.ctxDone]; simpa using h.done
  read m hm := by rw [hs.trace] at hm; rw [hs.reads]; exact h.read m (by simpa using hm)
  routed m hm := by
    rw [hs.trace] at hm
    rw [hs.reads]
    rcases List.mem_append.mp hm with hm | hm
    · exact h.routed m hm
    · obtain rfl : m = n := by simpa using hm
      exact h.carried m hs.inHand.carries
  carried m hm := by
    rw [hs.session] at hm
    rw [hs.reads]
    exact h.carried m (hm ▸ hs.inHand.carries)
  closed hc := by
    rw [hs.trace] at hc
    exact absurd (h.closed (by simpa using hc)).2 hs.inHand.not_draining
  late m hm := by
    rw [hs.trace, seenAfter_snoc_of_ne (by simp)] at hm
    obtain ⟨hr, hin⟩ := h.late m hm
    have hne : m ≠ n := fun e => hin (e ▸ hs.inHand)
    rw [hs.trace, hs.session]
    exact ⟨by simp [hr, hne], fun e => hne (Eq.symm e)⟩
  after m hm := by
    rw [hs.trace, seenAfter_snoc] at hm
    obtain hm | ⟨-, hc⟩ := hm
    · exact h.after m hm
    · exact hs.inHand.not_draining (h.closed hc).2
  relayed m hm := by
    rw [hs.trace] at hm ⊢
    rcases List.mem_append.mp hm with hm | hm
    · refine .inl (List.mem_append_left _ ((h.relayed m hm).resolve_right ?_))
      exact fun ⟨how, hhow⟩ => hs.start how m hhow
    · obtain rfl : m = n := by simpa using hm
      exact .inr ⟨how, hs.session⟩
  between := by rw [hs.trace]; exact between_snoc (by simp) h.between

theorem cancel (h : TraceInv s) :
    TraceInv { s with ctxDone := true, trace := s.trace ++ [.cancelled] } where
  done := by simp
  read n hn := h.read n (by simpa using hn)
  routed n hn := h.routed n (by simpa using hn)
  carried := h.carried
  closed hc := ⟨rfl, (h.closed (by simpa using hc)).2⟩
  late n hn := by
    obtain ⟨hr, hin⟩ := h.late n ((seenAfter_snoc_of_ne (by simp)).mp hn)
    exact ⟨by simpa using hr, hin⟩
  after n hn := h.after n ((seenAfter_snoc_of_ne (by simp)).mp hn)
  relayed n hn := (h.relayed n (by simpa using hn)).imp_left (List.mem_append_left _)
  between := between_snoc (by simp) h.between

/-- A read that returns: its number is new. -/
theorem readReturns {r : Except ReadErr Request} (h : TraceInv s)
    (hs : shutdownStep cfg s (.readReturns r) = some s') : TraceInv s' := by
  simp only [shutdownStep] at hs
  split at hs
  next l hpc =>
    obtain rfl := Option.some.inj hs
    have hold : ∀ {n}, .routed n ∈ s.trace ++ [.read s.reads] → .routed n ∈ s.trace :=
      fun hn => by simpa using hn
    refine ⟨?_, ?_, fun n hn => Nat.lt_succ_of_lt (h.routed n (hold hn)), ?_, ?_, ?_, ?_, ?_, ?_⟩
    · simpa [ShutdownState.goto] using h.done
    · intro n hn
      rcases List.mem_append.mp hn with hn | hn
      · exact Nat.lt_succ_of_lt (h.read n hn)
      · obtain rfl : n = s.reads := by simpa using hn
        exact Nat.lt_succ_self _
    · intro n hn
      exact (show s.reads = n from hn) ▸ Nat.lt_succ_self _
    · intro hc
      exact ⟨(h.closed (by simpa [ShutdownState.goto] using hc)).1, trivial⟩
    · intro n hn
      refine ⟨fun hr => ?_, fun hin => hin.elim⟩
      obtain hn | ⟨he, -⟩ := seenAfter_snoc.mp hn
      · exact (h.late n hn).1 (hold hr)
      · obtain rfl : s.reads = n := by simpa using he
        exact absurd (h.routed _ (hold hr)) (Nat.lt_irrefl _)
    · exact fun n hn => h.after n ((seenAfter_snoc_of_ne (by simp)).mp hn)
    · intro n hn
      refine .inl (List.mem_append_left _ ((h.relayed n (hold hn)).resolve_right fun ⟨how, hhow⟩ => ?_))
      rw [hpc] at hhow
      cases hhow
    · exact between_snoc (by simp) h.between
  next => cases hs

theorem afterRelay_not_carries {reuse : Bool} {how : Serving} {n : Nat} :
    ¬ Carries n (afterRelay reuse how) := by
  cases how <;> cases reuse <;> exact fun h => h

theorem relayReturns {reuse : Bool} (h : TraceInv s)
    (hs : shutdownStep cfg s (.relayReturns reuse) = some s') : TraceInv s' := by
  simp only [shutdownStep] at hs
  split at hs
  next how n hpc =>
    obtain rfl := Option.some.inj hs
    have hold : ∀ {m}, .routed m ∈ s.trace ++ [.relayed n] → .routed m ∈ s.trace :=
      fun hm => by simpa using hm
    refine ⟨?_, ?_,
      fun m hm => h.routed m (hold hm), fun m hm => absurd hm afterRelay_not_carries, ?_, ?_, ?_, ?_, ?_⟩
    · simpa [ShutdownState.goto] using h.done
    · exact fun m hm => h.read m (by simpa [ShutdownState.goto] using hm)
    · intro hc
      have hd := (h.closed (by simpa [ShutdownState.goto] using hc)).2
      rw [hpc] at hd
      exact hd.elim
    · intro m hm
      have hr := (h.late m ((seenAfter_snoc_of_ne (by simp)).mp hm)).1
      exact ⟨fun hm' => hr (hold hm'), fun hin => afterRelay_not_carries hin.carries⟩
    · exact fun m hm => h.after m ((seenAfter_snoc_of_ne (by simp)).mp hm)
    · intro m hm
      rcases h.relayed m (hold hm) with hr | ⟨how', hhow⟩
      · exact .inl (List.mem_append_left _ hr)
      · rw [hpc] at hhow
        obtain ⟨-, rfl⟩ : how = how' ∧ n = m := by simpa using hhow
        exact .inl (by simp [ShutdownState.goto])
    · exact between_snoc (by simp) h.between
  next => cases hs

/-- The watcher closes the connection of a session that waits. -/
theorem close (h : TraceInv s) (hctx : s.ctxDone = true) (hidle : MarkedIdle s.session) :
    TraceInv { s with watcher := .unlocking, connClosed := true, trace := s.trace ++ [.closed] } where
  done := by simpa using h.done
  read n hn := h.read n (by simpa using hn)
  routed n hn := h.routed n (by simpa using hn)
  carried := h.carried
  closed _ := ⟨hctx, by cases hpc : s.session <;> simp_all [MarkedIdle, Draining]⟩
  late n hn := by
    obtain ⟨hr, hin⟩ := h.late n ((seenAfter_snoc_of_ne (by simp)).mp hn)
    exact ⟨by simpa using hr, hin⟩
  after n hn := h.after n ((seenAfter_snoc_of_ne (by simp)).mp hn)
  relayed n hn := (h.relayed n (by simpa using hn)).imp_left (List.mem_append_left _)
  between pre post hsplit n hn := by
    rcases snoc_split.mp hsplit with ⟨-, rfl, -⟩ | ⟨post', -, htr⟩
    · refine (h.relayed n hn).resolve_right fun ⟨how, hhow⟩ => ?_
      rw [hhow] at hidle
      exact hidle
    · exact h.between pre post' htr n hn

theorem watcher (h : TraceInv s) (hl : LockInv s) (hs : watcherStep s = some s') : TraceInv s' := by
  cases hpc : s.watcher with
  | closing =>
    simp only [watcherStep, hpc] at hs
    obtain rfl := Option.some.inj hs
    exact h.close (hl.woken (by simp [Woken, hpc])) (hl.idle.mp (hl.closing hpc))
  | waiting | locking =>
    simp only [watcherStep, hpc] at hs
    obtain ⟨-, hs⟩ := Option.ite_none_right_eq_some.mp hs
    obtain rfl := Option.some.inj hs
    exact { h with }
  | checking | unlocking =>
    simp only [watcherStep, hpc] at hs
    obtain rfl := Option.some.inj hs
    exact { h with }
  | finished => simp [watcherStep, hpc] at hs

theorem step {a : ShutdownAct} (h : TraceInv s) (hl : LockInv s)
    (hs : shutdownStep cfg s a = some s') : TraceInv s' := by
  cases a with
  | cancel =>
    obtain rfl := Option.some.inj hs
    exact h.cancel
  | session =>
    rcases sessionStep_seen hs with hu | ⟨n, how, hr⟩
    · exact h.unseen hu
    · exact h.routes hr
  | readReturns r => exact h.readReturns hs
  | relayReturns reuse => exact h.relayReturns hs
  | watcher => exact h.watcher hl hs
  | stop =>
    simp only [shutdownStep] at hs
    split at hs
    next =>
      obtain ⟨-, hs⟩ := Option.ite_none_right_eq_some.mp hs
      obtain rfl := Option.some.inj hs
      exact { h with }
    next => cases hs

end TraceInv

theorem shutdown_traceInv {as : List ShutdownAct} {s : ShutdownState}
    (h : (shutdown cfg).exec as = some s) : TraceInv s :=
  Machine.invariant (I := fun _ s => TraceInv s) TraceInv.init
    (fun hs hi hstep => hi.step (shutdown_lockInv hs) hstep) h

/-- Shutdown of a session is safe. The watcher does not close the connection
while a request is in the session's hands, nor between its routing and the
end of its relay. After the watcher has closed it nothing is routed, and what
was read after the cancellation is not routed. When the context is done and
the watcher has finished, the session does not wait for a request on a
connection that is open. -/
theorem shutdown_safe {as : List ShutdownAct} {s : ShutdownState}
    (h : (shutdown cfg).exec as = some s) : (s.watcher = .closing → ∀ n, ¬ InHand n s.session) ∧
    (∀ pre post, s.trace = pre ++ .closed :: post → ∀ n, .routed n ∈ pre → .relayed n ∈ pre) ∧
    (∀ n, ¬ SeenAfter s.trace .closed (.routed n)) ∧
    (∀ n, SeenAfter s.trace .cancelled (.read n) → .routed n ∉ s.trace) ∧
    ¬ (s.ctxDone = true ∧ s.watcher = .finished ∧ (∃ l,
      s.session = .reading l) ∧ s.connClosed = false) := by
  have hl := shutdown_lockInv h
  have ht := shutdown_traceInv h
  refine ⟨fun hw n hin => ?_, ht.between, ht.after, fun n hn => (ht.late n hn).1, ?_⟩
  · have hidle := hl.idle.mp (hl.closing hw)
    cases hpc : s.session <;> simp_all [MarkedIdle, InHand]
  · rintro ⟨-, hw, ⟨l, hpc⟩, hopen⟩
    rcases hl.passed (by simp [PastFlag, hw]) with hstop | ⟨-, hclosed | hne⟩
    · simpa [hpc] using hl.stop hstop
    · rw [hopen] at hclosed
      cases hclosed
    · exact hne (by simp [Entering, hpc])

/-- A request is relayed; then the context is done while the session waits
for the next, the watcher closes the connection, and the read returns a
request that was already buffered. -/
def idleRun : List ShutdownAct :=
  let req := plainGet (str "example.com") ⟨∅⟩
  List.replicate 4 .session ++ [.readReturns (.ok req)] ++ List.replicate 5 .session ++ [.relayReturns true] ++
    List.replicate 4 .session ++ [.cancel] ++ List.replicate 5 .watcher ++ [.readReturns (.ok req)] ++
    List.replicate 4 .session

theorem shutdown_safe_idleRun : ∃ s, (shutdown plainConfig).exec idleRun = some s ∧
    s.trace = [.read 0, .routed 0, .relayed 0, .cancelled, .closed, .read 1] ∧
    SeenAfter s.trace .cancelled (.read 1) ∧ .routed 1 ∉ s.trace := by
  have hrun : ((shutdown plainConfig).exec idleRun).map ShutdownState.trace =
      some [.read 0, .routed 0, .relayed 0, .cancelled, .closed, .read 1] := by decide +kernel
  obtain ⟨s, hs, htr⟩ := Option.map_eq_some_iff.mp hrun
  obtain ⟨-, -, -, hlate, -⟩ := shutdown_safe hs
  have hseen : SeenAfter s.trace .cancelled (.read 1) :=
    ⟨[.read 0, .routed 0, .relayed 0, .cancelled, .closed], [], htr, by decide⟩
  exact ⟨s, hs, htr, hseen, hlate 1 hseen⟩

end SP.Proof.Shutdown
