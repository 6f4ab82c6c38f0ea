import SpnegoProxy.Impl.Serve
import SpnegoProxy.Framework.Machine
import SpnegoProxy.Framework.WaitGroup

/-!
# Draining

`Serve` joins the accept loop before it starts the goroutine that waits for
the handlers. So once that goroutine exists no connection is between `Accept`
and `wg.Go`, and the counter that it waits for counts every handler that is
left (`Counted`).
-/

namespace SP.Proof.Serve

open SP.Impl

variable {drainTimeout : Int}

/-- `Serve`, its accept loop and its handlers. -/
def serve (drainTimeout : Int) : Machine ServeState ServeAct := ⟨{}, serveStep drainTimeout⟩

/-! ## Places -/

/-- The handler was added to the group, and is not done. -/
def Live : HandlerPc → Prop
  | .spawned | .running | .returning => True
  | _ => False

/-- `Serve` has seen the end of the accept loop. -/
def Joined : ServePc → Prop
  | .starting | .arming | .selecting _ | .returned _ => True
  | _ => False

/-- `Serve` has started the goroutine that waits. -/
def Started : ServePc → Prop
  | .arming | .selecting _ | .returned _ => True
  | _ => False

/-- `wg.Wait` has returned. -/
def Emptied : WaiterPc → Prop
  | .closing | .ended => True
  | _ => False

/-- The accept loop has no connection in hand and has not ended. -/
def Retrying : LoopPc → Prop
  | .accepted _ | .ended => False
  | _ => True

theorem Started.joined {pc : ServePc} (h : Started pc) : Joined pc := by
  cases pc <;> trivial

theorem joined_of_returned {pc : ServePc} {how : ServeEnd} (h : pc = .returned how) : Joined pc := by
  rw [h]; trivial

theorem Retrying.not_accepted {pc : LoopPc} {i : Nat} (h : Retrying pc) : pc ≠ .accepted i := by
  rintro rfl; exact h

/-! ## Steps -/

/-- What a step of `Serve` does, and when. -/
inductive ServeMove (drainTimeout : Int) (s : ServeState) : ServeAct → ServeState → Prop
  | cancel : ServeMove drainTimeout s .cancel { s with ctxDone := true }
  | accept (hl : s.loop = .accepting) : ServeMove drainTimeout s .acceptConn
      { s with loop := .accepted s.conns, conns := s.conns + 1, trace := s.trace ++ [.accepted s.conns] }
  | acceptErr (hl : s.loop = .accepting) : ServeMove drainTimeout s .acceptErr { s with loop := .failed }
  | look (hl : s.loop = .failed) :
      ServeMove drainTimeout s .loop { s with loop := if s.ctxDone then .leaving else .backingOff }
  | start {i : Nat} (hl : s.loop = .accepted i) : ServeMove drainTimeout s .loop
      { s with
        loop := .accepting, delay := 0, wg := s.wg + 1
        handler := Function.update s.handler i .spawned, trace := s.trace ++ [.started i] }
  | leave (hl : s.loop = .leaving) : ServeMove drainTimeout s .loop { s with loop := .ended, acceptDone := true }
  | backoff {now : Int} (hl : s.loop = .backingOff) (hnow : s.now ≤ now) : ServeMove drainTimeout s (.backoff now)
      { s with loop := .sleeping (now + acceptBackoffNext s.delay), delay := acceptBackoffNext s.delay, now := now }
  | timer {wake now : Int} (hl : s.loop = .sleeping wake) (hnow : s.now ≤ now) (hwake : wake ≤ now) :
      ServeMove drainTimeout s (.timer now) { s with loop := .accepting, now := now }
  | interrupt {wake : Int} (hl : s.loop = .sleeping wake) (hc : s.ctxDone = true) :
      ServeMove drainTimeout s .interrupt { s with loop := .leaving }
  | enter {i : Nat} (hi : s.handler i = .spawned) :
      ServeMove drainTimeout s (.handler i) { s with handler := Function.update s.handler i .running }
  | exit {i : Nat} (hi : s.handler i = .running) :
      ServeMove drainTimeout s (.handler i) { s with handler := Function.update s.handler i .returning }
  | finish {i : Nat} (hi : s.handler i = .returning) : ServeMove drainTimeout s (.handler i)
      { s with handler := Function.update s.handler i .finished, wg := s.wg - 1 }
  | wait (hw : s.waiter = .spawned) :
      ServeMove drainTimeout s .waiter { s with waiter := .waiting, trace := s.trace ++ [.waiting] }
  | empty (hw : s.waiter = .waiting) (hwg : s.wg = 0) : ServeMove drainTimeout s .waiter { s with waiter := .closing }
  | close (hw : s.waiter = .closing) : ServeMove drainTimeout s .waiter { s with waiter := .ended, done := true }
  | woken (hm : s.main = .serving) (hc : s.ctxDone = true) : ServeMove drainTimeout s .main { s with main := .closing }
  | shut (hm : s.main = .closing) :
      ServeMove drainTimeout s .main { s with main := .joining, listenerClosed := true }
  | join (hm : s.main = .joining) (hd : s.acceptDone = true) :
      ServeMove drainTimeout s .main { s with main := .starting }
  | spawn (hm : s.main = .starting) : ServeMove drainTimeout s .main { s with main := .arming, waiter := .spawned }
  | arm {now : Int} (hm : s.main = .arming) (hnow : s.now ≤ now) :
      ServeMove drainTimeout s (.arm now) { s with main := .selecting now, now := now }
  | drained {since : Int} (hm : s.main = .selecting since) (hd : s.done = true) :
      ServeMove drainTimeout s .main { s with main := .returned .drained }
  | forced {since now : Int} (hm : s.main = .selecting since) (hnow : s.now ≤ now)
      (htimeout : since + drainTimeout ≤ now) :
      ServeMove drainTimeout s (.timeout now) { s with main := .returned (.forced since now), now := now }

section Steps

variable {s s' : ServeState}

theorem loopStep_move (h : loopStep s = some s') : ServeMove drainTimeout s .loop s' := by
  unfold loopStep at h
  split at h
  next hl => cases h; exact .look hl
  next i hl => cases h; exact .start hl
  next hl => cases h; exact .leave hl
  next => cases h

theorem handlerStep_move {i : Nat} (h : handlerStep s i = some s') :
    ServeMove drainTimeout s (.handler i) s' := by
  unfold handlerStep at h
  split at h
  next hi => cases h; exact .enter hi
  next hi => cases h; exact .exit hi
  next hi => cases h; exact .finish hi
  next => cases h

theorem waiterStep_move (h : waiterStep s = some s') : ServeMove drainTimeout s .waiter s' := by
  unfold waiterStep at h
  split at h
  next hw => cases h; exact .wait hw
  next hw =>
    obtain ⟨hwg, h⟩ := Option.ite_none_right_eq_some.mp h
    cases h; exact .empty hw hwg
  next hw => cases h; exact .close hw
  next => cases h

theorem mainStep_move (h : mainStep s = some s') : ServeMove drainTimeout s .main s' := by
  unfold mainStep at h
  split at h
  next hm =>
    obtain ⟨hc, h⟩ := Option.ite_none_right_eq_some.mp h
    cases h; exact .woken hm hc
  next hm => cases h; exact .shut hm
  next hm =>
    obtain ⟨hd, h⟩ := Option.ite_none_right_eq_some.mp h
    cases h; exact .join hm hd
  next hm => cases h; exact .spawn hm
  next since hm =>
    obtain ⟨hd, h⟩ := Option.ite_none_right_eq_some.mp h
    cases h; exact .drained hm hd
  next => cases h

theorem serveStep_move {a : ServeAct} (h : serveStep drainTimeout s a = some s') :
    ServeMove drainTimeout s a s' := by
  cases a with
  | cancel => cases h; exact .cancel
  | loop => exact loopStep_move h
  | handler i => exact handlerStep_move h
  | waiter => exact waiterStep_move h
  | main => exact mainStep_move h
  | acceptConn =>
    simp only [serveStep] at h
    split at h
    next hl => cases h; exact .accept hl
    next => cases h
  | acceptErr =>
    simp only [serveStep] at h
    split at h
    next hl => cases h; exact .acceptErr hl
    next => cases h
  | backoff now =>
    simp only [serveStep] at h
    split at h
    next hl =>
      obtain ⟨hnow, h⟩ := Option.ite_none_right_eq_some.mp h
      cases h; exact .backoff hl hnow
    next => cases h
  | timer now =>
    simp only [serveStep] at h
    split at h
    next hl =>
      obtain ⟨hnow, h⟩ := Option.ite_none_right_eq_some.mp h
      cases h; exact .timer hl hnow.1 hnow.2
    next => cases h
  | interrupt =>
    simp only [serveStep] at h
    split at h
    next hl =>
      obtain ⟨hc, h⟩ := Option.ite_none_right_eq_some.mp h
      cases h; exact .interrupt hl hc
    next => cases h
  | arm now =>
    simp only [serveStep] at h
    split at h
    next hm =>
      obtain ⟨hnow, h⟩ := Option.ite_none_right_eq_some.mp h
      cases h; exact .arm hm hnow
    next => cases h
  | timeout now =>
    simp only [serveStep] at h
    split at h
    next hm =>
      obtain ⟨hnow, h⟩ := Option.ite_none_right_eq_some.mp h
      cases h; exact .forced hm hnow.1 hnow.2
    next => cases h

end Steps

/-! ## The order of the goroutines -/

/-- The accept loop ends before `Serve` goes on to drain, and the goroutine
that waits comes after that. -/
structure OrderInv (drainTimeout : Int) (s : ServeState) : Prop where
  ended : s.acceptDone = true → s.loop = .ended
  joined : Joined s.main → s.loop = .ended
  started : s.waiter ≠ .absent → Started s.main
  waiting : .waiting ∈ s.trace → s.waiter ≠ .absent
  done : s.done = true → Emptied s.waiter
  noStart : ∀ i, ¬ SeenAfter s.trace .waiting (.started i)
  drained : s.main = .returned .drained → s.done = true
  forced : ∀ since now, s.main = .returned (.forced since now) → since + drainTimeout ≤ now

namespace OrderInv

variable {s s' : ServeState}

theorem init : OrderInv drainTimeout (serve drainTimeout).init where
  ended := fun h => (nomatch h)
  joined := fun h => h.elim
  started := fun h => absurd rfl h
  waiting := fun h => (nomatch h)
  done := fun h => (nomatch h)
  noStart := fun _ => not_seenAfter_nil
  drained := fun h => (nomatch h)
  forced := fun _ _ h => (nomatch h)

/-- While the accept loop runs, nothing waits for the handlers. -/
theorem not_waiting (h : OrderInv drainTimeout s) (hl : s.loop ≠ .ended) : .waiting ∉ s.trace := by
  intro hw
  exact hl (h.joined (h.started (h.waiting hw)).joined)

theorem running (h : OrderInv drainTimeout s) (hl : s.loop ≠ .ended) :
    s.acceptDone = false ∧ ¬ Joined s.main :=
  ⟨Bool.eq_false_iff.mpr fun hd => hl (h.ended hd), fun hj => hl (h.joined hj)⟩

/-- `Serve` goes on, beside the goroutine that waits. -/
theorem onward {pc : ServePc} {now : Int} (h : OrderInv drainTimeout s) (hj : Joined s.main)
    (hpc : Started pc) (hdrained : pc = .returned .drained → s.done = true)
    (hforced : ∀ since now, pc = .returned (.forced since now) → since + drainTimeout ≤ now) :
    OrderInv drainTimeout { s with main := pc, now := now } :=
  { h with joined := fun _ => h.joined hj, started := fun _ => hpc, drained := hdrained, forced := hforced }

/-- The accept loop runs on. -/
theorem retry {pc : LoopPc} {delay now : Int} (h : OrderInv drainTimeout s) (hl : s.loop ≠ .ended) :
    OrderInv drainTimeout { s with loop := pc, delay := delay, now := now } := by
  obtain ⟨hd, hj⟩ := h.running hl
  exact { h with
    ended := fun hd' => absurd (hd.symm.trans hd') Bool.false_ne_true
    joined := fun hj' => absurd hj' hj }

/-- `Serve` goes on, before it has joined the accept loop. -/
theorem unjoined {pc : ServePc} {closed : Bool} (h : OrderInv drainTimeout s) (hm : ¬ Joined s.main)
    (hpc : ¬ Joined pc) : OrderInv drainTimeout { s with main := pc, listenerClosed := closed } :=
  { h with
    joined := fun hj => absurd hj hpc
    started := fun hw => absurd (h.started hw).joined hm
    drained := fun hm' => absurd (joined_of_returned hm') hpc
    forced := fun _ _ hm' => absurd (joined_of_returned hm') hpc }

theorem move {a : ServeAct} (h : OrderInv drainTimeout s) (hs : ServeMove drainTimeout s a s') :
    OrderInv drainTimeout s' := by
  cases hs with
  | cancel | enter | exit | finish => exact { h with }
  | acceptErr hl | look hl | backoff hl | timer hl | interrupt hl => exact h.retry (by simp [hl])
  | accept hl =>
    obtain ⟨hd, hj⟩ := h.running (by rw [hl]; simp)
    exact { h with
      ended := fun hd' => absurd (hd.symm.trans hd') Bool.false_ne_true
      joined := fun hj' => absurd hj' hj
      waiting := fun hw => h.waiting (by simpa using hw)
      noStart := fun i hi => h.noStart i ((seenAfter_snoc_of_ne (by simp)).mp hi) }
  | start hl =>
    have hne : s.loop ≠ .ended := by rw [hl]; simp
    obtain ⟨hd, hj⟩ := h.running hne
    exact { h with
      ended := fun hd' => absurd (hd.symm.trans hd') Bool.false_ne_true
      joined := fun hj' => absurd hj' hj
      waiting := fun hw => h.waiting (by simpa using hw)
      noStart := fun j hj' => by
        rw [seenAfter_snoc] at hj'
        exact hj'.elim (h.noStart j) fun he => h.not_waiting hne he.2 }
  | leave hl => exact { h with ended := fun _ => rfl, joined := fun _ => rfl }
  | wait hw =>
    have hne : s.waiter ≠ .absent := by rw [hw]; simp
    exact { h with
      started := fun _ => h.started hne
      waiting := fun _ => by simp
      done := fun hd => by have he := h.done hd; rw [hw] at he; exact he.elim
      noStart := fun i hi => h.noStart i ((seenAfter_snoc_of_ne (by simp)).mp hi) }
  | empty hw =>
    have hne : s.waiter ≠ .absent := by rw [hw]; simp
    exact { h with started := fun _ => h.started hne, waiting := fun _ => by simp, done := fun _ => trivial }
  | close hw =>
    have hne : s.waiter ≠ .absent := by rw [hw]; simp
    exact { h with
      started := fun _ => h.started hne, waiting := fun _ => by simp
      done := fun _ => trivial, drained := fun _ => rfl }
  | woken hm | shut hm => exact h.unjoined (by rw [hm]; exact id) id
  | join hm hd =>
    exact { h with
      joined := fun _ => h.ended hd
      started := fun hw => by have hst := h.started hw; rw [hm] at hst; exact hst.elim
      drained := fun hm' => (nomatch hm')
      forced := fun _ _ hm' => (nomatch hm') }
  | spawn hm =>
    have hw : s.waiter = .absent := by
      by_contra hw
      have hst := h.started hw
      rw [hm] at hst
      exact hst
    exact { h with
      joined := fun _ => h.joined (by rw [hm]; trivial)
      started := fun _ => trivial
      waiting := fun _ => by simp
      done := fun hd => by have he := h.done hd; rw [hw] at he; exact he.elim
      drained := fun hm' => (nomatch hm')
      forced := fun _ _ hm' => (nomatch hm') }
  | arm hm =>
    have hj : Joined s.main := by rw [hm]; trivial
    exact h.onward hj trivial (fun hm' => (nomatch hm')) fun _ _ hm' => (nomatch hm')
  | drained hm hd =>
    have hj : Joined s.main := by rw [hm]; trivial
    exact h.onward hj trivial (fun _ => hd) fun _ _ hm' => (nomatch hm')
  | forced hm _ hle =>
    have hj : Joined s.main := by rw [hm]; trivial
    exact h.onward hj trivial (fun hm' => (nomatch hm')) fun _ _ hm' => by cases hm'; exact hle

end OrderInv

/-! ## The counter -/

/-- The counter counts the handlers that are left, and every connection has
its handler or is about to get it. -/
structure CountInv (s : ServeState) : Prop where
  counted : Counted s.wg fun i => Live (s.handler i)
  fresh : ∀ i, s.conns ≤ i → s.handler i = .absent
  inHand : ∀ i, s.loop = .accepted i → i < s.conns ∧ s.handler i = .absent
  accepted : ∀ i, .accepted i ∈ s.trace → s.handler i ≠ .absent ∨ s.loop = .accepted i
  emptied : Emptied s.waiter → s.wg = 0

namespace CountInv

variable {s s' : ServeState}

theorem init : CountInv (serve drainTimeout).init where
  counted := .init fun _ => id
  fresh := fun _ _ => rfl
  inHand := fun _ h => (nomatch h)
  accepted := fun _ h => (nomatch h)
  emptied := fun h => h.elim

/-- Another place for a handler that is in the group, before it and after. -/
theorem update {i : Nat} {pc : HandlerPc} {n : Nat} (h : CountInv s) (hi : Live (s.handler i))
    (hpc : pc ≠ .absent) (hn : Counted n fun j => Live (Function.update s.handler i pc j)) :
    CountInv { s with handler := Function.update s.handler i pc, wg := n } where
  counted := hn
  fresh := fun j hj => by
    have hji : j ≠ i := by rintro rfl; rw [h.fresh j hj] at hi; exact hi
    simpa [hji] using h.fresh j hj
  inHand := fun j hj => by
    have hji : j ≠ i := by rintro rfl; rw [(h.inHand j hj).2] at hi; exact hi
    simpa [hji] using h.inHand j hj
  accepted := fun j hj => by
    by_cases hji : j = i
    · subst hji; simp [hpc]
    · simpa [hji] using h.accepted j hj
  -- the group is not empty: it has this handler
  emptied := fun he => by
    have hz := h.counted
    rw [h.emptied he] at hz
    exact absurd hi hz.zero

/-- `Accept` returns a connection, which has no handler yet. -/
theorem accept (h : CountInv s) (hl : s.loop = .accepting) :
    CountInv { s with loop := .accepted s.conns, conns := s.conns + 1, trace := s.trace ++ [.accepted s.conns] } :=
  { h with
    fresh := fun i hi => h.fresh i (Nat.le_of_succ_le hi)
    inHand := fun i hi => by cases hi; exact ⟨Nat.lt_succ_self _, h.fresh _ (Nat.le_refl _)⟩
    accepted := fun i hi => by
      rw [List.mem_append, List.mem_singleton] at hi
      rcases hi with hi | hi
      · exact (h.accepted i hi).imp_right fun he => by rw [hl] at he; cases he
      · cases hi; exact .inr rfl }

/-- `wg.Go`: the accept loop runs, so nothing waits for the group. -/
theorem start {i : Nat} (h : CountInv s) (ho : OrderInv drainTimeout s)
    (hl : s.loop = .accepted i) : CountInv { s with
      loop := .accepting, delay := 0, wg := s.wg + 1
      handler := Function.update s.handler i .spawned, trace := s.trace ++ [.started i] } := by
  obtain ⟨hlt, habs⟩ := h.inHand i hl
  have hnw : s.waiter = .absent := by
    by_contra hw
    exact (ho.running (by rw [hl]; simp)).2 (ho.started hw).joined
  exact {
    counted := by
      refine h.counted.add (i := i) (by rw [habs]; exact id) (by simp [Live]) fun j hj => ?_
      simp only [Function.update_of_ne hj]
    fresh := fun j hj => by
      have hji : j ≠ i := by rintro rfl; exact absurd hlt (Nat.not_lt.mpr hj)
      simpa [hji] using h.fresh j hj
    inHand := fun j hj => (nomatch hj)
    accepted := fun j hj => by
      by_cases hji : j = i
      · subst hji; simp
      · have hj' := h.accepted j (by simpa using hj)
        rw [hl] at hj'
        simpa [hji, Ne.symm hji] using hj'
    emptied := fun he => by rw [show s.waiter = .absent from hnw] at he; exact he.elim }

/-- The accept loop goes on without a connection in hand. -/
theorem retry {pc : LoopPc} {delay now : Int} (h : CountInv s) (hl : Retrying s.loop)
    (hpc : Retrying pc) : CountInv { s with loop := pc, delay := delay, now := now } :=
  { h with
    inHand := fun _ hi => absurd hi hpc.not_accepted
    accepted := fun i hi => (h.accepted i hi).imp_right fun he => absurd he hl.not_accepted }

/-- A handler goes on, and is not done. -/
theorem handle {i : Nat} {pc : HandlerPc} (h : CountInv s) (hi : Live (s.handler i))
    (hpc : Live pc) : CountInv { s with handler := Function.update s.handler i pc } := by
  refine h.update hi (by rintro rfl; exact hpc) (h.counted.keep fun j => ?_)
  by_cases hj : j = i
  · subst hj; simp [hi, hpc]
  · rw [Function.update_of_ne hj]

theorem move {a : ServeAct} (h : CountInv s) (ho : OrderInv drainTimeout s)
    (hs : ServeMove drainTimeout s a s') : CountInv s' := by
  cases hs with
  | cancel | woken | shut | join | arm | drained | forced => exact { h with }
  | acceptErr hl | backoff hl | timer hl | interrupt hl => exact h.retry (by rw [hl]; trivial) trivial
  | look hl => exact h.retry (by rw [hl]; trivial) (by split <;> trivial)
  | accept hl => exact h.accept hl
  | start hl => exact h.start ho hl
  | leave hl =>
    exact { h with
      inHand := fun i hi => (nomatch hi)
      accepted := fun i hi => (h.accepted i hi).imp_right fun he => by rw [hl] at he; cases he }
  | enter hi | exit hi => exact h.handle (by rw [hi]; trivial) trivial
  | @finish i hi =>
    have hlive : Live (s.handler i) := by rw [hi]; trivial
    refine h.update hlive (by simp) (h.counted.done (i := i) hlive (by simp [Live]) fun j hj => ?_)
    rw [Function.update_of_ne hj]
  | wait =>
    exact { h with
      accepted := fun i hi => h.accepted i (by simpa using hi)
      emptied := fun he => he.elim }
  | empty hw hwg => exact { h with emptied := fun _ => hwg }
  | close hw => exact { h with emptied := fun _ => h.emptied (by rw [hw]; trivial) }
  | spawn => exact { h with emptied := fun he => he.elim }

end CountInv

/-! ## What is left behind -/

/-- What `Serve` leaves behind on its way. -/
structure Onward (s : ServeState) : Prop where
  ended : s.loop = .ended → s.acceptDone = true
  shut : s.main ≠ .serving → s.main ≠ .closing → s.listenerClosed = true
  started : Started s.main → s.waiter ≠ .absent
  done : s.waiter = .ended → s.done = true
  seen : ∀ i, i < s.conns → .accepted i ∈ s.trace

theorem Onward.move {s t : ServeState} {a : ServeAct} (h : Onward s)
    (hs : ServeMove drainTimeout s a t) : Onward t := by
  have hseen {e : ServeEvent} (i : Nat) (hi : i < s.conns) : .accepted i ∈ s.trace ++ [e] :=
    List.mem_append_left _ (h.seen i hi)
  cases hs with
  | cancel | enter | exit | finish => exact { h with }
  | accept =>
    refine { h with ended := fun he => (by cases he), seen := fun i hi => ?_ }
    by_cases hin : i = s.conns
    · exact List.mem_append_right _ (by simp [hin])
    · exact hseen i (Nat.lt_of_le_of_ne (Nat.lt_succ_iff.mp hi) hin)
  | look => exact { h with ended := fun he => absurd he (by split <;> simp) }
  | start => exact { h with ended := fun he => (by cases he), seen := hseen }
  | leave => exact { h with ended := fun _ => rfl }
  | acceptErr | backoff | timer | interrupt => exact { h with ended := fun he => (by cases he) }
  | wait => exact { h with started := fun _ => (by simp), done := fun he => (by cases he), seen := hseen }
  | empty => exact { h with started := fun _ => (by simp), done := fun he => (by cases he) }
  | close => exact { h with started := fun _ => (by simp), done := fun _ => rfl }
  | woken => exact { h with shut := fun _ hne => absurd rfl hne, started := fun hst => hst.elim }
  | shut => exact { h with shut := fun _ _ => rfl, started := fun hst => hst.elim }
  | join hm => exact { h with shut := fun _ _ => h.shut (by simp [hm]) (by simp [hm]), started := fun hst => hst.elim }
  | spawn hm =>
    exact { h with
      shut := fun _ _ => h.shut (by simp [hm]) (by simp [hm])
      started := fun _ => (by simp), done := fun he => (by cases he) }
  | arm hm | drained hm | forced hm =>
    exact { h with
      shut := fun _ _ => h.shut (by simp [hm]) (by simp [hm])
      started := fun _ => h.started (by rw [hm]; trivial) }

/-! ## Runs -/

theorem serve_inv {as : List ServeAct} {s : ServeState}
    (h : (serve drainTimeout).exec as = some s) : OrderInv drainTimeout s ∧ CountInv s := by
  refine Machine.invariant (I := fun _ s => OrderInv drainTimeout s ∧ CountInv s) ⟨.init, .init⟩ ?_ h
  rintro as s a s' - ⟨ho, hc⟩ ha
  have hs := serveStep_move ha
  exact ⟨ho.move hs, hc.move ho hs⟩

theorem serve_onward {as : List ServeAct} {s : ServeState}
    (h : (serve drainTimeout).exec as = some s) : Onward s := by
  refine Machine.invariant (I := fun _ s => Onward s) ?_ (fun _ hi hs => hi.move (serveStep_move hs)) h
  exact ⟨fun h => (by cases h), fun h => absurd rfl h, fun h => h.elim, fun h => (by cases h),
    fun i h => absurd h (Nat.not_lt_zero i)⟩

/-- Once `wg.Wait` has returned, the handler of every connection has finished. -/
theorem finished_of_emptied {s : ServeState} {i : Nat} (ho : OrderInv drainTimeout s)
    (hc : CountInv s)
    (he : Emptied s.waiter) (hi : .accepted i ∈ s.trace) : s.handler i = .finished := by
  have hw : s.waiter ≠ .absent := by intro hw; rw [hw] at he; exact he
  have hl : s.loop = .ended := ho.joined (ho.started hw).joined
  have hadded : s.handler i ≠ .absent := by
    rcases hc.accepted i hi with h | h
    · exact h
    · rw [hl] at h; cases h
  have hlive : ¬ Live (s.handler i) := by
    have hz := hc.counted
    rw [hc.emptied he] at hz
    exact hz.zero
  cases hpc : s.handler i with
  | absent => exact absurd hpc hadded
  | finished => rfl
  | spawned | running | returning => rw [hpc] at hlive; exact absurd trivial hlive

/-- No handler is started after the wait for the handlers has begun. `Serve`
returns as drained only when the handler of every connection that `Accept`
returned has finished, and else only after the timeout. -/
theorem drain_complete {as : List ServeAct} {s : ServeState}
    (h : (serve drainTimeout).exec as = some s) : (∀ i, ¬ SeenAfter s.trace .waiting (.started i)) ∧
    (s.main = .returned .drained → ∀ i, .accepted i ∈ s.trace → s.handler i = .finished) ∧
    ∀ how, s.main = .returned how →
      how = .drained ∨ ∃ since now, how = .forced since now ∧ since + drainTimeout ≤ now := by
  obtain ⟨ho, hc⟩ := serve_inv h
  refine ⟨ho.noStart, fun hm i hi => ?_, fun how hm => ?_⟩
  · exact finished_of_emptied ho hc (ho.done (ho.drained hm)) hi
  · cases how with
    | drained => exact .inl rfl
    | forced since now => exact .inr ⟨since, now, rfl, ho.forced since now hm⟩

/-- `Accept` returns one connection before the cancellation and, after an
error that is retried, one after it; both handlers end during the drain. -/
def lateRun : List ServeAct :=
  [.acceptConn, .loop, .acceptErr, .loop, .backoff 0, .timer acceptBackoffInitial, .cancel,
    .acceptConn, .main, .loop,
    .main, .acceptErr, .loop, .loop, .main, .main, .arm acceptBackoffInitial, .waiter] ++
    List.replicate 3 (.handler 1) ++ List.replicate 3 (.handler 0) ++ [.waiter, .waiter, .main]

theorem drain_complete_lateRun : ∃ s, (serve 1000000000).exec lateRun = some s ∧
    s.trace = [.accepted 0, .started 0, .accepted 1, .started 1, .waiting] ∧
    s.main = .returned .drained ∧ s.handler 0 = .finished ∧ s.handler 1 = .finished := by
  have hrun : ((serve 1000000000).exec lateRun).map (fun s => (s.trace, s.main)) =
      some ([.accepted 0, .started 0, .accepted 1, .started 1, .waiting], .returned .drained) :=
        by decide +kernel
  obtain ⟨s, hs, he⟩ := Option.map_eq_some_iff.mp hrun
  obtain ⟨htr, hm⟩ := Prod.mk.inj he
  obtain ⟨-, hfin, -⟩ := drain_complete hs
  exact ⟨s, hs, htr, hm, hfin hm 0 (by rw [htr]; decide), hfin hm 1 (by rw [htr]; decide)⟩

end SP.Proof.Serve
