import SpnegoProxy.Proof.Serve
import SpnegoProxy.Proof.Session.Shutdown
import SpnegoProxy.Spec.Server

/-!
# The steps of the server

What each step of the server does with `Serve`, the listener and the sessions
(`Move`). `Serve` and every session run as they do alone (`serve_run`,
`session_run`); `Coupled` is what holds them together.
-/

namespace SP.Proof.Server

open SP.Impl SP.Spec
open SP.Proof.Serve (serve serveStep_move)
open SP.Proof.Shutdown (shutdown)

/-! ## The server -/

/-- The server, from a setup. -/
def server (su : Setup) : Machine ServerState ServerAct := ⟨{}, serverStep su⟩

variable {su : Setup} {s s' : ServerState}

/-- A session is told of the end of the context. -/
def cancelled (t : ShutdownState) : ShutdownState :=
  { t with ctxDone := true, trace := t.trace ++ [.cancelled] }

/-- What a step of the server does, and when. -/
inductive Move (su : Setup) (s : ServerState) : ServerAct → ServerState → Prop
  | cancel (hc : s.serve.ctxDone = false) : Move su s .cancel
      { s with serve := { s.serve with ctxDone := true }, session := fun i => cancelled (s.session i) }
  | serve {a : ServeAct} {t : ServeState} (hmay : s.mayStep su a = true)
      (h : serveStep su.drainTimeout s.serve a = some t) :
      Move su s (.serve a) { s with serve := t, listened := s.listened ++ s.serve.tells a }
  | accept (hmay : su.listener.mayAccept s.listened = true) (hl : s.serve.loop = .accepting) : Move su s .accept
      { s with
        serve := { s.serve with
          loop := .accepted s.serve.conns, conns := s.serve.conns + 1
          trace := s.serve.trace ++ [.accepted s.serve.conns] }
        listened := s.listened ++ [.accepted s.serve.conns] }
  | acceptErr (hl : s.serve.loop = .accepting) : Move su s .acceptErr
      { s with serve := { s.serve with loop := .failed }, listened := s.listened ++ [.failed] }
  | session {i : Nat} {a : ShutdownAct} {t : ShutdownState} (hb : (s.serve.handler i).begun = true)
      (hadm : su.admits i = true) (ha : a.isCancel = false) (h : shutdownStep (su.client i) (s.session i) a = some t) :
      Move su s (.session i a) (s.withSession i t)
  | deny {i : Nat} (hi : s.serve.handler i = .running) (hc : s.closed i = false) (hd : s.denied i = false) :
      Move su s (.deny i) { s with denied := Function.update s.denied i true }
  /-- A client is let go, or a tunnel fails. -/
  | close {i : Nat} {a : ServerAct} (hi : s.serve.handler i = .running) (hc : s.closed i = false) (ha : a ≠ .accept) :
      Move su s a (s.close i)

theorem refuses_iff {i : Nat} : s.refuses su i = true ↔
    s.serve.handler i = .running ∧ su.admits i = false ∧ s.closed i = false := by
  simp [ServerState.refuses, and_assoc]

theorem serverStep_move {a : ServerAct} (h : serverStep su s a = some s') : Move su s a s' := by
  cases a with
  | cancel =>
    simp only [serverStep] at h
    split at h
    next => cases h
    next hc => cases h; exact .cancel (Bool.eq_false_iff.mpr hc)
  | serve a =>
    obtain ⟨hmay, h⟩ := Option.ite_none_right_eq_some.mp h
    obtain ⟨t, ht, rfl⟩ := Option.map_eq_some_iff.mp h
    exact .serve hmay ht
  | accept =>
    obtain ⟨hmay, h⟩ := Option.ite_none_right_eq_some.mp h
    obtain ⟨t, ht, rfl⟩ := Option.map_eq_some_iff.mp h
    cases serveStep_move ht with
    | accept hl => exact .accept hmay hl
  | acceptErr =>
    obtain ⟨-, h⟩ := Option.ite_none_right_eq_some.mp h
    obtain ⟨t, ht, rfl⟩ := Option.map_eq_some_iff.mp h
    cases serveStep_move ht with
    | acceptErr hl => exact .acceptErr hl
  | session i a =>
    obtain ⟨⟨hb, hadm, ha⟩, h⟩ := Option.ite_none_right_eq_some.mp h
    obtain ⟨t, ht, rfl⟩ := Option.map_eq_some_iff.mp h
    exact .session hb hadm ha ht
  | deny i =>
    obtain ⟨hr, h⟩ := Option.ite_none_right_eq_some.mp h
    rw [Bool.and_eq_true, refuses_iff, Bool.not_eq_true'] at hr
    obtain ⟨⟨hi, -, hc⟩, hd⟩ := hr
    split at h
    next => cases h; exact .close hi hc (by simp)
    next => cases h; exact .deny hi hc hd
  | deniedEOF i | deniedDeadline i =>
    obtain ⟨hr, h⟩ := Option.ite_none_right_eq_some.mp h
    rw [Bool.and_eq_true, refuses_iff] at hr
    cases h
    exact .close hr.1.1 hr.1.2.2 (by simp)
  | tunnelCloses i =>
    obtain ⟨⟨hi, -, -, hc⟩, h⟩ := Option.ite_none_right_eq_some.mp h
    cases h; exact .close hi hc (by simp)

/-! ## What a close changes -/

section

variable (s) (i : Nat) (t : ShutdownState)

@[simp] theorem close_serve : (s.close i).serve = s.serve :=
  by unfold ServerState.close; split <;> rfl

@[simp] theorem close_session : (s.close i).session = s.session :=
  by unfold ServerState.close; split <;> rfl

@[simp] theorem close_denied : (s.close i).denied = s.denied :=
  by unfold ServerState.close; split <;> rfl

@[simp] theorem close_closed : (s.close i).closed = Function.update s.closed i true := by
  unfold ServerState.close
  split
  next h => rw [← h, Function.update_eq_self]
  next =>
    funext j
    by_cases hj : j = i
    · simp [ServerState.closed, hj]
    · simp [ServerState.closed, hj]

theorem mem_close_listened {e : ListenerEvent} (he : ∀ j, e ≠ .connClosed j) :
    e ∈ (s.close i).listened ↔ e ∈ s.listened := by
  unfold ServerState.close
  split
  next => exact Iff.rfl
  next => simp [he i]

@[simp] theorem withSession_serve : (s.withSession i t).serve = s.serve := by
  unfold ServerState.withSession; split <;> simp

@[simp] theorem withSession_session : (s.withSession i t).session = Function.update s.session i t := rfl

/-- A step that closes no connection. -/
theorem closed_append {es : List ListenerEvent} (h : ∀ i, .connClosed i ∉ es) (serve : ServeState) :
    ServerState.closed { s with serve := serve, listened := s.listened ++ es } = s.closed := by
  funext i
  simp [ServerState.closed, h i]

end

/-! ## The parts run as they do alone -/

theorem serve_run {as : List ServerAct} (h : (server su).exec as = some s) :
    ∃ bs, (serve su.drainTimeout).exec bs = some s.serve := by
  refine Machine.invariant (I := fun _ s => ∃ bs, (serve su.drainTimeout).exec bs = some s.serve) ⟨[], rfl⟩ ?_ h
  rintro as s a s' - ⟨bs, hbs⟩ hs
  have hnext {a : ServeAct} {t : ServeState} (ht : serveStep su.drainTimeout s.serve a = some t) :
      ∃ bs, (serve su.drainTimeout).exec bs = some t :=
        ⟨bs ++ [a], Machine.execFrom_snoc.mpr ⟨_, hbs, ht⟩⟩
  cases serverStep_move hs with
  | cancel => exact hnext (a := .cancel) rfl
  | serve _ ht => exact hnext ht
  | accept _ hl =>
    refine hnext (a := .acceptConn) ?_
    simp only [serveStep, hl]
  | acceptErr hl =>
    refine hnext (a := .acceptErr) ?_
    simp only [serveStep, hl]
  | deny => exact ⟨bs, hbs⟩
  | session | close => exact ⟨bs, by simpa using hbs⟩

theorem session_run {as : List ServerAct} (h : (server su).exec as = some s) (i : Nat) :
    ∃ bs, (shutdown (su.client i)).exec bs = some (s.session i) := by
  refine Machine.invariant (I := fun _ s => ∃ bs, (shutdown (su.client i)).exec bs = some (s.session i)) ⟨[], rfl⟩ ?_ h
  rintro as s a s' - ⟨bs, hbs⟩ hs
  have hnext {a : ShutdownAct} {t : ShutdownState} (ht : shutdownStep (su.client i) (s.session i) a = some t) :
      ∃ bs, (shutdown (su.client i)).exec bs = some t :=
        ⟨bs ++ [a], Machine.execFrom_snoc.mpr ⟨_, hbs, ht⟩⟩
  cases serverStep_move hs with
  | cancel => exact hnext (a := .cancel) rfl
  | @session j _ t _ _ _ ht =>
    rw [withSession_session]
    by_cases hj : i = j
    · subst hj
      rw [Function.update_self]
      exact hnext ht
    · rw [Function.update_of_ne hj]
      exact ⟨bs, hbs⟩
  | close => exact ⟨bs, by simpa using hbs⟩
  | _ => exact ⟨bs, hbs⟩

/-! ## A session on its way out -/

/-- The steps that a session may still take, once the context is done. -/
def sessionSteps : SessionPc → Nat
  | .rebinding _ _ _ => 14
  | .validating _ _ => 13
  | .serving _ _ => 12
  | .locking _ => 11
  | .checking _ => 10
  | .marking _ => 9
  | .releasing _ => 8
  | .reading _ => 7
  | .relocking _ _ _ => 6
  | .unmarking _ _ _ => 5
  | .unlocking _ _ _ => 4
  | .rechecking _ _ _ => 3
  | .refusing => 3
  | .leaving => 2
  | .stopped => 1
  | .ended => 0

def watcherSteps : WatcherPc → Nat
  | .waiting => 5
  | .locking => 4
  | .checking => 3
  | .closing => 2
  | .unlocking => 1
  | .finished => 0

/-- What a step of a session or its watcher leaves. -/
structure Leaves (t t' : ShutdownState) : Prop where
  ctxDone : t'.ctxDone = t.ctxDone
  closed : t.connClosed = true → t'.connClosed = true
  ended : t'.session = .ended → t.session = .ended ∨ t'.connClosed = true
  stays : t.session = .ended → t'.session = .ended
  steps : t.ctxDone = true →
    sessionSteps t'.session + watcherSteps t'.watcher < sessionSteps t.session + watcherSteps t.watcher

section

variable {cfg : Config} {t t' : ShutdownState}

/-- The session goes on to a place before its end. -/
theorem Leaves.goto {pc : SessionPc} {es : List SessionEvent} {mu : Option Thread}
    {idle stop : Bool} {reads : Nat} (hpc : pc ≠ .ended) (hne : t.session ≠ .ended)
    (hw : t.ctxDone = true → sessionSteps pc < sessionSteps t.session) :
    Leaves t { t.goto pc es with mu := mu, idle := idle, stopWatch := stop, reads := reads } where
  ctxDone := rfl
  closed := id
  ended h := absurd h hpc
  stays h := absurd h hne
  steps hc := Nat.add_lt_add_right (hw hc) _

theorem Leaves.serve {n : Nat} (how : Option Serving) (hne : t.session ≠ .ended)
    (hw : 12 < sessionSteps t.session) : Leaves t (t.serve n how) := by
  cases how with
  | none => exact .goto (by simp) hne fun _ => Nat.lt_trans (by decide) hw
  | some how => exact .goto (by simp) hne fun _ => hw

theorem sessionStep_leaves (h : sessionStep cfg t = some t') : Leaves t t' := by
  cases hpc : t.session with
  | locking l | relocking l n r =>
    simp only [sessionStep, hpc] at h
    obtain ⟨-, h⟩ := Option.ite_none_right_eq_some.mp h
    cases h
    exact .goto (by simp) (by simp [hpc]) fun _ => by simp [hpc, sessionSteps]
  | checking l =>
    simp only [sessionStep, hpc] at h
    split at h <;> cases h <;> exact .goto (by simp) (by simp [hpc]) fun _ => by simp [hpc, sessionSteps]
  | marking l | releasing l | refusing | unmarking l n r | unlocking l n r | leaving =>
    simp only [sessionStep, hpc] at h
    cases h
    exact .goto (by simp) (by simp [hpc]) fun _ => by simp [hpc, sessionSteps]
  | rechecking l n r =>
    simp only [sessionStep, hpc] at h
    split at h
    next hc =>
      cases h
      exact .goto (by simp) (by simp [hpc]) fun _ => by simp [hpc, sessionSteps]
    next hc =>
      split at h <;> cases h <;> exact .goto (by simp) (by simp [hpc]) fun hc' => absurd hc' hc
  | validating n req =>
    simp only [sessionStep, hpc] at h
    cases h
    exact .serve _ (by simp [hpc]) (by simp [hpc, sessionSteps])
  | rebinding b n req =>
    simp only [sessionStep, hpc] at h
    split at h
    next =>
      cases h
      exact .goto (by simp) (by simp [hpc]) fun _ => by simp [hpc, sessionSteps]
    next =>
      cases h
      exact .serve _ (by simp [hpc]) (by simp [hpc, sessionSteps])
  | stopped =>
    simp only [sessionStep, hpc] at h
    cases h
    refine ⟨rfl, fun _ => rfl, fun _ => .inr rfl, fun he => by simp [hpc] at he, fun _ => ?_⟩
    exact Nat.add_lt_add_right (by simp [hpc, sessionSteps, ShutdownState.goto]) _
  | reading | serving | ended =>
    simp only [sessionStep, hpc] at h
    cases h

/-- The watcher goes on. -/
theorem Leaves.watch {pc : WatcherPc} {mu : Option Thread} {closed : Bool}
    {trace : List SessionEvent}
    (hcl : t.connClosed = true → closed = true) (hw : watcherSteps pc < watcherSteps t.watcher) :
    Leaves t { t with watcher := pc, mu := mu, connClosed := closed, trace := trace } where
  ctxDone := rfl
  closed := hcl
  ended h := .inl h
  stays := id
  steps _ := Nat.add_lt_add_left hw _

theorem watcherStep_leaves (h : watcherStep t = some t') : Leaves t t' := by
  cases hpc : t.watcher with
  | waiting | locking =>
    simp only [watcherStep, hpc] at h
    obtain ⟨-, h⟩ := Option.ite_none_right_eq_some.mp h
    cases h
    exact .watch id (by rw [hpc]; decide)
  | checking =>
    simp only [watcherStep, hpc] at h
    cases h
    exact .watch id (by rw [hpc]; split <;> decide)
  | closing =>
    simp only [watcherStep, hpc] at h
    cases h
    exact .watch (fun _ => rfl) (by rw [hpc]; decide)
  | unlocking =>
    simp only [watcherStep, hpc] at h
    cases h
    exact .watch id (by rw [hpc]; decide)
  | finished =>
    simp only [watcherStep, hpc] at h
    cases h

theorem shutdownStep_leaves {a : ShutdownAct} (ha : a.isCancel = false)
    (h : shutdownStep cfg t a = some t') : Leaves t t' := by
  cases a with
  | cancel => cases ha
  | session => exact sessionStep_leaves h
  | watcher => exact watcherStep_leaves h
  | readReturns r =>
    simp only [shutdownStep] at h
    split at h
    next l hpc =>
      cases h
      exact .goto (by simp) (by simp [hpc]) fun _ => by simp [hpc, sessionSteps]
    next => cases h
  | relayReturns reuse =>
    simp only [shutdownStep] at h
    split at h
    next how n hpc =>
      cases h
      refine .goto ?_ (by simp [hpc]) fun _ => ?_
      · cases how <;> cases reuse <;> simp
      · cases how <;> cases reuse <;> simp [hpc, sessionSteps]
    next => cases h
  | stop =>
    simp only [shutdownStep] at h
    split at h
    next hpc =>
      obtain ⟨-, h⟩ := Option.ite_none_right_eq_some.mp h
      cases h
      exact .watch id (by rw [hpc]; decide)
    next => cases h

end

/-- A session closes its connection before it ends. -/
theorem closed_of_ended {cfg : Config} {as : List ShutdownAct} {t : ShutdownState}
    (h : (shutdown cfg).exec as = some t) (he : t.session = .ended) : t.connClosed = true := by
  refine Machine.invariant (I := fun _ t => t.session = .ended → t.connClosed = true) (fun h => by cases h) ?_ h he
  intro as t a t' _ ih hs he
  by_cases ha : a.isCancel = true
  · cases a with
    | cancel => cases hs; exact ih he
    | _ => cases ha
  · have hl := shutdownStep_leaves (Bool.eq_false_iff.mpr ha) hs
    rcases hl.ended he with he | hc
    · exact hl.closed (ih he)
    · exact hc

/-! ## What holds the parts together -/

/-- A session is where it starts, and its connection is open. -/
structure Fresh (closed denied : Bool) (t : ShutdownState) : Prop where
  opened : closed = false
  undenied : denied = false
  session : t.session = .locking .run
  watcher : t.watcher = .waiting
  connClosed : t.connClosed = false

structure Coupled (su : Setup) (s : ServerState) : Prop where
  ctx : ∀ i, (s.session i).ctxDone = s.serve.ctxDone
  fresh : ∀ i, (s.serve.handler i).begun = false → Fresh (s.closed i) (s.denied i) (s.session i)
  returned : ∀ i, s.serve.handler i = .returning ∨ s.serve.handler i = .finished →
    s.hasReturned su i = true
  closed : ∀ i, (s.session i).connClosed = true → s.closed i = true
  told : .closed ∈ s.listened ↔ s.serve.listenerClosed = true

theorem tells_not_connClosed (t : ServeState) (a : ServeAct) (i : Nat) :
    .connClosed i ∉ t.tells a := by
  unfold ServeState.tells
  split <;> simp

theorem tells_eq_nil {t : ServeState} {a : ServeAct} (h : a = .main → t.main ≠ .closing) :
    t.tells a = [] :=
  if_neg fun ⟨ha, hm⟩ => h ha hm

namespace Coupled

theorem init : Coupled su (server su).init where
  ctx _ := rfl
  fresh _ _ := ⟨rfl, rfl, rfl, rfl, rfl⟩
  returned _ h := by simp [server] at h
  closed _ h := by cases h
  told := by simp [server]

/-- What `Serve` and its listener do by themselves, as far as it does not
concern the handlers. -/
theorem listen {t : ServeState} {es : List ListenerEvent} (h : Coupled su s)
    (hc : ∀ i, .connClosed i ∉ es) (hctx : t.ctxDone = s.serve.ctxDone)
    (hfresh : ∀ i, (t.handler i).begun = false → (s.serve.handler i).begun = false)
    (hreturned : ∀ i, t.handler i = .returning ∨ t.handler i = .finished → s.hasReturned su i = true)
    (htold : .closed ∈ s.listened ++ es ↔ t.listenerClosed = true) :
    Coupled su { s with serve := t, listened := s.listened ++ es } where
  ctx i := (h.ctx i).trans hctx.symm
  fresh i hi := by
    rw [closed_append s hc]
    exact h.fresh i (hfresh i hi)
  returned i hi := by
    have ho := hreturned i hi
    rw [ServerState.hasReturned] at ho ⊢
    rwa [closed_append s hc]
  closed i hi := by
    rw [closed_append s hc]
    exact h.closed i hi
  told := htold

/-- A handler goes on. -/
theorem handle {i : Nat} {pc : HandlerPc} {t : ServeState} (h : Coupled su s)
    (ht : t.handler = Function.update s.serve.handler i pc) (hctx : t.ctxDone = s.serve.ctxDone)
    (hcl : t.listenerClosed = s.serve.listenerClosed)
    (hfresh : pc.begun = false → (s.serve.handler i).begun = false)
    (hreturned : pc = .returning ∨ pc = .finished → s.hasReturned su i = true) :
    Coupled su { s with serve := t, listened := s.listened ++ [] } := by
  refine h.listen (by simp) hctx (fun j hj => ?_) (fun j hj => ?_) (by rw [List.append_nil, hcl]; exact h.told)
  · rw [ht] at hj
    by_cases hji : j = i
    · subst hji
      rw [Function.update_self] at hj
      exact hfresh hj
    · rwa [Function.update_of_ne hji] at hj
  · rw [ht] at hj
    by_cases hji : j = i
    · subst hji
      rw [Function.update_self] at hj
      exact hreturned hj
    · rw [Function.update_of_ne hji] at hj
      exact h.returned j hj

/-- What `Serve` does by itself. -/
theorem serve {a : ServeAct} {t : ServeState} (hcount : SP.Proof.Serve.CountInv s.serve)
    (h : Coupled su s)
    (hmay : s.mayStep su a = true) (hs : serveStep su.drainTimeout s.serve a = some t) :
    Coupled su { s with serve := t, listened := s.listened ++ s.serve.tells a } := by
  have hquiet {t : ServeState} (hn : a = .main → s.serve.main ≠ .closing) (hh : t.handler = s.serve.handler)
      (hctx : t.ctxDone = s.serve.ctxDone) (hcl : t.listenerClosed = s.serve.listenerClosed) :
      Coupled su { s with serve := t, listened := s.listened ++ s.serve.tells a } := by
    rw [tells_eq_nil hn]
    exact h.listen (by simp) hctx (fun i hi => by rwa [hh] at hi) (fun i hi => h.returned i (by rwa [hh] at hi))
      (by rw [List.append_nil, hcl]; exact h.told)
  cases serveStep_move hs with
  | cancel | accept | acceptErr => cases hmay
  | @start i hl =>
    have habs := (hcount.inHand i hl).2
    exact h.handle rfl rfl rfl (fun _ => by rw [habs]; rfl) fun hpc => by simp at hpc
  | @enter i hi => exact h.handle rfl rfl rfl (fun hpc => by cases hpc) fun hpc => by simp at hpc
  | @exit i hi =>
    have hover : s.hasReturned su i = true := by simpa [ServerState.mayStep, hi] using hmay
    exact h.handle rfl rfl rfl (fun hpc => by cases hpc) fun _ => hover
  | @finish i hi => exact h.handle rfl rfl rfl (fun hpc => by cases hpc) fun _ => h.returned i (.inl hi)
  | shut hm =>
    refine h.listen (fun i => tells_not_connClosed _ _ i) rfl (fun _ => id) h.returned ?_
    simp [ServeState.tells, hm]
  | look | leave | backoff | timer | interrupt | wait | empty | close | arm | forced =>
    exact hquiet (fun ha => by cases ha) rfl rfl rfl
  | woken hm | join hm | spawn hm | drained hm => exact hquiet (fun _ => by simp [hm]) rfl rfl rfl

/-- A client connection is closed. -/
theorem close {i : Nat} (h : Coupled su s) (hb : (s.serve.handler i).begun = true) :
    Coupled su (s.close i) where
  ctx j := by simpa using h.ctx j
  fresh j hj := by
    rw [close_serve] at hj
    have hji : j ≠ i := by
      rintro rfl
      rw [hb] at hj
      cases hj
    obtain ⟨h₁, h₂, h₃, h₄, h₅⟩ := h.fresh j hj
    exact ⟨by simp [hji, h₁], by simpa using h₂, by simpa using h₃, by simpa using h₄, by simpa using h₅⟩
  returned j hj := by
    rw [close_serve] at hj
    have ho := h.returned j hj
    unfold ServerState.hasReturned at ho ⊢
    rw [close_session, close_closed]
    split
    next hadm => rwa [if_pos hadm] at ho
    next hadm =>
      rw [if_neg hadm] at ho
      by_cases hji : j = i
      · simp [hji]
      · simpa [hji] using ho
  closed j hj := by
    rw [close_session] at hj
    rw [close_closed]
    by_cases hji : j = i
    · simp [hji]
    · simpa [hji] using h.closed j hj
  told := by
    rw [mem_close_listened s i (by simp), close_serve]
    exact h.told

/-- A session that does not close its connection takes a step. -/
theorem update {i : Nat} {t : ShutdownState} (h : Coupled su s)
    (hb : (s.serve.handler i).begun = true)
    (hl : Leaves (s.session i) t) (hc : t.connClosed = true → s.closed i = true) :
    Coupled su { s with session := Function.update s.session i t } where
  ctx j := by
    by_cases hji : j = i
    · subst hji
      simpa using hl.ctxDone.trans (h.ctx j)
    · simpa [hji] using h.ctx j
  fresh j hj := by
    have hji : j ≠ i := by
      rintro rfl
      exact absurd (hb.symm.trans hj) (by simp)
    obtain ⟨h₁, h₂, h₃, h₄, h₅⟩ := h.fresh j hj
    exact ⟨h₁, h₂, by simpa [hji] using h₃, by simpa [hji] using h₄, by simpa [hji] using h₅⟩
  returned j hj := by
    have ho := h.returned j hj
    unfold ServerState.hasReturned at ho ⊢
    split
    next hadm =>
      rw [if_pos hadm] at ho
      by_cases hji : j = i
      · subst hji
        have hend : (s.session j).session = .ended := by
          cases hpc : (s.session j).session <;> simp_all [SessionPc.isEnded]
        simp [hl.stays hend, SessionPc.isEnded]
      · simpa [hji] using ho
    next hadm => rwa [if_neg hadm] at ho
  closed j hj := by
    by_cases hji : j = i
    · subst hji
      exact hc (by simpa using hj)
    · exact h.closed j (by simpa [hji] using hj)
  told := h.told

theorem withSession {i : Nat} {t : ShutdownState} (h : Coupled su s)
    (hb : (s.serve.handler i).begun = true)
    (hl : Leaves (s.session i) t) : Coupled su (s.withSession i t) := by
  unfold ServerState.withSession
  split
  next =>
    rw [← close_session s i]
    exact (h.close hb).update (by simpa using hb) (by simpa using hl) fun _ => by simp
  next hc => exact h.update hb hl fun hc' => absurd hc' hc

theorem deny {i : Nat} (h : Coupled su s) (hb : (s.serve.handler i).begun = true) :
    Coupled su { s with denied := Function.update s.denied i true } :=
  { h with
    returned := h.returned
    fresh := fun j hj => by
      have hji : j ≠ i := by
        rintro rfl
        exact absurd (hb.symm.trans hj) (by simp)
      obtain ⟨h₁, h₂, h₃, h₄, h₅⟩ := h.fresh j hj
      exact ⟨h₁, by simpa [hji] using h₂, h₃, h₄, h₅⟩ }

theorem step {a : ServerAct} (hcount : SP.Proof.Serve.CountInv s.serve) (h : Coupled su s)
    (hs : serverStep su s a = some s') : Coupled su s' := by
  cases serverStep_move hs with
  | cancel =>
    exact { h with
      ctx := fun _ => rfl, returned := h.returned
      fresh := fun i hi => by
        obtain ⟨h₁, h₂, h₃, h₄, h₅⟩ := h.fresh i hi
        exact ⟨h₁, h₂, h₃, h₄, h₅⟩ }
  | serve hmay ht => exact h.serve hcount hmay ht
  | accept | acceptErr => exact h.listen (by simp) rfl (fun _ => id) h.returned (by simpa using h.told)
  | session hb _ ha ht => exact h.withSession hb (shutdownStep_leaves ha ht)
  | deny hi => exact h.deny (by rw [hi]; rfl)
  | close hi => exact h.close (by rw [hi]; rfl)

end Coupled

/-- `Serve` keeps its invariants under the server. -/
theorem server_serveInv {as : List ServerAct} (h : (server su).exec as = some s) :
    SP.Proof.Serve.OrderInv su.drainTimeout s.serve ∧ SP.Proof.Serve.CountInv s.serve := by
  obtain ⟨bs, hbs⟩ := serve_run h
  exact SP.Proof.Serve.serve_inv hbs

theorem server_onward {as : List ServerAct} (h : (server su).exec as = some s) :
    SP.Proof.Serve.Onward s.serve := by
  obtain ⟨bs, hbs⟩ := serve_run h
  exact SP.Proof.Serve.serve_onward hbs

theorem server_coupled {as : List ServerAct} (h : (server su).exec as = some s) : Coupled su s :=
  Machine.invariant (I := fun _ s => Coupled su s) Coupled.init
    (fun hs hi hstep => hi.step (server_serveInv hs).2 hstep) h

/-- When `handleClientCtx` has returned, the client's connection is closed. -/
theorem closed_of_returned {as : List ServerAct} (h : (server su).exec as = some s) {i : Nat}
    (ho : s.hasReturned su i = true) : s.closed i = true := by
  unfold ServerState.hasReturned at ho
  split at ho
  next =>
    obtain ⟨bs, hbs⟩ := session_run h i
    refine (server_coupled h).closed i (closed_of_ended hbs ?_)
    cases hpc : (s.session i).session <;> simp_all [SessionPc.isEnded]
  next => exact ho

end SP.Proof.Server
