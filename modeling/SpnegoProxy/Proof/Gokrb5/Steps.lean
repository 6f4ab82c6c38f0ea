import SpnegoProxy.Framework.Ends
import SpnegoProxy.Spec.Gokrb5

/-!
# The password login: what a step does

One inductive for each method says which ways there are through it, and the
lemma beside it that there are no others. `step_moves` says the same of a
call of `GetToken`, a tick and a call of `Close`.
-/

namespace SP.Proof.Gokrb5

open SP.Go SP.Impl SP.Spec

variable {mac : Str → Str → Str}

/-! ## What the methods do -/

@[simp] theorem emit_p (s : Krb) (e : KrbEvent) : (s.emit e).p = s.p := rfl

@[simp] theorem emit_clock (s : Krb) (e : KrbEvent) : (s.emit e).clock = s.clock := rfl

@[simp] theorem emit_events (s : Krb) (e : KrbEvent) : (s.emit e).events = s.events ++ [e] := rfl

/-- The ways through `checkPasswordRejected`. -/
inductive Checked (mac : Str → Str → Str) (file : PasswordFile) (s : Krb) :
    Option GoError → Krb → Prop where
  | clear (h : s.p.passwordRejected = false) : Checked mac file s none s
  | refused {e : GoError} (h : s.p.passwordRejected = true) :
      Checked mac file s (some e) (s.emit (.read (s.p.readPassword file)))
  | changed {passwd : Str} (h : s.p.passwordRejected = true) (hr : s.p.readPassword file = .ok passwd)
      (hne : s.p.passwordFingerprint mac passwd ≠ s.p.rejectedFingerprint) :
      Checked mac file s none { s.emit (.read (.ok passwd)) with p := { s.p with passwordRejected := false } }

theorem checkPasswordRejected_ends (file : PasswordFile) (s : Krb) :
    Ends (checkPasswordRejected mac file) s (Checked mac file s) fun _ =>
      s.p.passwordRejected = true ∧ s.p.rejectWarnTicker = false := by
  unfold checkPasswordRejected
  refine Ends.bind_iff.mpr (Ends.get_iff.mpr ?_)
  refine Ends.ite (fun h => ?_) fun h => ?_
  · exact .clear (by simpa using h)
  · have hrej : s.p.passwordRejected = true := by simpa using h
    refine Ends.bind_iff.mpr (Ends.modify_iff.mpr ?_)
    split
    next e hr => exact Ends.pure_iff.mpr (.refused hrej)
    next passwd hr =>
      refine Ends.ite (fun hne => ?_) fun _ => Ends.pure_iff.mpr (.refused hrej)
      refine Ends.bind_iff.mpr (Ends.modify_iff.mpr ?_)
      refine Ends.ite (fun ht => ?_) fun _ => ?_
      · exact Ends.bind_iff.mpr (Ends.throw_iff.mpr ⟨hrej, by simpa using ht⟩)
      · rw [hr]
        exact .changed hrej hr hne

/-- The ways through `acquireCredential`: no login is sent if the request
cannot be built. -/
inductive Acquired (x : Call) (passwd : Str) (s : Krb) :
    Except String (TicketClient × Int) → Krb → Prop where
  | unsent {e : String} (h : x.asReq = some e) : Acquired x passwd s (.error e) s
  | failed {e : String} (he : ∀ e', x.asExchange = .error e' → e = e') :
      Acquired x passwd s (.error e) (s.emit (.login s.p s.clock passwd x.asExchange))
  | succeeded {r : TicketClient × Int} (h : LoginSucceeds x) :
      Acquired x passwd s (.ok r) (s.emit (.login s.p s.clock passwd x.asExchange))

theorem acquireCredential_ends (x : Call) (passwd : Str) (s : Krb) :
    Ends (acquireCredential x passwd) s (Acquired x passwd s) fun _ => False := by
  unfold acquireCredential
  split
  next e h => exact Ends.pure_iff.mpr (.unsent h)
  next h₁ =>
    have hreq : x.asReq = none := Option.eq_none_iff_forall_ne_some.mpr fun e h => h₁ e h
    refine Ends.bind_iff.mpr (Ends.modify_iff.mpr ?_)
    split
    next e h => exact Ends.pure_iff.mpr (.failed fun e' h' => by rw [h] at h'; cases h'; rfl)
    next part h =>
      have hfail {e : String} (e' : String) (h' : x.asExchange = .error e') : e = e' :=
        by rw [h] at h'; cases h'
      split
      next => exact Ends.pure_iff.mpr (.failed hfail)
      next h₂ =>
        split
        next => exact Ends.pure_iff.mpr (.failed hfail)
        next h₃ =>
          exact Ends.pure_iff.mpr (.succeeded ⟨hreq, ⟨part, h⟩,
            Option.eq_none_iff_forall_ne_some.mpr fun e h => h₂ e h,
            Option.eq_none_iff_forall_ne_some.mpr fun e h => h₃ e h⟩)

/-- `rejectPassword`, as a function on states. -/
def reject (fingerprint : Str) (s : Krb) : Krb :=
  let s' := { s with p := { s.p with passwordRejected := true, rejectedFingerprint := fingerprint } }
  if s.p.rejectWarnTicker then s'
  else
    { s' with
      p := { s'.p with rejectWarnTicker := true, rejectWarnStop := some s.stops.length }
      stops := s.stops ++ [false]
      warners := s.warners ++ [{ stop := s.stops.length }] }

theorem rejectPassword_ends (fingerprint : Str) (s : Krb) :
    Ends (rejectPassword fingerprint) s (fun _ s' => s' = reject fingerprint s) fun _ => False := by
  unfold rejectPassword reject
  refine Ends.bind_iff.mpr (Ends.modify_iff.mpr (Ends.bind_iff.mpr (Ends.get_iff.mpr ?_)))
  refine Ends.ite (fun h => ?_) fun h => ?_
  · exact Ends.pure_iff.mpr (if_pos h).symm
  · exact Ends.modify_iff.mpr (if_neg h).symm

/-- The ways through `ticketGrantingClient`. -/
inductive Granted (mac : Str → Str → Str) (x : Call) (s : Krb) :
    Except GoError TicketClient → Krb → Prop where
  | cached {c : TicketClient} (hc : s.p.ticketClient = some c) (hnow : s.clock < s.p.ticketRefreshAt) :
      Granted mac x s (.ok c) s
  | unread {e : GoError} {err : String} (hstale : ¬ s.p.Fresh s.clock) (hr : s.p.readPassword x.login = .error err) :
      Granted mac x s (.error e) (s.emit (.read (.error err)))
  | failed {e : GoError} {passwd : Str} {err : String} {s₁ : Krb} (hstale : ¬ s.p.Fresh s.clock)
      (hr : s.p.readPassword x.login = .ok passwd)
      (ha : Acquired x passwd (s.emit (.read (.ok passwd))) (.error err) s₁) :
      Granted mac x s (.error e)
        (if isPasswordRejection err then reject (s.p.passwordFingerprint mac passwd) s₁ else s₁)
  | replaced {passwd : Str} {c : TicketClient} {t : Int} {s₁ : Krb} (hstale : ¬ s.p.Fresh s.clock)
      (hr : s.p.readPassword x.login = .ok passwd)
      (ha : Acquired x passwd (s.emit (.read (.ok passwd))) (.ok (c, t)) s₁) :
      Granted mac x s (.ok c) { s₁ with p := { s₁.p with ticketClient := some c, ticketRefreshAt := t } }

theorem replaceTicketClient_ends (x : Call) {s : Krb} (hstale : ¬ s.p.Fresh s.clock) :
    Ends (replaceTicketClient mac x) s (Granted mac x s) fun _ => False := by
  unfold replaceTicketClient
  refine Ends.bind_iff.mpr (Ends.get_iff.mpr (Ends.bind_iff.mpr (Ends.modify_iff.mpr ?_)))
  split
  next err hr =>
    rw [hr]
    exact Ends.pure_iff.mpr (.unread hstale hr)
  next passwd hr =>
    rw [hr]
    refine Ends.bind_iff.mpr ((acquireCredential_ends x passwd _).mono (fun r s₁ ha => ?_) fun _ h => h.elim)
    split
    next err =>
      have hf : Granted mac x s (.error (credentialErrorOf ("could not acquire client credential: " ++ err) err))
          (if isPasswordRejection err then reject (s.p.passwordFingerprint mac passwd) s₁ else s₁) :=
        .failed hstale hr ha
      refine Ends.ite (fun h => ?_) fun h => ?_
      · rw [if_pos h] at hf
        refine Ends.bind_iff.mpr ((rejectPassword_ends _ s₁).mono (fun _ s₂ h₂ => ?_) fun _ h => h.elim)
        exact Ends.pure_iff.mpr (h₂ ▸ hf)
      · rw [if_neg h] at hf
        exact Ends.pure_iff.mpr hf
    next c t => exact Ends.bind_iff.mpr (Ends.modify_iff.mpr (Ends.pure_iff.mpr (.replaced hstale hr ha)))

theorem ticketGrantingClient_ends (x : Call) (s : Krb) :
    Ends (ticketGrantingClient mac x) s (Granted mac x s) fun _ => False := by
  unfold ticketGrantingClient
  refine Ends.bind_iff.mpr (Ends.get_iff.mpr ?_)
  split
  next c hc =>
    refine Ends.ite (fun hnow => Ends.pure_iff.mpr (.cached hc hnow)) fun hnow => ?_
    exact replaceTicketClient_ends x fun hf => hnow hf.2
  next hc => exact replaceTicketClient_ends x fun hf => by simpa [hc] using hf.1

/-- The ways through `GetToken`. -/
inductive Called (mac : Str → Str → Str) (x : Call) (s : Krb) :
    Except GoError Str → Krb → Prop where
  | closed {e : GoError} (hc : s.p.closed = true) : Called mac x s (.error e) s
  | refused {e : GoError} {s' : Krb} (hc : s.p.closed = false) (h : Checked mac x.check s (some e) s') :
      Called mac x s (.error e) s'
  | went {r : Except GoError TicketClient} {r' : Except GoError Str} {s₁ s' : Krb} (hc : s.p.closed = false)
      (h : Checked mac x.check s none s₁) (hg : Granted mac x s₁ r s') : Called mac x s r' s'

theorem getToken_ends (x : Call) (s : Krb) : Ends (getToken mac x) s (Called mac x s) fun _ =>
    s.p.closed = false ∧ s.p.passwordRejected = true ∧ s.p.rejectWarnTicker = false := by
  unfold getToken
  refine Ends.bind_iff.mpr (Ends.get_iff.mpr (Ends.ite (fun hc => Ends.pure_iff.mpr (.closed hc)) fun hc => ?_))
  have hc : s.p.closed = false := by simpa using hc
  refine Ends.bind_iff.mpr ((checkPasswordRejected_ends x.check s).mono (fun r s₁ h => ?_) fun _ h => ⟨hc, h⟩)
  split
  next e => exact Ends.pure_iff.mpr (.refused hc h)
  next hr =>
    cases r with
    | some e => exact (hr e rfl).elim
    | none =>
      refine Ends.bind_iff.mpr ((ticketGrantingClient_ends x s₁).mono (fun r s₂ hg => ?_) fun _ h => h.elim)
      repeat' split
      all_goals exact Ends.pure_iff.mpr (.went hc h hg)

/-- `Close`, with what it leaves of the stop channels. -/
def closeWith (s : Krb) (stops : List Bool) : Krb :=
  { s with
    p := { s.p with
      closed := true
      ticketClient := none
      rejectWarnTicker := false
      stdinPassword := []
      fingerprintKey := List.replicate sha256Size 0
      rejectedFingerprint := List.replicate sha256Size 0 }
    stops := stops }

/-- The ways through `Close`. -/
inductive ProviderCloses (s : Krb) : Krb → Prop where
  | silent (ht : s.p.rejectWarnTicker = false) : ProviderCloses s (closeWith s s.stops)
  | warning {c : Nat} (ht : s.p.rejectWarnTicker = true) (hc : s.p.rejectWarnStop = some c)
      (ho : s.stops.getD c false = false) : ProviderCloses s (closeWith s (s.stops.set c true))

/-- `Close` would fault. -/
def StopFaults (s : Krb) : Prop :=
  s.p.rejectWarnTicker = true ∧ ∀ c, s.p.rejectWarnStop = some c → s.stops.getD c false = true

theorem closeProvider_ends (s : Krb) :
    Ends closeProvider s (fun _ => ProviderCloses s) fun _ => StopFaults s := by
  unfold closeProvider
  refine Ends.bind_iff.mpr (Ends.modify_iff.mpr (Ends.bind_iff.mpr (Ends.get_iff.mpr ?_)))
  refine Ends.ite (fun ht => ?_) fun ht => ?_
  · have ht : s.p.rejectWarnTicker = true := ht
    refine Ends.bind_iff.mpr (Ends.bind_iff.mpr (Ends.get_iff.mpr ?_))
    split
    next hc => exact Ends.throw_iff.mpr ⟨ht, fun c hc' => by simp [show s.p.rejectWarnStop = none from hc] at hc'⟩
    next c hc =>
      have hc : s.p.rejectWarnStop = some c := hc
      refine Ends.ite (fun ho => ?_) fun ho => ?_
      · refine Ends.bind_iff.mpr (Ends.throw_iff.mpr ⟨ht, fun c' hc' => ?_⟩)
        rw [hc] at hc'
        cases hc'
        exact ho
      · have ho : s.stops.getD c false = false := by simpa using ho
        exact Ends.set_iff.mpr (Ends.bind_iff.mpr (Ends.modify_iff.mpr (Ends.modify_iff.mpr (.warning ht hc ho))))
  · have ht : s.p.rejectWarnTicker = false := by simpa using ht
    have hs := ProviderCloses.silent ht
    simp only [closeWith, ← ht] at hs
    exact Ends.modify_iff.mpr hs

/-! ## What a step does -/

/-- The steps of the provider. -/
inductive Step (mac : Str → Str → Str) (s : Krb) : KrbAct → Krb → Prop where
  | call {x : Call} {r : Except GoError Str} {s' : Krb} (hnow : s.clock ≤ x.now) (hlater : x.now ≤ x.later)
      (h : Called mac x { s with clock := x.now } r s') :
      Step mac s (.getToken x) { s'.emit (.returned r) with clock := x.later }
  | idle {i : Nat} {file : PasswordFile} : Step mac s (.tick i file) s
  | tick {i : Nat} {file : PasswordFile} {r : Option GoError} {s' : Krb} (hc : s.p.closed = false)
      (h : Checked mac file s r s') : Step mac s (.tick i file) s'
  | stopped {i : Nat} {ws : List Warner} : Step mac s (.stopped i) { s with warners := ws }
  | close {s' : Krb} (h : ProviderCloses s s') : Step mac s .close s'

theorem program_ends {s : Krb} {a : KrbAct} (ha : s.canTake a) :
    Ends (a.program mac) s (fun _ => Step mac s a) fun _ => True := by
  cases a with
  | getToken x =>
    have hx : s.clock ≤ x.now ∧ x.now ≤ x.later := by simpa [Krb.canTake] using ha
    refine Ends.bind_iff.mpr (Ends.modify_iff.mpr (Ends.bind_iff.mpr ?_))
    refine (getToken_ends x _).mono (fun r s' h => ?_) fun _ _ => trivial
    exact Ends.modify_iff.mpr (.call hx.1 hx.2 h)
  | tick i file =>
    refine Ends.bind_iff.mpr (Ends.get_iff.mpr (Ends.ite (fun h => ?_) fun _ => Ends.pure_iff.mpr .idle))
    have hc : s.p.closed = false := by
      simp only [Bool.and_eq_true, Bool.not_eq_true'] at h
      exact h.1
    refine Ends.bind_iff.mpr ((checkPasswordRejected_ends file s).mono (fun r s' h' => ?_) fun _ _ => trivial)
    exact Ends.pure_iff.mpr (.tick hc h')
  | stopped i => exact Ends.modify_iff.mpr .stopped
  | close => exact (closeProvider_ends s).mono (fun _ _ => .close) fun _ _ => trivial

theorem step_moves {p : Gokrb5TokenProvider} {start : Int} {s s' : Krb} {a : KrbAct}
    (h : (gokrb5 mac p start).step s a = some s') : Step mac s a s' := by
  obtain ⟨ha, h⟩ := Option.ite_none_right_eq_some.mp h
  obtain ⟨-, hs⟩ := (program_ends ha).of_toOption h
  exact hs

end SP.Proof.Gokrb5
