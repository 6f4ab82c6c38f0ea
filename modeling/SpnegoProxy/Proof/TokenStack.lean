import Mathlib.Data.List.Forall2
import Mathlib.Data.List.NodupEquivFin
import Mathlib.Order.WellFounded
import SpnegoProxy.Impl.TokenStack
import SpnegoProxy.Proof.Gokrb5.Login
import SpnegoProxy.Proof.Rejections

/-!
# The password provider behind the breaker

A call of the wrapped `GetToken` in which a login failed is a failure for the
breaker (`getToken_outcome`), so each failed login is one of the failed calls
that the lockout policy bounds, and was sent while that call ran
(`Charged`). `failed_logins_bounded` is the bound on the logins themselves.

The errors of the wrapped provider wrap no error of `gobreaker`, so what a
client is told tells whether a login was tried for it
(`token_errors_classified`).
-/

namespace SP.Proof.TokenStack

open SP.Go SP.Impl SP.Spec SP.Proof.Gokrb5

variable {mac : Str → Str → Str} {threshold : Nat} {timeout : Int}

/-- The two providers from their start at the time `start`. -/
def stack (mac : Str → Str → Str) (threshold : Nat) (timeout : Int) (p : Gokrb5TokenProvider)
    (start : Int) : Machine TokenStack StackAct where
  init := { inner := { p := p, clock := start } }
  step := stackStep mac threshold timeout

/-! ## What a wrapped call returns and shows -/

/-- When a login was sent that failed. -/
def failedLogin : KrbEvent → Option Int
  | .login _ now _ (.error _) => some now
  | _ => none

def failedLogins (es : List KrbEvent) : List Int := es.filterMap failedLogin

/-- `es` is seen from `s` to `s'`, at one reading of the clock. -/
structure Emits (s s' : Krb) (es : List KrbEvent) : Prop where
  clock : s'.clock = s.clock
  events : s'.events = s.events ++ es

theorem Emits.trans {s s' s'' : Krb} {es es' : List KrbEvent} (h : Emits s s' es)
    (h' : Emits s' s'' es') : Emits s s'' (es ++ es') where
  clock := h'.clock.trans h.clock
  events := by rw [h'.events, h.events, List.append_assoc]

theorem Emits.refl (s : Krb) : Emits s s [] := ⟨rfl, by simp⟩

/-- Passwords that were read are no logins. -/
theorem failedLogins_reads {es : List KrbEvent} (h : OnlyReads es) : failedLogins es = [] := by
  refine List.filterMap_eq_nil_iff.mpr fun e he => ?_
  obtain ⟨r, rfl⟩ := h e he
  rfl

/-- A check that refuses gives a `*CredentialError`. -/
theorem checkPasswordRejected_shows (file : PasswordFile) (s : Krb) :
    Ends (checkPasswordRejected mac file) s (fun o s' => (∃ es, Emits s s' es ∧ failedLogins es = []) ∧
      ∀ e, o = some e → ∃ msg, e = credentialError msg) fun _ => True := by
  have hshows : Ends (checkPasswordRejected mac file) s (fun _ s' => ∃ es, Emits s s' es ∧ failedLogins es = [])
      fun _ => True := by
    refine (checkPasswordRejected_ends file s).mono (fun o s' h => ?_) fun _ _ => trivial
    obtain ⟨es, hes, hr⟩ := h.adds
    exact ⟨es, ⟨h.frame.1, hes⟩, failedLogins_reads hr⟩
  have herr : Ends (checkPasswordRejected mac file) s (fun o _ => ∀ e, o = some e → ∃ msg, e = credentialError msg)
      fun _ => True := by
    unfold checkPasswordRejected
    refine Ends.bind_iff.mpr (Ends.get_iff.mpr (Ends.ite (fun _ => Ends.pure_iff.mpr (by simp)) fun _ => ?_))
    refine Ends.bind_iff.mpr (Ends.modify_iff.mpr ?_)
    split
    · exact Ends.pure_iff.mpr fun e he => ⟨_, (Option.some.inj he).symm⟩
    · refine Ends.ite (fun _ => ?_) fun _ => Ends.pure_iff.mpr fun e he => ⟨_, (Option.some.inj he).symm⟩
      refine Ends.bind_iff.mpr (Ends.modify_iff.mpr (Ends.ite (fun _ => ?_) fun _ => Ends.pure_iff.mpr (by simp)))
      exact Ends.bind_iff.mpr (Ends.throw_iff.mpr trivial)
  exact (hshows.and herr).mono (fun _ _ h => h) fun _ _ => trivial

/-- A login that fails is seen, and `acquireCredential` fails with it. -/
theorem acquireCredential_shows (x : Call) (passwd : Str) (s : Krb) :
    Ends (acquireCredential x passwd) s (fun r s' => ∃ es, Emits s s' es ∧
      (failedLogins es = [] ∨ failedLogins es = [s.clock] ∧ ∃ err,
        r = .error err)) fun _ => False := by
  have hlog : Emits s (s.emit (.login s.p s.clock passwd x.asExchange)) [.login s.p s.clock passwd x.asExchange] :=
    ⟨rfl, rfl⟩
  unfold acquireCredential
  split
  next => exact Ends.pure_iff.mpr ⟨[], Emits.refl s, .inl rfl⟩
  next =>
    refine Ends.bind_iff.mpr (Ends.modify_iff.mpr ?_)
    split
    next err hx => exact Ends.pure_iff.mpr ⟨_, hlog, .inr ⟨by simp [failedLogins, failedLogin, hx], err, rfl⟩⟩
    next part hx =>
      have hok : failedLogins [.login s.p s.clock passwd x.asExchange] = [] := by
        simp [failedLogins, failedLogin, hx]
      split
      next => exact Ends.pure_iff.mpr ⟨_, hlog, .inl hok⟩
      next =>
        split
        next => exact Ends.pure_iff.mpr ⟨_, hlog, .inl hok⟩
        next => exact Ends.pure_iff.mpr ⟨_, hlog, .inl hok⟩

/-- How a call ends whose reading of the clock was `t`, by what was seen of
it: a login that fails ends it with a `*CredentialError`. -/
inductive Outcome (x : Call) (t : Int) (es : List KrbEvent) : Except GoError Str → Prop where
  | refused {msg : String} (h : failedLogins es = []) : Outcome x t es (.error (credentialError msg))
  | loginFailed {msg cause : String} (h : failedLogins es = [] ∨ failedLogins es = [t]) :
      Outcome x t es (.error (credentialErrorOf msg cause))
  | notNegotiated {msg cause : String} (h : failedLogins es = []) :
      Outcome x t es (.error (negotiationErrorOf msg cause))
  | token {b : Str} (hb : x.marshalToken = .ok b) (h : failedLogins es = []) : Outcome x t es (.ok (base64Encode b))

/-- Without a client the call ends. -/
def Granting (x : Call) (t : Int) (es : List KrbEvent) : Except GoError TicketClient → Prop
  | .ok _ => failedLogins es = []
  | .error e => Outcome x t es (.error e)

theorem replaceTicketClient_shows (x : Call) (s : Krb) :
    Ends (replaceTicketClient mac x) s (fun r s' => ∃ es, Emits s s' es ∧ Granting x s.clock es r) fun _ => False := by
  have hread {r : Except String Str} : Emits s (s.emit (.read r)) [.read r] := ⟨rfl, rfl⟩
  unfold replaceTicketClient
  refine Ends.bind_iff.mpr (Ends.get_iff.mpr (Ends.bind_iff.mpr (Ends.modify_iff.mpr ?_)))
  split
  next => exact Ends.pure_iff.mpr ⟨_, hread, .refused rfl⟩
  next passwd hr =>
    refine Ends.bind_iff.mpr ((acquireCredential_shows x passwd _).mono (fun r s₁ ha => ?_) fun _ h => h.elim)
    obtain ⟨es, hes, hfail⟩ := ha
    have hall := hread.trans hes
    have hclock : (s.emit (.read (s.p.readPassword x.login))).clock = s.clock := rfl
    rw [hclock] at hfail
    split
    next err =>
      have hout : ∀ {msg cause : String},
        Granting x s.clock (.read (s.p.readPassword x.login) :: es)
          (.error (credentialErrorOf msg cause)) := by
        refine .loginFailed ?_
        simp only [failedLogins, List.filterMap_cons, failedLogin] at hfail ⊢
        exact hfail.imp id And.left
      refine Ends.ite (fun _ => ?_) fun _ => Ends.pure_iff.mpr ⟨_, hall, hout⟩
      refine Ends.bind_iff.mpr ((rejectPassword_ends _ s₁).mono (fun _ s₂ h₂ => ?_) fun _ h => h.elim)
      subst h₂
      exact Ends.pure_iff.mpr ⟨_, ⟨by simp [hall.clock], by simp [hall.events]⟩, hout⟩
    next c t' =>
      refine Ends.bind_iff.mpr (Ends.modify_iff.mpr (Ends.pure_iff.mpr ⟨_,
        ⟨hall.clock, hall.events⟩, ?_⟩))
      rcases hfail with h | ⟨-, err, herr⟩
      · simpa [Granting, failedLogins, failedLogin] using h
      · cases herr

theorem ticketGrantingClient_shows (x : Call) (s : Krb) :
    Ends (ticketGrantingClient mac x) s (fun r s' => ∃ es, Emits s s' es ∧ Granting x s.clock es r) fun _ => False := by
  unfold ticketGrantingClient
  refine Ends.bind_iff.mpr (Ends.get_iff.mpr ?_)
  split
  · refine Ends.ite (fun _ => Ends.pure_iff.mpr ⟨[], Emits.refl s, rfl⟩) fun _ => replaceTicketClient_shows x s
  · exact replaceTicketClient_shows x s

/-- Events without a failed login in front change no outcome. -/
theorem Outcome.after {x : Call} {t : Int} {es es' : List KrbEvent} {r : Except GoError Str}
    (h : Outcome x t es' r) (hes : failedLogins es = []) : Outcome x t (es ++ es') r := by
  have happ : failedLogins (es ++ es') = failedLogins es' := by
    simp only [failedLogins] at hes ⊢
    rw [List.filterMap_append, hes, List.nil_append]
  cases h with
  | refused h => exact .refused (happ.trans h)
  | loginFailed h => exact .loginFailed (happ ▸ h)
  | notNegotiated h => exact .notNegotiated (happ.trans h)
  | token hb h => exact .token hb (happ.trans h)

theorem getToken_outcome (x : Call) (s : Krb) :
    Ends (getToken mac x) s (fun r s' => ∃ es, Emits s s' es ∧ Outcome x s.clock es r) fun _ => True := by
  unfold getToken
  refine Ends.bind_iff.mpr (Ends.get_iff.mpr (Ends.ite (fun _ => ?_) fun _ => ?_))
  · exact Ends.pure_iff.mpr ⟨[], Emits.refl s, .refused rfl⟩
  refine Ends.bind_iff.mpr ((checkPasswordRejected_shows x.check s).mono (fun o s₁ h => ?_) fun _ _ => trivial)
  obtain ⟨⟨es, hes, hnone⟩, herr⟩ := h
  split
  next e =>
    obtain ⟨msg, rfl⟩ := herr e rfl
    exact Ends.pure_iff.mpr ⟨es, hes, .refused hnone⟩
  next =>
    refine Ends.bind_iff.mpr ((ticketGrantingClient_shows x s₁).mono (fun r s₂ hg => ?_) fun _ h => h.elim)
    obtain ⟨es', hes', hgr⟩ := hg
    rw [hes.clock] at hgr
    split
    next e => exact Ends.pure_iff.mpr ⟨_, hes.trans hes', Outcome.after hgr hnone⟩
    next =>
      have hgr : failedLogins es' = [] := hgr
      split
      next => exact Ends.pure_iff.mpr ⟨_, hes.trans hes', (Outcome.notNegotiated hgr).after hnone⟩
      next =>
        split
        next => exact Ends.pure_iff.mpr ⟨_, hes.trans hes', (Outcome.notNegotiated hgr).after hnone⟩
        next b hb => exact Ends.pure_iff.mpr ⟨_, hes.trans hes', (Outcome.token hb hgr).after hnone⟩

/-! ## The steps of the two providers -/

/-- The steps, with what is seen of the wrapped provider. -/
inductive StackMove (mac : Str → Str → Str) (threshold : Nat) (timeout : Int) (s : TokenStack) :
    StackAct → TokenStack → Prop where
  | outer {a : TokenAct} {t : TokenState} (ha : ∀ i now r, a ≠ .innerReturns i now r)
      (h : tokenStep threshold timeout s.outer a = some t) :
      StackMove mac threshold timeout s (.outer a) { s with outer := t }
  | call {i : Nat} {x : Call} {now : Int} {r : Except GoError Str} {t : TokenState} {k : Krb} {es : List KrbEvent}
      (hstart : s.outer.clock ≤ x.now) (hnow : x.now ≤ now)
      (h : tokenStep threshold timeout s.outer (.innerReturns i now (callResult r)) = some t)
      (hes : k.events = s.inner.events ++ (es ++ [.returned r])) (ho : Outcome x x.now es r) :
      StackMove mac threshold timeout s (.call i x now) ⟨t, k⟩
  | inner {a : KrbAct} {k : Krb} {es : List KrbEvent} (hes : k.events = s.inner.events ++ es)
      (hno : failedLogins es = []) : StackMove mac threshold timeout s (.inner a) { s with inner := k }

/-- Outside `GetToken` no login is sent. -/
theorem Step.no_login {s k : Krb} {a : KrbAct} (h : Step mac s a k) (ha : ∀ x, a ≠ .getToken x) :
    ∃ es, k.events = s.events ++ es ∧ failedLogins es = [] := by
  cases h with
  | call => exact absurd rfl (ha _)
  | idle | stopped => exact ⟨[], by simp, rfl⟩
  | tick hc h =>
    obtain ⟨es, hes, hr⟩ := h.adds
    exact ⟨es, hes, failedLogins_reads hr⟩
  | close h => cases h <;> exact ⟨[], by simp [closeWith], rfl⟩

theorem stackStep_moves {s s' : TokenStack} {a : StackAct}
    (h : stackStep mac threshold timeout s a = some s') :
    StackMove mac threshold timeout s a s' := by
  cases a with
  | outer a =>
    have hout (ha : ∀ i now r, a ≠ .innerReturns i now r)
        (h : (tokenStep threshold timeout s.outer a).map (fun t => { s with outer := t }) = some s') :
        StackMove mac threshold timeout s (.outer a) s' := by
      obtain ⟨t, ht, rfl⟩ := Option.map_eq_some_iff.mp h
      exact .outer ha ht
    cases a with
    | innerReturns i now r => cases h
    | _ => exact hout (by simp) h
  | call i x now =>
    obtain ⟨⟨htake, hstart, hnow⟩, h⟩ := Option.ite_none_right_eq_some.mp h
    have hx : s.inner.clock ≤ x.now ∧ x.now ≤ x.later := by simpa [Krb.canTake] using htake
    cases hrun : (getToken mac x).run { s.inner with clock := x.now } with
    | error e => rw [hrun] at h; cases h
    | ok ri =>
      rw [hrun] at h
      obtain ⟨t, ht, rfl⟩ := Option.map_eq_some_iff.mp h
      obtain ⟨es, hes, ho⟩ := (getToken_outcome x _).of_ok hrun
      exact .call hstart (Int.le_trans hx.2 hnow) ht (by simp [hes.events]) ho
  | inner a =>
    have hinner (ha : ∀ x, a ≠ .getToken x) (h : (if s.inner.canTake a then
          ((a.program mac).run s.inner).toOption.map fun r => { s with inner := r.2 } else none) = some s') :
        StackMove mac threshold timeout s (.inner a) s' := by
      obtain ⟨htake, h⟩ := Option.ite_none_right_eq_some.mp h
      obtain ⟨r, hr, rfl⟩ := Option.map_eq_some_iff.mp h
      have hstep : Step mac s.inner a r.2 := by
        obtain ⟨-, hs⟩ := (program_ends htake).of_toOption (by rw [hr]; rfl)
        exact hs
      obtain ⟨es, hes, hno⟩ := Step.no_login hstep ha
      exact .inner hes hno
    cases a with
    | getToken x => cases h
    | _ => exact hinner (by simp) h

/-- A result of the wrapped `GetToken`. -/
def Provided (r : CallResult) : Prop := ∃ x t es r', Outcome x t es r' ∧ r = callResult r'

/-- Without the wrapped provider's own steps, a run is one of the breaker's. -/
theorem stack_outer {p : Gokrb5TokenProvider} {start : Int} {as : List StackAct} {s : TokenStack}
    (h : (stack mac threshold timeout p start).exec as = some s) :
    ∃ bs, (provider threshold timeout).exec bs = some s.outer ∧
      ∀ i now r, .innerReturns i now r ∈ bs → Provided r := by
  refine Machine.invariant (I := fun _ s => ∃ bs, (provider threshold timeout).exec bs = some s.outer ∧
    ∀ i now r, .innerReturns i now r ∈ bs → Provided r) ⟨[], rfl, by simp⟩ ?_ h
  rintro as s a s' - ⟨bs, hbs, hall⟩ hs
  cases stackStep_moves hs with
  | outer ha h =>
    refine ⟨_, Machine.execFrom_snoc.mpr ⟨_, hbs, h⟩, fun i now r hm => ?_⟩
    rcases List.mem_append.mp hm with hm | hm
    · exact hall i now r hm
    · exact absurd (List.mem_singleton.mp hm).symm (ha i now r)
  | @call i x now r t k es hstart hnow h hes ho =>
    have hret : (provider threshold timeout).step s.outer (.innerReturns i now (callResult r)) = some t := h
    refine ⟨_, Machine.execFrom_snoc.mpr ⟨_, hbs, hret⟩, fun i now r hm => ?_⟩
    rcases List.mem_append.mp hm with hm | hm
    · exact hall i now r hm
    · cases List.mem_singleton.mp hm
      exact ⟨_, _, _, _, ho, rfl⟩
  | inner hes hno => exact ⟨bs, hbs, hall⟩

/-! ## Each failed login is a failed call -/

/-- A call that runs began before now, and one that ended ended after it began. -/
structure Timed (s : TokenState) : Prop where
  running : ∀ i g t, s.pc i = .inner g t → t ≤ s.clock
  ended : ∀ c ∈ calls s.trace, c.start ≤ c.finish

theorem Timed.keep {s s' : TokenState} {i : Nat} {pc : CallPc} {es : List TokenEvent} (h : Timed s)
    (hclock : s.clock ≤ s'.clock) (hpc : s'.pc = Function.update s.pc i pc)
    (htr : s'.trace = s.trace ++ es)
    (hi : ∀ g t, pc = .inner g t → t ≤ s'.clock) (hes : ∀ c ∈ calls es, c.start ≤ c.finish) :
    Timed s' where
  running j g t hj := by
    rw [hpc] at hj
    by_cases hji : j = i
    · subst hji
      rw [Function.update_self] at hj
      exact hi g t hj
    · rw [Function.update_of_ne hji] at hj
      exact Int.le_trans (h.running j g t hj) hclock
  ended c hc := by
    rw [htr, calls, List.filterMap_append, List.mem_append] at hc
    exact hc.elim (h.ended c) (hes c)

theorem Timed.step {s s' : TokenState} {a : TokenAct} (h : Timed s)
    (hs : TokenMove threshold timeout s a s') : Timed s' := by
  cases hs with
  | lock => exact h.keep (Int.le_refl _) rfl rfl (by simp) (by simp [calls])
  | @beforeRequest i now r cb cs hpc hnow hb =>
    refine h.keep hnow rfl rfl (fun g t hpc => ?_) (by simp [calls_changes])
    cases r <;> cases hpc
  | callInner hpc hnow =>
    refine h.keep hnow rfl rfl (fun g t hpc => ?_) (by simp [calls, endedCall])
    cases hpc
    exact Int.le_refl _
  | @innerReturns i now start r g hpc hnow =>
    refine h.keep hnow rfl rfl (by simp) fun c hc => ?_
    obtain rfl : c = ⟨i, start, now, r⟩ := by simpa [calls, endedCall] using hc
    exact Int.le_trans (h.running i g start hpc) hnow
  | afterRequest hpc hnow hb => exact h.keep hnow rfl rfl (by simp) (by simp [calls_changes])
  | unlock => exact h.keep (Int.le_refl _) rfl rfl (by simp) (by simp [calls, endedCall])

theorem provider_timed {as : List TokenAct} {s : TokenState}
    (h : (provider threshold timeout).exec as = some s) : Timed s :=
  Machine.invariant (I := fun _ s => Timed s) ⟨by simp [provider], by simp [provider, calls]⟩
    (fun _ ih hs => ih.step (tokenStep_moves hs)) h

/-- A failed login, by when it was sent, and the failed call that sent it. -/
structure Paid (c : InnerCall) (t : Int) : Prop where
  after : c.start ≤ t
  before : t ≤ c.finish

/-- From `s₀` to `s`, `es` and `tr` were seen, and each failed login has a
call of its own that paid for it, in the same order. -/
structure Charged (s₀ s : TokenStack) (es : List KrbEvent) (tr : List TokenEvent)
    (cs : List InnerCall) : Prop where
  events : s.inner.events = s₀.inner.events ++ es
  trace : s.outer.trace = s₀.outer.trace ++ tr
  calls : cs.Sublist (calls tr)
  paid : List.Forall₂ Paid cs (failedLogins es)

theorem failedLogins_append (es es' : List KrbEvent) :
    failedLogins (es ++ es') = failedLogins es ++ failedLogins es' := List.filterMap_append

/-- Nothing was sent. -/
theorem Charged.quiet {s₀ s s' : TokenStack} {es es' : List KrbEvent} {tr tr' : List TokenEvent}
    {cs : List InnerCall}
    (h : Charged s₀ s es tr cs) (hes : s'.inner.events = s.inner.events ++ es')
    (htr : s'.outer.trace = s.outer.trace ++ tr') (hno : failedLogins es' = []) :
    Charged s₀ s' (es ++ es') (tr ++ tr') cs where
  events := by rw [hes, h.events, List.append_assoc]
  trace := by rw [htr, h.trace, List.append_assoc]
  calls := by
    rw [Spec.calls, List.filterMap_append]
    exact h.calls.trans (List.sublist_append_left _ _)
  paid := by
    rw [failedLogins_append, hno, List.append_nil]
    exact h.paid

/-- A step of a call adds what is seen of it. -/
theorem tokenStep_trace {s s' : TokenState} {a : TokenAct}
    (h : tokenStep threshold timeout s a = some s') : ∃ tr, s'.trace = s.trace ++ tr := by
  cases tokenStep_moves h <;> exact ⟨_, rfl⟩

/-- A wrapped call that returns is seen to end. -/
theorem innerReturns_trace {s s' : TokenState} {i : Nat} {now : Int} {r : CallResult}
    (h : tokenStep threshold timeout s (.innerReturns i now r) = some s') :
    ∃ g start, s.pc i = .inner g start ∧ s'.trace = s.trace ++ [.ended ⟨i, start, now, r⟩] := by
  cases tokenStep_moves h with
  | innerReturns hpc => exact ⟨_, _, hpc, rfl⟩

theorem Charged.step {s₀ s s' : TokenStack} {es : List KrbEvent} {tr : List TokenEvent}
    {cs : List InnerCall} {a : StackAct} (h : Charged s₀ s es tr cs) (ht : Timed s.outer)
    (hs : StackMove mac threshold timeout s a s') : ∃ es' tr' cs', Charged s₀ s' es' tr' cs' := by
  cases hs with
  | outer ha hs =>
    obtain ⟨tr', htr'⟩ := tokenStep_trace hs
    exact ⟨_, _, _, h.quiet (List.append_nil _).symm htr' rfl⟩
  | inner hes hno => exact ⟨_, _, _, h.quiet hes (List.append_nil _).symm hno⟩
  | @call i x now r t k es' hstart hnow hs hes ho =>
    obtain ⟨g, start, hpc, htr⟩ := innerReturns_trace hs
    by_cases hno : failedLogins es' = []
    · refine ⟨_, _, _, h.quiet hes htr ?_⟩
      rw [failedLogins_append, hno]
      rfl
    · have hone : failedLogins es' = [x.now] := by
        cases ho with
        | loginFailed h => exact h.resolve_left hno
        | refused h => exact absurd h hno
        | notNegotiated h => exact absurd h hno
        | token _ h => exact absurd h hno
      refine ⟨es ++ (es' ++ [.returned r]), tr ++ [.ended ⟨i, start, now, callResult r⟩],
        cs ++ [⟨i, start, now, callResult r⟩], ?_, ?_, ?_, ?_⟩
      · rw [hes, h.events, List.append_assoc]
      · rw [htr, h.trace, List.append_assoc]
      · rw [calls_snoc]
        exact h.calls.append_right _
      · rw [failedLogins_append, failedLogins_append, hone]
        refine List.rel_append h.paid (.cons ⟨?_, hnow⟩ .nil)
        exact Int.le_trans (ht.running i g start hpc) hstart

/-! ## The bound on the logins -/

/-- From the `threshold`-th on, a time is `timeout` after the one before. -/
def Apart (threshold : Nat) (timeout : Int) (ts : List Int) : Prop :=
  ∀ k t t', threshold ≤ k + 1 → ts[k]? = some t → ts[k + 1]? = some t' → t + timeout ≤ t'

/-- Spaced calls are spaced from every later one too. -/
theorem spaced_later {cs : List InnerCall} (h : Spaced threshold timeout cs) (ht : 0 ≤ timeout)
    (hcs : ∀ c ∈ cs, c.start ≤ c.finish) {j k : Nat} {c c' : InnerCall} (hjk : j < k)
    (hj : threshold ≤ j + 1)
    (hc : cs[j]? = some c) (hc' : cs[k]? = some c') : c.finish + timeout ≤ c'.start := by
  induction k, hjk using Nat.le_induction generalizing c' with
  | base => exact h j c c' hj hc hc'
  | succ k hjk ih =>
    obtain ⟨hk, -⟩ := List.getElem?_eq_some_iff.mp hc'
    have hmid : cs[k]? = some cs[k] := List.getElem?_eq_getElem (by omega)
    have h₁ := ih hmid
    have h₂ := hcs cs[k] (List.getElem_mem _)
    have h₃ := h k cs[k] c' (by omega) hmid hc'
    omega

/-- So are the logins that some of them paid for. -/
theorem apart_of_spaced {cs ds : List InnerCall} {ts : List Int} (h : Spaced threshold timeout ds)
    (ht : 0 ≤ timeout)
    (hds : ∀ c ∈ ds, c.start ≤ c.finish) (hsub : cs.Sublist ds) (hpaid : List.Forall₂ Paid cs ts) :
    Apart threshold timeout ts := by
  intro k t t' hk hkt hkt'
  obtain ⟨f, hf⟩ := List.sublist_iff_exists_orderEmbedding_getElem?_eq.mp hsub
  have hpay {j : Nat} {u : Int} (hu : ts[j]? = some u) : ∃ c, ds[f j]? = some c ∧ Paid c u := by
    obtain ⟨hlt, rfl⟩ := List.getElem?_eq_some_iff.mp hu
    have hlt' : j < cs.length := hpaid.length_eq ▸ hlt
    exact ⟨cs[j], by rw [← hf, List.getElem?_eq_getElem hlt'], hpaid.get hlt' hlt⟩
  obtain ⟨c, hc, hp⟩ := hpay hkt
  obtain ⟨c', hc', hp'⟩ := hpay hkt'
  have hfk : k ≤ f k := StrictMono.le_apply f.strictMono
  have hspace := spaced_later h ht hds (f.strictMono (Nat.lt_succ_self k)) (by omega) hc hc'
  have h₁ := hp.before
  have h₂ := hp'.after
  omega

/-- The lockout bound, on the logins that the KDC sees. In any part of a run
in which no call of the wrapped provider succeeds, at most `-cb-threshold`
logins fail, and one more for each open period that elapsed; from the
`-cb-threshold`-th on they are `-cb-timeout` apart. -/
theorem failed_logins_bounded {c : CliConfig} (hc : validateFlags c = none)
    {p : Gokrb5TokenProvider} {start : Int} {pre part : List StackAct} {s₀ s₁ : TokenStack}
    (h₀ : (stack mac c.breakerThreshold c.cbTimeout p start).exec pre = some s₀)
    (h₁ : (stack mac c.breakerThreshold c.cbTimeout p start).execFrom s₀ part = some s₁) :
    ∃ es tr, s₁.inner.events = s₀.inner.events ++ es ∧ s₁.outer.trace = s₀.outer.trace ++ tr ∧
      ((∀ call ∈ calls tr, call.result.success = false) →
        Apart c.breakerThreshold c.cbTimeout (failedLogins es) ∧
          ((failedLogins es).length : Int) ≤ c.cbThreshold + elapsed tr) := by
  have hth := breakerThreshold_eq hc
  obtain ⟨⟨hpos, -⟩, htime⟩ := validateFlags_eq_none.mp hc
  -- each state on the way is one of a run from the start
  have hrun {as : List StackAct} {s : TokenStack}
      (h : (stack mac c.breakerThreshold c.cbTimeout p start).execFrom s₀ as = some s) :
      (stack mac c.breakerThreshold c.cbTimeout p start).exec (pre ++ as) = some s := by
    rw [Machine.exec, Machine.execFrom_append, show Machine.execFrom _ _ pre = some s₀ from h₀]
    exact h
  obtain ⟨es, tr, cs, hch⟩ : ∃ es tr cs, Charged s₀ s₁ es tr cs := by
    refine Machine.invariantFrom (I := fun _ s => ∃ es tr cs, Charged s₀ s es tr cs)
      ⟨[], [], [], by simp, by simp, List.nil_sublist _, .nil⟩ ?_ h₁
    rintro as s a s' hs ⟨es, tr, cs, hch⟩ hstep
    obtain ⟨bs, hbs, -⟩ := stack_outer (hrun hs)
    exact hch.step (provider_timed hbs) (stackStep_moves hstep)
  refine ⟨es, tr, hch.events, hch.trace, fun hfail => ?_⟩
  obtain ⟨bs, hbs, -⟩ := stack_outer (hrun h₁)
  obtain ⟨q, hq, -⟩ := provider_follows (by omega) hbs
  rw [hch.trace, ← List.append_nil (_ ++ tr)] at hq
  obtain ⟨hspaced, hcount⟩ := lockout_bounded (by omega) hq hfail
  have hcalls : ∀ c ∈ calls tr, c.start ≤ c.finish := by
    intro c hm
    refine (provider_timed hbs).ended c ?_
    rw [hch.trace, calls, List.filterMap_append]
    exact List.mem_append_right _ hm
  have hlen := hch.calls.length_le
  rw [hch.paid.length_eq] at hlen
  exact ⟨apart_of_spaced hspaced (by omega) hcalls hch.calls hch.paid, by omega⟩

/-- A call at `t` that the KDC rejects. -/
def rejectedCall (i : Nat) (t : Int) : List StackAct :=
  [.outer (.lock i), .outer (.beforeRequest i t), .outer (.callInner i t),
    .call i { callFinding "old" "old" (.error "KDC_ERR_C_PRINCIPAL_UNKNOWN") with now := t, later := t } t,
    .outer (.afterRequest i t), .outer (.unlock i)]

/-- A breaker that opens after one failure for ten nanoseconds: a rejected
login, a call that the breaker rejects, and a probe that the KDC rejects. -/
def probedRun : List StackAct :=
  rejectedCall 0 0 ++ [.outer (.lock 1), .outer (.beforeRequest 1 5),
    .outer (.unlock 1)] ++ rejectedCall 2 11

def oneFailure : CliConfig := { cbThreshold := 1, cbTimeout := 10 }

def probed : Machine TokenStack StackAct :=
  stack (· ++ ·) oneFailure.breakerThreshold oneFailure.cbTimeout (newGokrb5TokenProvider "pw" [] []) 0

theorem failed_logins_bounded_probedRun : ∃ s, probed.exec probedRun = some s ∧
    failedLogins s.inner.events = [0, 11] ∧ elapsed s.outer.trace = 1 ∧
    Apart oneFailure.breakerThreshold oneFailure.cbTimeout (failedLogins s.inner.events) := by
  have hrun : (probed.exec probedRun).map (fun s => (failedLogins s.inner.events, elapsed s.outer.trace,
      (calls s.outer.trace).all fun c => !c.result.success)) = some ([0, 11], 1, true) := by decide +kernel
  obtain ⟨s, hs, he⟩ := Option.map_eq_some_iff.mp hrun
  simp only [Prod.mk.injEq, List.all_eq_true, Bool.not_eq_true'] at he
  obtain ⟨es, tr, hes, htr, h⟩ := failed_logins_bounded (c := oneFailure) (by decide)
    (show probed.exec [] = some probed.init from rfl) hs
  have hes : s.inner.events = es := hes
  have htr : s.outer.trace = tr := htr
  rw [← hes, ← htr] at h
  exact ⟨s, hs, he.1, he.2.1, (h he.2.2).1⟩

/-! ## What a client is told -/

/-- A result that `Execute` gives: the breaker's own error, or what the
wrapped provider returned. -/
def Executed (threshold : Nat) (P : CallResult → Prop) (r : CallResult) : Prop :=
  (tokenResult threshold r).rejection = true ∨ P r

/-- Where the results come from. -/
structure Sourced (threshold : Nat) (P : CallResult → Prop) (s : TokenState) : Prop where
  ended : ∀ i g r, s.pc i = .ended g r → P r
  executed : ∀ i r, s.pc i = .executed r → Executed threshold P r
  returned : ∀ i r, .returned i r ∈ s.trace → ∃ r', Executed threshold P r' ∧
    r = tokenResult threshold r'

section

variable {P : CallResult → Prop}

theorem Sourced.keep {s s' : TokenState} {i : Nat} {pc : CallPc} {es : List TokenEvent}
    (h : Sourced threshold P s)
    (hpc : s'.pc = Function.update s.pc i pc) (htr : s'.trace = s.trace ++ es)
    (hended : ∀ g r, pc = .ended g r → P r) (hexec : ∀ r, pc = .executed r → Executed threshold P r)
    (hret : ∀ j r, .returned j r ∈ es → ∃ r', Executed threshold P r' ∧ r = tokenResult threshold r') :
    Sourced threshold P s' where
  ended j g r hj := by
    rw [hpc, Function.update_apply] at hj
    split at hj
    · exact hended g r hj
    · exact h.ended j g r hj
  executed j r hj := by
    rw [hpc, Function.update_apply] at hj
    split at hj
    · exact hexec r hj
    · exact h.executed j r hj
  returned j r hm := by
    rw [htr, List.mem_append] at hm
    exact hm.elim (h.returned j r) (hret j r)

theorem Sourced.step {s s' : TokenState} {a : TokenAct} (h : Sourced threshold P s)
    (ha : ∀ i now r, a = .innerReturns i now r → P r) (hs : TokenMove threshold timeout s a s') :
    Sourced threshold P s' := by
  cases hs with
  | lock | callInner => exact h.keep rfl rfl (by simp) (by simp) (by simp)
  | @beforeRequest i now r cb cs hpc hnow hb =>
    cases r with
    | ok g => exact h.keep rfl rfl (by simp [afterBefore]) (by simp [afterBefore]) (by simp)
    | error e =>
      refine h.keep rfl rfl (by simp [afterBefore]) (fun r hr => .inl ?_) (by simp)
      cases hr
      exact rejection_of_beforeRequest (congrArg Prod.fst hb)
  | innerReturns =>
    refine h.keep rfl rfl (fun g r' hr => ?_) (by simp) (by simp)
    cases hr
    exact ha _ _ _ rfl
  | afterRequest hpc =>
    refine h.keep rfl rfl (by simp) (fun r' hr => ?_) (by simp)
    cases hr
    exact .inr (h.ended _ _ _ hpc)
  | unlock hpc =>
    refine h.keep rfl rfl (by simp) (by simp) fun j r' hm => ?_
    cases List.mem_singleton.mp hm
    exact ⟨_, h.executed _ _ hpc, rfl⟩

theorem provider_sourced {as : List TokenAct} {s : TokenState}
    (h : (provider threshold timeout).exec as = some s)
    (hin : ∀ i now r, .innerReturns i now r ∈ as → P r) : Sourced threshold P s := by
  refine Machine.invariant (I := fun as s => (∀ i now r, .innerReturns i now r ∈ as → P r) → Sourced threshold P s)
    (fun _ => ⟨by simp [provider], by simp [provider], by simp [provider]⟩) ?_ h hin
  intro as s a s' _ ih hs hall
  refine (ih fun i now r hm => hall i now r (List.mem_append_left _ hm)).step (fun i now r ha => ?_)
    (tokenStep_moves hs)
  exact hall i now r (by simp [ha])

end

/-- A result of the wrapped provider comes back as it is: a token in Base64,
or an error that the client is told to be about the credential or the
negotiation. -/
theorem Outcome.told {x : Call} {t : Int} {es : List KrbEvent} {r : Except GoError Str}
    (h : Outcome x t es r) (threshold : Nat) :
    Foreign (callResult r) ∧ tokenResult threshold (callResult r) = callResult r ∧
      ((∃ b, r = .ok (base64Encode b)) ∨ ∃ e, r = .error e ∧
        (tokenErrorToProxyError e = errCredentialFailure ∨ tokenErrorToProxyError e = errNegotiationFailure)) := by
  cases h with
  | refused => exact ⟨rfl, rfl, .inr ⟨_, rfl, .inl rfl⟩⟩
  | loginFailed => exact ⟨rfl, rfl, .inr ⟨_, rfl, .inl rfl⟩⟩
  | notNegotiated => exact ⟨rfl, rfl, .inr ⟨_, rfl, .inr rfl⟩⟩
  | @token b => exact ⟨trivial, rfl, .inl ⟨b, rfl⟩⟩

/-- The answer of a call that has returned. -/
theorem returned_made {as : List TokenAct} {s : TokenState}
    (h : (provider threshold timeout).exec as = some s)
    (hin : ∀ i now r, .innerReturns i now r ∈ as → Foreign r) {i : Nat} {r : CallResult}
    (hr : .returned i r ∈ s.trace) : r.rejection = true ↔ ¬ Made s.trace i := by
  have ha := provider_answered h hin i
  cases hpc : s.pc i with
  | returned r' => rw [hpc] at ha; exact ha r hr
  | ended g r' => rw [hpc] at ha; exact absurd hr (ha.2.2 r)
  | _ => rw [hpc] at ha; exact absurd hr (ha.2 r)

/-- What a call of the outer `GetToken` can end with: a token in Base64; or,
without a call of the wrapped provider, an error that the client is told to be
the open breaker; or, after such a call, one that it is told to be about the
credential or the negotiation. `errTokenAcquisition` is not among them. -/
theorem token_errors_classified {p : Gokrb5TokenProvider} {start : Int} {as : List StackAct}
    {s : TokenStack}
    (h : (stack mac threshold timeout p start).exec as = some s) {i : Nat} {r : CallResult}
    (hr : .returned i r ∈ s.outer.trace) :
    (Made s.outer.trace i ∧ ∃ b, r = .token (base64Encode b)) ∨
    (¬ Made s.outer.trace i ∧ ∃ e, r = .error e ∧ tokenErrorToProxyError e = errCircuitBreakerOpen) ∨
    (Made s.outer.trace i ∧ ∃ e, r = .error e ∧
      (tokenErrorToProxyError e = errCredentialFailure ∨ tokenErrorToProxyError e = errNegotiationFailure)) := by
  obtain ⟨bs, hbs, hprov⟩ := stack_outer h
  have hforeign : ∀ i now r, .innerReturns i now r ∈ bs → Foreign r := by
    intro i now r hm
    obtain ⟨x, t, es, r', ho, rfl⟩ := hprov i now r hm
    exact (ho.told threshold).1
  have hmade := returned_made hbs hforeign hr
  obtain ⟨r', hsrc, rfl⟩ := (provider_sourced hbs hprov).returned i r hr
  rcases hsrc with hrej | ⟨x, t, es, r'', ho, rfl⟩
  · right; left
    refine ⟨hmade.mp hrej, ?_⟩
    cases hres : tokenResult threshold r' with
    | error e =>
      rw [hres] at hrej
      have hrej : e.as ErrNode.isCircuitBreaker = true := hrej
      exact ⟨e, rfl, by rw [tokenErrorToProxyError, if_pos hrej]⟩
    | token t => rw [hres] at hrej; cases hrej
    | panicked => rw [hres] at hrej; cases hrej
  · obtain ⟨hf, htold, hkind⟩ := ho.told threshold
    have hm : Made s.outer.trace i := by
      by_contra hno
      have := hmade.mpr hno
      rw [not_rejection_of_foreign hf] at this
      cases this
    rw [htold]
    rcases hkind with ⟨b, rfl⟩ | ⟨e, rfl, hpe⟩
    · exact .inl ⟨hm, b, rfl⟩
    · exact .inr (.inr ⟨hm, e, rfl, hpe⟩)

theorem token_errors_classified_probedRun :
    ∃ s r, probed.exec probedRun = some s ∧ .returned 1 r ∈ s.outer.trace ∧
    ¬ Made s.outer.trace 1 ∧ ∃ e, r = .error e ∧ tokenErrorToProxyError e = errCircuitBreakerOpen := by
  have hrun : (probed.exec probedRun).map
      (fun s => decide (.returned 1 (tokenResult 1 (.error errOpenState)) ∈ s.outer.trace)) = some true := by
    decide +kernel
  obtain ⟨s, hs, hm⟩ := Option.map_eq_some_iff.mp hrun
  have hm := of_decide_eq_true hm
  refine ⟨s, _, hs, hm, ?_⟩
  rcases token_errors_classified hs hm with ⟨-, b, hb⟩ | h | ⟨-, e, he, hpe⟩
  · cases hb
  · exact h
  · cases he
    rcases hpe with hpe | hpe <;> exact absurd hpe (by decide)

end SP.Proof.TokenStack
