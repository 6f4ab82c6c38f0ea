import SpnegoProxy.Framework.Machine
import SpnegoProxy.Impl.Gokrb5

/-!
# What is expected of the Kerberos provider

A provider may send a password to the KDC only inside a call that needs it
(`Disciplined`), and not again once it was rejected (`NeverRetries`). It uses
a cached ticket only until its deadline (`DeadlineInTime`), and the goroutine
that repeats the warning of a rejected password ends with it (`WarnsSafely`).
-/

namespace SP.Spec

open SP.Go SP.Impl

/-- A provider that starts at the time `start`, and everything that can
happen to it. -/
def gokrb5 (mac : Str → Str → Str) (p : Gokrb5TokenProvider) (start : Int) :
    Machine Krb KrbAct where
  init := { p := p, clock := start }
  step s a := if s.canTake a then ((a.program mac).run s).toOption.map Prod.snd else none

/-! ## Logins -/

def isLogin : KrbEvent → Bool
  | .login .. => true
  | _ => false

/-- A login that was sent while the provider was open, the latch clear and no
cached client usable. -/
def Guarded : KrbEvent → Prop
  | .login p now _ _ => p.closed = false ∧ p.passwordRejected = false ∧ ¬ p.Fresh now
  | _ => True

/-- The login of a call gives a ticket client. -/
def LoginSucceeds (x : Call) : Prop :=
  x.asReq = none ∧ (∃ part, x.asExchange = .ok part) ∧ x.marshalTicket = none ∧
    x.newFromCCache = none

/-- What the provider may do in a step after the run `as`; `es` is what is
seen of the step. -/
structure Disciplined (as : List KrbAct) (s : Krb) (a : KrbAct) (s' : Krb) (es : List KrbEvent) :
    Prop where
  added : s'.events = s.events ++ es
  /-- Logins are sent inside `GetToken`. -/
  inCall : ∀ e ∈ es, isLogin e = true → ∃ x, a = .getToken x
  /-- A call sends at most one. -/
  once : es.countP isLogin ≤ 1
  guarded : ∀ e ∈ es, Guarded e
  /-- A call whose login fails keeps the ticket. -/
  kept : ∀ x, a = .getToken x → ¬ LoginSucceeds x →
    s'.p.ticketClient = s.p.ticketClient ∧ s'.p.ticketRefreshAt = s.p.ticketRefreshAt
  /-- A closed provider sends no login and returns no token. -/
  closed : .close ∈ as → (∀ e ∈ es, isLogin e = false) ∧ ∀ t, .returned (.ok t) ∉ es

/-- A set latch blocks no usable ticket, now or later. -/
def LatchedStale (s : Krb) : Prop := s.p.passwordRejected = true → ∀ t, s.clock ≤ t → ¬ s.p.Fresh t

/-- The last login of `tr` carried `passwd` and the KDC rejected it; `since`
was seen after it. -/
def SinceRejected (tr : List KrbEvent) (passwd : Str) (since : List KrbEvent) : Prop :=
  ∃ pre p now err, tr = pre ++ .login p now passwd (.error err) :: since ∧
    isPasswordRejection err = true ∧
    ∀ e ∈ since, isLogin e = false

/-- No login carries the password that the login before it was rejected for. -/
def NeverRetries (tr : List KrbEvent) : Prop :=
  ∀ pre p now passwd rep post, tr = pre ++ .login p now passwd rep :: post → ∀ since,
    ¬ SinceRejected pre passwd since

/-- From a rejected login to the next login, once a read has found another
password, none finds the rejected one. -/
def ReadsSettle (tr : List KrbEvent) : Prop :=
  ∀ pre post passwd since, tr = pre ++ post → SinceRejected pre passwd since →
    ∀ since₁ passwd' since₂, since = since₁ ++ .read (.ok passwd') :: since₂ → passwd' ≠ passwd →
      .read (.ok passwd) ∉ since₂

/-! ## The cached ticket -/

/-- What the deadline of a ticket guarantees. -/
structure DeadlineInTime (part : EncKDCRepPart) : Prop where
  before : ∀ t₀ t, t₀ ≤ t → t < tgtRefreshDeadline t₀ part → t < part.endTime
  after : ∀ now, part.authTime ≠ zeroTime → part.authTime < part.endTime →
    part.endTime - part.authTime ≤ maxDuration →
      part.authTime < tgtRefreshDeadline now part ∧ tgtRefreshDeadline now part ≤ part.endTime ∧
        part.endTime - tgtRefreshDeadline now part = (part.endTime - part.authTime) / 6

/-- `ticketGrantingClient`, when a call of `GetToken` comes to it, returns a
client without a login. -/
def ReturnsCached (mac : Str → Str → Str) (s : Krb) (x : Call) (c : TicketClient) : Prop :=
  ∃ s₁ s₂, (checkPasswordRejected mac x.check).run { s with clock := x.now } = .ok (none, s₁) ∧
    (ticketGrantingClient mac x).run s₁ = .ok (.ok c, s₂) ∧ s₂.events = s₁.events

/-! ## The repeated warning -/

/-- What can happen, if the clock may also be set back: a goroutine acts only
until it has returned. -/
def mayTake (s : Krb) : KrbAct → Bool
  | .getToken _ => true
  | a => s.canTake a

/-- A provider and everything that can happen to it, at any times. -/
def anyClock (mac : Str → Str → Str) (p : Gokrb5TokenProvider) (start : Int) :
    Machine Krb KrbAct where
  init := { p := p, clock := start }
  step s a := if mayTake s a then ((a.program mac).run s).toOption.map Prod.snd else none

/-- The machinery of the warnings after the run `as`. -/
structure WarnsSafely (mac : Str → Str → Str) (as : List KrbAct) (s : Krb) : Prop where
  /-- Whatever happens next does not panic: no `nil` ticker is stopped, and
  neither a `nil` nor a closed channel is closed. -/
  noFault : ∀ a, mayTake s a = true → ∀ f, (a.program mac).run s ≠ .error f
  oneWarner : s.warners.length ≤ 1
  /-- After `Close`, a goroutine that has not returned finds its channel closed. -/
  told : .close ∈ as → ∀ w ∈ s.warners, w.returned = false → s.stops[w.stop]? = some true
  /-- What this rests on. -/
  latched : s.p.passwordRejected = true → s.p.closed = false →
    s.p.rejectWarnTicker = true ∧ ∃ c, s.p.rejectWarnStop = some c ∧ s.stops[c]? = some false

end SP.Spec
