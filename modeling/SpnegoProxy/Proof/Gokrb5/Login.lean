import SpnegoProxy.Proof.Gokrb5.Steps

/-!
# The password login: when it is sent

`login_discipline`: a login is sent inside `GetToken` only, at most once in a
call, and only if the provider is open, the latch is clear and no cached
client is usable.
-/

namespace SP.Proof.Gokrb5

open SP.Go SP.Impl SP.Spec

variable {mac : Str → Str → Str}

/-- Only passwords were read. -/
def OnlyReads (es : List KrbEvent) : Prop := ∀ e ∈ es, ∃ r, e = .read r

theorem stale_mono {p : Gokrb5TokenProvider} {t t' : Int} (h : ¬ p.Fresh t) (ht : t ≤ t') :
    ¬ p.Fresh t' :=
  fun hf => h ⟨hf.1, Int.lt_of_le_of_lt ht hf.2⟩

section

variable {file : PasswordFile} {x : Call} {s s' : Krb}

theorem Checked.adds {r : Option GoError} (h : Checked mac file s r s') :
    ∃ es, s'.events = s.events ++ es ∧ OnlyReads es := by
  cases h with
  | clear => exact ⟨[], by simp, by simp [OnlyReads]⟩
  | refused => exact ⟨[_], rfl, by simp [OnlyReads]⟩
  | changed => exact ⟨[_], rfl, by simp [OnlyReads]⟩

/-- The check changes nothing but the latch, which it does not set. -/
theorem Checked.frame {r : Option GoError} (h : Checked mac file s r s') :
    s'.clock = s.clock ∧ s'.p.closed = s.p.closed ∧ s'.p.ticketClient = s.p.ticketClient ∧
      s'.p.ticketRefreshAt = s.p.ticketRefreshAt ∧
      (s'.p.passwordRejected = true → s.p.passwordRejected = true) := by
  cases h with
  | clear => exact ⟨rfl, rfl, rfl, rfl, id⟩
  | refused => exact ⟨rfl, rfl, rfl, rfl, id⟩
  | changed => exact ⟨rfl, rfl, rfl, rfl, fun h => (nomatch h)⟩

/-- A check that lets the call go on leaves the latch clear. -/
theorem Checked.clears (h : Checked mac file s none s') : s'.p.passwordRejected = false := by
  cases h with
  | clear h => exact h
  | changed => rfl

/-- A login is one event, and changes nothing else. -/
theorem Acquired.frame {passwd : Str} {r : Except String (TicketClient × Int)}
    (h : Acquired x passwd s r s') : s'.p = s.p ∧ s'.clock = s.clock ∧
      (s'.events = s.events ∨ s'.events = s.events ++ [.login s.p s.clock passwd x.asExchange]) := by
  cases h with
  | unsent => exact ⟨rfl, rfl, .inl rfl⟩
  | failed => exact ⟨rfl, rfl, .inr rfl⟩
  | succeeded => exact ⟨rfl, rfl, .inr rfl⟩

@[simp] theorem reject_events (fingerprint : Str) (s : Krb) :
    (reject fingerprint s).events = s.events := by
  unfold reject; split <;> rfl

@[simp] theorem reject_clock (fingerprint : Str) (s : Krb) :
    (reject fingerprint s).clock = s.clock := by
  unfold reject; split <;> rfl

@[simp] theorem reject_closed (fingerprint : Str) (s : Krb) :
    (reject fingerprint s).p.closed = s.p.closed := by
  unfold reject; split <;> rfl

@[simp] theorem reject_client (fingerprint : Str) (s : Krb) :
    (reject fingerprint s).p.ticketClient = s.p.ticketClient := by
  unfold reject; split <;> rfl

@[simp] theorem reject_refreshAt (fingerprint : Str) (s : Krb) :
    (reject fingerprint s).p.ticketRefreshAt = s.p.ticketRefreshAt := by
  unfold reject; split <;> rfl

/-- What `ticketGrantingClient` shows: passwords read, or the login. -/
def Logs (x : Call) (s : Krb) (es : List KrbEvent) : Prop :=
  OnlyReads es ∨ ¬ s.p.Fresh s.clock ∧ ∃ passwd,
    es = [.read (.ok passwd), .login s.p s.clock passwd x.asExchange]

theorem Acquired.logs {passwd : Str} {r : Except String (TicketClient × Int)}
    (hstale : ¬ s.p.Fresh s.clock) (h : Acquired x passwd (s.emit (.read (.ok passwd))) r s') :
    ∃ es, s'.events = s.events ++ es ∧ Logs x s es := by
  rcases h.frame.2.2 with he | he
  · exact ⟨[_], he, .inl (by simp [OnlyReads])⟩
  · exact ⟨_, by rw [he, emit_events, List.append_assoc]; rfl, .inr ⟨hstale, passwd, rfl⟩⟩

theorem Granted.logs {r : Except GoError TicketClient} (h : Granted mac x s r s') :
    ∃ es, s'.events = s.events ++ es ∧ Logs x s es := by
  cases h with
  | cached => exact ⟨[], by simp, .inl (by simp [OnlyReads])⟩
  | unread => exact ⟨[_], rfl, .inl (by simp [OnlyReads])⟩
  | failed hstale hr ha =>
    split
    · rw [reject_events]
      exact ha.logs hstale
    · exact ha.logs hstale
  | replaced hstale hr ha =>
    have h := ha.logs hstale
    exact h

/-- Nothing but the latch and the ticket changes, and the ticket only with a
login that succeeds. -/
theorem Granted.frame {r : Except GoError TicketClient} (h : Granted mac x s r s') :
    s'.clock = s.clock ∧ s'.p.closed = s.p.closed ∧ (¬ LoginSucceeds x →
      s'.p.ticketClient = s.p.ticketClient ∧ s'.p.ticketRefreshAt = s.p.ticketRefreshAt) := by
  cases h with
  | cached => exact ⟨rfl, rfl, fun _ => ⟨rfl, rfl⟩⟩
  | unread => exact ⟨rfl, rfl, fun _ => ⟨rfl, rfl⟩⟩
  | failed hstale hr ha =>
    obtain ⟨hp, hclock, -⟩ := ha.frame
    split <;> simp [hp, hclock]
  | replaced hstale hr ha =>
    cases ha with
    | succeeded h => exact ⟨rfl, rfl, fun hx => (hx h).elim⟩

/-- The latch is set only beside a client that is no longer usable. -/
theorem Granted.latched {r : Except GoError TicketClient} (h : Granted mac x s r s')
    (hl : s.p.passwordRejected = false) (h' : s'.p.passwordRejected = true) :
    ¬ s'.p.Fresh s.clock := by
  cases h with
  | cached => simp [hl] at h'
  | unread => simp [hl] at h'
  | failed hstale hr ha =>
    split at h'
    next hrej => simpa [Gokrb5TokenProvider.Fresh, ha.frame.1, hrej] using hstale
    next => simp [ha.frame.1, hl] at h'
  | replaced hstale hr ha => simp [ha.frame.1, hl] at h'

theorem OnlyReads.no_login {es : List KrbEvent} (h : OnlyReads es) : ∀ e ∈ es, isLogin e = false := by
  intro e he
  obtain ⟨r, rfl⟩ := h e he
  rfl

theorem OnlyReads.count {es : List KrbEvent} (h : OnlyReads es) : es.countP isLogin = 0 :=
  List.countP_eq_zero.mpr fun e he => by simp [h.no_login e he]

theorem OnlyReads.guarded {es : List KrbEvent} (h : OnlyReads es) : ∀ e ∈ es, Guarded e := by
  intro e he
  obtain ⟨r, rfl⟩ := h e he
  trivial

theorem OnlyReads.no_token {es : List KrbEvent} (h : OnlyReads es) (r : Except GoError Str) :
    .returned r ∉ es := by
  intro he
  obtain ⟨r', hr⟩ := h _ he
  cases hr

/-- What the login shows keeps the discipline, if the check has passed. -/
theorem Logs.disciplined {es : List KrbEvent} (h : Logs x s es) (hc : s.p.closed = false)
    (hl : s.p.passwordRejected = false) : es.countP isLogin ≤ 1 ∧ ∀ e ∈ es, Guarded e := by
  rcases h with h | ⟨hstale, passwd, rfl⟩
  · exact ⟨h.count ▸ Nat.zero_le 1, h.guarded⟩
  · refine ⟨Nat.le_refl 1, ?_⟩
    simp only [List.mem_cons, List.not_mem_nil, or_false, forall_eq_or_imp, forall_eq]
    exact ⟨trivial, hc, hl, hstale⟩

/-- What a call shows before it returns. -/
structure CallShows (x : Call) (s s' : Krb) (r : Except GoError Str) (es : List KrbEvent) :
    Prop where
  added : s'.events = s.events ++ es
  once : es.countP isLogin ≤ 1
  guarded : ∀ e ∈ es, Guarded e
  silent : s.p.closed = true → es = [] ∧ ∀ t, r ≠ .ok t

theorem Called.shows {r : Except GoError Str} (h : Called mac x s r s') :
    ∃ es, CallShows x s s' r es := by
  cases h with
  | closed hc => exact ⟨[], by simp, by simp, by simp, fun _ => ⟨rfl, by simp⟩⟩
  | refused hc h =>
    obtain ⟨es, he, hr⟩ := h.adds
    exact ⟨es, he, hr.count ▸ Nat.zero_le 1, hr.guarded, fun hc' => by simp [hc] at hc'⟩
  | went hc h hg =>
    obtain ⟨es, he, hr⟩ := h.adds
    obtain ⟨es', he', hl⟩ := hg.logs
    have hc₁ := h.frame.2.1.trans hc
    obtain ⟨hcount, hguard⟩ := hl.disciplined hc₁ h.clears
    refine ⟨es ++ es', by rw [he', he, List.append_assoc], ?_, ?_, fun hc' => by simp [hc] at hc'⟩
    · rw [List.countP_append, hr.count]
      omega
    · exact fun e he => (List.mem_append.mp he).elim (hr.guarded e) (hguard e)

/-- A usable client stays so through the check, and no other becomes usable. -/
theorem Checked.fresh_iff {r : Option GoError} (h : Checked mac file s r s') (t : Int) :
    s'.p.Fresh t ↔ s.p.Fresh t := by
  obtain ⟨-, -, hclient, hat, -⟩ := h.frame
  simp [Gokrb5TokenProvider.Fresh, hclient, hat]

theorem Called.frame {r : Except GoError Str} (h : Called mac x s r s') :
    s'.clock = s.clock ∧ s'.p.closed = s.p.closed ∧ (¬ LoginSucceeds x →
      s'.p.ticketClient = s.p.ticketClient ∧ s'.p.ticketRefreshAt = s.p.ticketRefreshAt) := by
  cases h with
  | closed => exact ⟨rfl, rfl, fun _ => ⟨rfl, rfl⟩⟩
  | refused hc h =>
    obtain ⟨hclock, hclosed, hclient, hat, -⟩ := h.frame
    exact ⟨hclock, hclosed, fun _ => ⟨hclient, hat⟩⟩
  | went hc h hg =>
    obtain ⟨hclock, hclosed, hclient, hat, -⟩ := h.frame
    obtain ⟨hclock', hclosed', hkept⟩ := hg.frame
    refine ⟨hclock'.trans hclock, hclosed'.trans hclosed, fun hx => ?_⟩
    obtain ⟨hclient', hat'⟩ := hkept hx
    exact ⟨hclient'.trans hclient, hat'.trans hat⟩

theorem Called.latched {r : Except GoError Str} (h : Called mac x s r s')
    (hi : s.p.passwordRejected = true → ¬ s.p.Fresh s.clock) (h' : s'.p.passwordRejected = true) :
    ¬ s'.p.Fresh s.clock := by
  cases h with
  | closed => exact hi h'
  | refused hc h => exact fun hf => hi (h.frame.2.2.2.2 h') ((h.fresh_iff _).mp hf)
  | went hc h hg => exact h.frame.1 ▸ hg.latched h.clears h'

/-- What holds after every run. -/
structure Inv (as : List KrbAct) (s : Krb) : Prop where
  latched : LatchedStale s
  closed : .close ∈ as → s.p.closed = true

theorem Inv.step {as : List KrbAct} {a : KrbAct} (hi : Inv as s) (h : Step mac s a s') :
    Inv (as ++ [a]) s' := by
  have hmem (hne : a ≠ .close) (hc : .close ∈ as ++ [a]) : s.p.closed = true :=
    hi.closed ((List.mem_append.mp hc).resolve_right fun h => hne (List.mem_singleton.mp h).symm)
  cases h with
  | call hnow hlater h =>
    refine ⟨fun hl t ht => ?_, fun hc => ?_⟩
    · exact stale_mono (h.latched (fun hl' => hi.latched hl' _ hnow) hl) (Int.le_trans hlater ht)
    · exact h.frame.2.1.trans (hmem (by simp) hc)
  | idle => exact ⟨hi.latched, hmem (by simp)⟩
  | tick hc h =>
    refine ⟨fun hl t ht hf => ?_, fun hc' => h.frame.2.1.trans (hmem (by simp) hc')⟩
    exact hi.latched (h.frame.2.2.2.2 hl) t (h.frame.1 ▸ ht) ((h.fresh_iff t).mp hf)
  | stopped => exact ⟨hi.latched, hmem (by simp)⟩
  | close h => cases h <;> exact ⟨fun _ _ _ hf => by simpa [closeWith] using hf.1, fun _ => rfl⟩

/-- Every step from such a state keeps the discipline. -/
theorem Inv.disciplined {as : List KrbAct} {a : KrbAct} (hi : Inv as s) (h : Step mac s a s') :
    ∃ es, Disciplined as s a s' es := by
  -- A step that is not a call shows passwords that were read, if anything.
  have quiet {es : List KrbEvent} (hne : ∀ x,
    a ≠ .getToken x) (hadd : s'.events = s.events ++ es) (hr : OnlyReads es) :
      Disciplined as s a s' es :=
    ⟨hadd, fun e he hl => by simp [hr.no_login e he] at hl, hr.count ▸ Nat.zero_le 1, hr.guarded,
      fun x hx => (hne x hx).elim, fun _ => ⟨hr.no_login, fun t => hr.no_token _⟩⟩
  have nothing : OnlyReads [] := by simp [OnlyReads]
  cases h with
  | @call x r s₁ hnow hlater h =>
    obtain ⟨es, hs⟩ := h.shows
    refine ⟨es ++ [.returned r], ?_, fun _ _ _ => ⟨x, rfl⟩, ?_, ?_, ?_, fun hc => ?_⟩
    · simp [hs.added]
    · simpa [isLogin] using hs.once
    · simpa [or_imp, forall_and, Guarded] using hs.guarded
    · rintro x' ⟨⟩ hx
      exact h.frame.2.2 hx
    · obtain ⟨rfl, hr⟩ := hs.silent (hi.closed hc)
      exact ⟨by simp [isLogin], by simpa [eq_comm] using hr⟩
  | idle => exact ⟨[], quiet (by simp) (by simp) nothing⟩
  | tick hc h =>
    obtain ⟨es, he, hr⟩ := h.adds
    exact ⟨es, quiet (by simp) he hr⟩
  | stopped => exact ⟨[], quiet (by simp) (by simp) nothing⟩
  | close h => exact ⟨[], quiet (by simp) (by cases h <;> simp [closeWith]) nothing⟩

end

section

variable {passwordFile : String} {key passwd : Str} {start : Int} {as : List KrbAct} {s : Krb}

theorem gokrb5_inv (h : (gokrb5 mac (newGokrb5TokenProvider passwordFile key passwd) start).exec as = some s) :
    Inv as s :=
  Machine.invariant (I := Inv) ⟨fun h => Bool.noConfusion h, fun h => (nomatch h)⟩
    (fun _ hi hs => hi.step (step_moves hs)) h

/-- After every run of `GetToken` calls, ticks and `Close` calls: a set latch
blocks no usable ticket, and whatever happens next sends a login only as the
discipline allows. -/
theorem login_discipline
    (h : (gokrb5 mac (newGokrb5TokenProvider passwordFile key passwd) start).exec as = some s) :
    LatchedStale s ∧ ∀ a s',
      (gokrb5 mac (newGokrb5TokenProvider passwordFile key passwd) start).step s a = some s' →
        ∃ es, Disciplined as s a s' es :=
  ⟨(gokrb5_inv h).latched, fun _ _ hs => (gokrb5_inv h).disciplined (step_moves hs)⟩

end

/-- A password file with this text. -/
def passwordFileOf (content : String) : PasswordFile := .opened 0o600 (.ok (str content))

/-- A call that finds one text at the check and another at the login. -/
def callFinding (check login : String) (asExchange : Except String EncKDCRepPart) : Call where
  check := passwordFileOf check
  login := passwordFileOf login
  now := 0
  asExchange := asExchange
  later := 0
  marshalToken := .ok []

/-- What the KDC answers to a wrong password. -/
def preauthFailed : Except String EncKDCRepPart := .error "KDC_ERR_PREAUTH_FAILED"

/-- A provider that reads its password from a file; concatenation is an
injective fingerprint. -/
def fileProvider : Machine Krb KrbAct := gokrb5 (· ++ ·) (newGokrb5TokenProvider "pw" [] []) 0

/-- A login is rejected, a tick finds the password unchanged, and the provider
is closed. -/
def rejectedRun : List KrbAct :=
  [.getToken (callFinding "old" "old" preauthFailed), .tick 0 (passwordFileOf "old\n"), .close]

theorem login_discipline_rejectedRun : ∃ s, fileProvider.exec rejectedRun = some s ∧
    s.p.passwordRejected = true ∧ LatchedStale s ∧
      ∀ a s', fileProvider.step s a = some s' → ∃ es, Disciplined rejectedRun s a s' es := by
  have hrun : (fileProvider.exec rejectedRun).map (fun s => s.p.passwordRejected) = some true := by decide +kernel
  obtain ⟨s, hs, hl⟩ := Option.map_eq_some_iff.mp hrun
  exact ⟨s, hs, hl, login_discipline hs⟩

end SP.Proof.Gokrb5
