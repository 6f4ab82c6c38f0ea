import SpnegoProxy.Proof.Gokrb5.Login

/-!
# The password login: a rejected password is not sent again

After a rejected login the latch holds until a read of the password finds
another one; that read and the login's own are two. `rejected_never_retried`
is for the runs in which the rejected password does not come back between
them.
-/

namespace SP.Proof.Gokrb5

open SP.Go SP.Impl SP.Spec

variable {mac : Str → Str → Str}

section

variable {tr since : List KrbEvent} {e : KrbEvent} {passwd : Str}

theorem readsSettle_of_append {es : List KrbEvent} (h : ReadsSettle (tr ++ es)) : ReadsSettle tr :=
  fun pre post passwd since hp => h pre (post ++ es) passwd since (by rw [hp, List.append_assoc])

theorem sinceRejected_snoc (hne : isLogin e = false) :
    SinceRejected (tr ++ [e]) passwd since ↔ ∃ since', since = since' ++ [e] ∧
      SinceRejected tr passwd since' := by
  constructor
  · rintro ⟨pre, p, now, err, htr, hrej, hsince⟩
    rcases snoc_split.mp htr with ⟨rfl, -, -⟩ | ⟨since', rfl, rfl⟩
    · cases hne
    · exact ⟨since', rfl, pre, p, now, err, rfl, hrej,
      fun e he => hsince e (List.mem_append_left _ he)⟩
  · rintro ⟨since', rfl, pre, p, now, err, rfl, hrej, hsince⟩
    refine ⟨pre, p, now, err, by simp, hrej, fun e' he => ?_⟩
    rcases List.mem_append.mp he with he | he
    · exact hsince e' he
    · exact List.mem_singleton.mp he ▸ hne

/-- A login ends what was seen since the one before. -/
theorem sinceRejected_of_login {p : Gokrb5TokenProvider} {now : Int} {passwd' : Str}
    {rep : Except String EncKDCRepPart}
    (h : SinceRejected (tr ++ [.login p now passwd' rep]) passwd since) :
    passwd = passwd' ∧ ∃ err, rep = .error err ∧ isPasswordRejection err = true := by
  obtain ⟨pre, p', now', err, htr, hrej, hsince⟩ := h
  rcases snoc_split.mp htr with ⟨he, -, -⟩ | ⟨since', rfl, -⟩
  · cases he
    exact ⟨rfl, err, rfl, hrej⟩
  · have hl := hsince (.login p now passwd' rep) (by simp)
    cases hl

theorem neverRetries_snoc (h : NeverRetries tr)
    (he : ∀ p now passwd rep, e = .login p now passwd rep → ∀ since, ¬ SinceRejected tr passwd since) :
    NeverRetries (tr ++ [e]) := by
  intro pre p now passwd rep post htr
  rcases snoc_split.mp htr with ⟨rfl, rfl, -⟩ | ⟨post', -, rfl⟩
  · exact he p now passwd rep rfl
  · exact h pre p now passwd rep post' rfl

end

/-! ## What the latch knows -/

/-- After a rejected login, an open provider holds the latch on its password,
or a read has found another one. -/
def Watched (mac : Str → Str → Str) (p : Gokrb5TokenProvider) (tr : List KrbEvent) : Prop :=
  ∀ passwd since, SinceRejected tr passwd since → p.closed = true ∨
    (p.passwordRejected = true ∧ p.rejectedFingerprint = p.passwordFingerprint mac passwd) ∨
    ∃ passwd', .read (.ok passwd') ∈ since ∧ passwd' ≠ passwd

structure Safe (mac : Str → Str → Str) (p : Gokrb5TokenProvider) (tr : List KrbEvent) : Prop where
  never : NeverRetries tr
  watched : Watched mac p tr

namespace Safe

variable {p p' : Gokrb5TokenProvider} {tr : List KrbEvent} {e : KrbEvent} {passwd : Str}

theorem seen (h : Safe mac p tr) (hne : isLogin e = false) : Safe mac p (tr ++ [e]) where
  never := neverRetries_snoc h.never (by rintro p now passwd rep rfl; cases hne)
  watched passwd since hs := by
    obtain ⟨since', rfl, hs'⟩ := (sinceRejected_snoc hne).mp hs
    refine (h.watched passwd since' hs').imp_right (.imp_right ?_)
    rintro ⟨passwd', hr, hp⟩
    exact ⟨passwd', List.mem_append_left _ hr, hp⟩

/-- A read that finds another password clears the latch. -/
theorem cleared (h : Safe mac p tr)
    (hne : p.passwordFingerprint mac passwd ≠ p.rejectedFingerprint) :
    Safe mac { p with passwordRejected := false } (tr ++ [.read (.ok passwd)]) where
  never := (h.seen rfl).never
  watched passwd₀ since hs := by
    obtain ⟨since', rfl, hs'⟩ := (sinceRejected_snoc rfl).mp hs
    rcases h.watched passwd₀ since' hs' with hc | ⟨-, hf⟩ | ⟨passwd', hr, hp⟩
    · exact .inl hc
    · refine .inr (.inr ⟨passwd, by simp, ?_⟩)
      rintro rfl
      exact hne hf.symm
    · exact .inr (.inr ⟨passwd', List.mem_append_left _ hr, hp⟩)

/-- While the latch is clear a read has found another password, whatever
becomes of the provider. -/
theorem free (h : Safe mac p tr) (hc : p.closed = false) (hl : p.passwordRejected = false) :
    Safe mac p' tr where
  never := h.never
  watched passwd since hs := by
    rcases h.watched passwd since hs with hc' | ⟨hl', -⟩ | hr
    · rw [hc] at hc'; cases hc'
    · rw [hl] at hl'; cases hl'
    · exact .inr (.inr hr)

theorem closed (h : Safe mac p tr) (hc : p'.closed = true) : Safe mac p' tr :=
  ⟨h.never, fun _ _ _ => .inl hc⟩

/-- The login's read finds a password that is not the rejected one, since one
before it has found another. -/
theorem sent {now : Int} {rep : Except String EncKDCRepPart} (h : Safe mac p tr)
    (hc : p.closed = false)
    (hl : p.passwordRejected = false) (hs : ReadsSettle (tr ++ [.read (.ok passwd)]))
    (hp : ∀ err, rep = .error err → isPasswordRejection err = true →
      p'.passwordRejected = true ∧ p'.rejectedFingerprint = p'.passwordFingerprint mac passwd) :
    Safe mac p' (tr ++ [.read (.ok passwd)] ++ [.login p now passwd rep]) where
  never := by
    refine neverRetries_snoc (h.seen rfl).never ?_
    rintro _ _ _ _ ⟨⟩ since hrej
    obtain ⟨since', rfl, hrej'⟩ := (sinceRejected_snoc rfl).mp hrej
    rcases h.watched passwd since' hrej' with hc' | ⟨hl', -⟩ | ⟨passwd', hr, hp'⟩
    · rw [hc] at hc'; cases hc'
    · rw [hl] at hl'; cases hl'
    · obtain ⟨since₁, since₂, rfl⟩ := List.append_of_mem hr
      exact hs _ [] passwd _ (by simp) hrej since₁ passwd' (since₂ ++ [.read (.ok passwd)]) (by simp) hp' (by simp)
  watched passwd₀ since hrej := by
    obtain ⟨rfl, err, hrep, he⟩ := sinceRejected_of_login hrej
    exact .inr (.inl (hp err hrep he))

end Safe

/-! ## Runs -/

section

variable {file : PasswordFile} {x : Call} {s s' : Krb}

theorem Checked.safe {r : Option GoError} (h : Checked mac file s r s')
    (hs : Safe mac s.p s.events) : Safe mac s'.p s'.events := by
  cases h with
  | clear => exact hs
  | refused => exact hs.seen rfl
  | changed hl hr hne => exact hs.cleared hne

/-- A rejection sets the latch on the password it is of. -/
theorem reject_latches (passwd : Str) (s : Krb) {p : Gokrb5TokenProvider}
    (hk : s.p.fingerprintKey = p.fingerprintKey) :
    (reject (p.passwordFingerprint mac passwd) s).p.passwordRejected = true ∧
      (reject (p.passwordFingerprint mac passwd) s).p.rejectedFingerprint =
        (reject (p.passwordFingerprint mac passwd) s).p.passwordFingerprint mac passwd := by
  unfold reject Gokrb5TokenProvider.passwordFingerprint
  split <;> exact ⟨rfl, by rw [hk]⟩

theorem Granted.safe {r : Except GoError TicketClient} (h : Granted mac x s r s')
    (hs : Safe mac s.p s.events)
    (hc : s.p.closed = false) (hl : s.p.passwordRejected = false) (hset : ReadsSettle s'.events) :
    Safe mac s'.p s'.events := by
  cases h with
  | cached => exact hs
  | unread => exact hs.seen rfl
  | @failed e passwd err s₁ hstale hr ha =>
    have hev : (if isPasswordRejection err = true then reject (s.p.passwordFingerprint mac passwd) s₁ else s₁).events =
        s₁.events := by split <;> simp
    rw [hev] at hset ⊢
    cases ha with
    | unsent => exact (hs.seen rfl).free hc hl
    | failed he =>
      refine hs.sent hc hl (readsSettle_of_append hset) fun err' herr hrej => ?_
      rw [if_pos (he err' herr ▸ hrej)]
      exact reject_latches passwd _ rfl
  | replaced hstale hr ha =>
    cases ha with
    | succeeded hx =>
      obtain ⟨-, ⟨part, hpart⟩, -⟩ := hx
      exact hs.sent hc hl (readsSettle_of_append hset) fun err' herr => by rw [hpart] at herr; cases herr

theorem Called.safe {r : Except GoError Str} (h : Called mac x s r s') (hs : Safe mac s.p s.events)
    (hset : ReadsSettle s'.events) : Safe mac s'.p s'.events := by
  cases h with
  | closed => exact hs
  | refused hc h => exact h.safe hs
  | went hc h hg => exact hg.safe (h.safe hs) (h.frame.2.1.trans hc) h.clears hset

theorem Step.safe {a : KrbAct} (h : Step mac s a s') (hs : Safe mac s.p s.events)
    (hset : ReadsSettle s'.events) : Safe mac s'.p s'.events := by
  cases h with
  | call hnow hlater h => exact (h.safe hs (readsSettle_of_append hset)).seen rfl
  | idle => exact hs
  | tick hc h => exact h.safe hs
  | stopped => exact hs
  | close h => cases h <;> exact hs.closed rfl

end

/-- In every run in which the reads settle, no login carries the password
that the login before it was rejected for. -/
theorem rejected_never_retried {passwordFile : String} {key passwd : Str} {start : Int}
    {as : List KrbAct} {s : Krb}
    (h : (gokrb5 mac (newGokrb5TokenProvider passwordFile key passwd) start).exec as = some s)
    (hset : ReadsSettle s.events) : NeverRetries s.events := by
  suffices ReadsSettle s.events → Safe mac s.p s.events from (this hset).never
  refine Machine.invariant (I := fun _ s => ReadsSettle s.events → Safe mac s.p s.events) ?_ ?_ h
  · intro _
    refine ⟨fun pre p now passwd rep post h => ?_, ?_⟩
    · simp [gokrb5] at h
    · rintro passwd since ⟨pre, p, now, err, h, -⟩
      simp [gokrb5] at h
  · intro as s a s' hrun ih hs hset
    obtain ⟨es, hd⟩ := (gokrb5_inv hrun).disciplined (step_moves hs)
    exact (step_moves hs).safe (ih (readsSettle_of_append (hd.added ▸ hset))) hset

/-- The rejected password is replaced by another, which a tick finds first. -/
def correctedRun : List KrbAct :=
  [.getToken (callFinding "old" "old" preauthFailed), .tick 0 (passwordFileOf "new\n"),
    .getToken (callFinding "new" "new" (.ok ⟨0, 600⟩))]

/-- `b` finds the password that `a` was rejected for. -/
def findsAgain (a b : KrbEvent) : Bool :=
  match a, b with
  | .login _ _ passwd (.error _), .read (.ok passwd') => passwd = passwd'
  | _, _ => false

theorem readsSettle_of_pairwise {tr : List KrbEvent}
    (h : tr.Pairwise fun a b => findsAgain a b = false) : ReadsSettle tr := by
  rintro pre post passwd since rfl ⟨pre', p, now, err, rfl, -, -⟩ since₁ passwd' since₂ rfl - hr
  have hl := (List.pairwise_append.mp (List.pairwise_append.mp h).1).2.1
  have hmem : .read (.ok passwd) ∈ since₁ ++ .read (.ok passwd') :: since₂ := by simp [hr]
  have := List.rel_of_pairwise_cons hl hmem
  simp [findsAgain] at this

theorem rejected_never_retried_correctedRun : ∃ s, fileProvider.exec correctedRun = some s ∧
    s.events.countP isLogin = 2 ∧ ReadsSettle s.events ∧ NeverRetries s.events := by
  have hrun : (fileProvider.exec correctedRun).map (fun s => (s.events.countP isLogin,
      decide (s.events.Pairwise fun a b => findsAgain a b = false))) = some (2, true) := by decide +kernel
  obtain ⟨s, hs, he⟩ := Option.map_eq_some_iff.mp hrun
  obtain ⟨hcount, hpair⟩ := Prod.mk.inj he
  have hset := readsSettle_of_pairwise (of_decide_eq_true hpair)
  exact ⟨s, hs, hcount, hset, rejected_never_retried hs hset⟩

/-- The rejected password is saved again: the check finds the file just
emptied, the login finds it written. -/
def resavedRun : List KrbAct :=
  [.getToken (callFinding "old" "old" preauthFailed),
    .getToken (callFinding "" "old" preauthFailed)]

/-- What is seen of it up to the second login. -/
def resavedEvents : List KrbEvent :=
  [.read (.ok (str "old")), .login (newGokrb5TokenProvider "pw" [] []) 0 (str "old") preauthFailed,
    .returned (.error (credentialErrorOf
      "could not acquire client credential: KDC_ERR_PREAUTH_FAILED" "KDC_ERR_PREAUTH_FAILED")),
    .read (.ok []), .read (.ok (str "old"))]

/-- The provider at the second login, with its latch clear again. -/
def resavedProvider : Gokrb5TokenProvider :=
  { newGokrb5TokenProvider "pw" [] [] with
    rejectedFingerprint := str "old"
    rejectWarnTicker := true
    rejectWarnStop := some 0 }

theorem resavedRun_retries : ∃ s, fileProvider.exec resavedRun = some s ∧ ¬ NeverRetries s.events := by
  have hrun : (fileProvider.exec resavedRun).map (fun s => s.events.take 6) =
      some (resavedEvents ++ [.login resavedProvider 0 (str "old") preauthFailed]) :=
        by decide +kernel
  obtain ⟨s, hs, he⟩ := Option.map_eq_some_iff.mp hrun
  have hsplit : s.events = resavedEvents ++ .login resavedProvider 0 (str "old") preauthFailed :: s.events.drop 6 := by
    rw [List.append_cons, ← he, List.take_append_drop]
  refine ⟨s, hs, fun h => h _ _ _ _ _ _ hsplit (resavedEvents.drop 2) ?_⟩
  exact ⟨resavedEvents.take 1, _, _, _, rfl, by decide +kernel, by decide⟩

end SP.Proof.Gokrb5
