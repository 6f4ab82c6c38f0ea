import SpnegoProxy.Proof.Gokrb5.Login

/-!
# The password login: the cached ticket

A cached ticket is used until its deadline, a sixth of its lifetime before its
end. Where the lifetime is unknown, what is left of it counts instead, and of
a ticket that has already ended that is negative: its deadline is after its
end, but no later than the time when it was computed (`lt_endTime`). Every
cached ticket has a deadline that was computed before (`Dated`).
-/

namespace SP.Proof.Gokrb5

open SP.Go SP.Impl SP.Spec

variable {mac : Str → Str → Str}

/-! ## The deadline -/

/-- A sixth of a lifetime, off the end. -/
theorem sixth_of_nonneg {d : Int} (h : 0 ≤ d) : (negDuration d).tdiv 6 = -(d / 6) := by
  have hne : d ≠ minDuration := by simp only [minDuration]; omega
  rw [negDuration, if_neg hne, Int.neg_tdiv, Int.tdiv_eq_ediv_of_nonneg h]

/-- A ticket that ended `-d` ago gets a sixth of that. -/
theorem sixth_of_neg {d : Int} (h : d < 0) : (negDuration d).tdiv 6 ≤ -d / 6 := by
  by_cases hd : d = minDuration
  · subst hd
    decide
  · refine Int.le_of_eq ?_
    rw [negDuration, if_neg hd, Int.tdiv_eq_ediv_of_nonneg (by omega)]

theorem timeSub_nonneg_iff {t u : Int} : 0 ≤ timeSub t u ↔ u ≤ t := by
  simp only [timeSub, minDuration, maxDuration]
  omega

/-- A negative difference is exact, or the least one: then there is more of it. -/
theorem le_timeSub_of_lt {t u : Int} (h : t < u) : t - u ≤ timeSub t u := by
  simp only [timeSub, minDuration, maxDuration]
  omega

theorem timeSub_eq {t u : Int} (h : u ≤ t) (hd : t - u ≤ maxDuration) : timeSub t u = t - u := by
  simp only [timeSub, minDuration, maxDuration] at hd ⊢
  omega

/-- The lifetime that the deadline is computed from. -/
def lifetime (now : Int) (part : EncKDCRepPart) : Int :=
  if part.authTime = zeroTime ∨ timeSub part.endTime part.authTime ≤ 0 then timeSub part.endTime now
  else timeSub part.endTime part.authTime

theorem tgtRefreshDeadline_eq (now : Int) (part : EncKDCRepPart) :
    tgtRefreshDeadline now part = part.endTime + (negDuration (lifetime now part)).tdiv 6 := rfl

/-- Only what is left of a ticket can be negative. -/
theorem lifetime_neg {now : Int} {part : EncKDCRepPart} (h : lifetime now part < 0) :
    lifetime now part = timeSub part.endTime now := by
  unfold lifetime at h ⊢
  split at h
  next hz => rw [if_pos hz]
  next hz => omega

/-- A time before the deadline is before the end. -/
theorem lt_endTime {t₀ t : Int} {part : EncKDCRepPart} (h₀ : t₀ ≤ t)
    (h : t < tgtRefreshDeadline t₀ part) : t < part.endTime := by
  rw [tgtRefreshDeadline_eq] at h
  rcases Int.lt_or_le (lifetime t₀ part) 0 with hneg | hnonneg
  · -- The ticket had ended at `t₀`: the deadline had passed then.
    have hleft := lifetime_neg hneg
    have hend : part.endTime < t₀ := Int.not_le.mp fun hle => by
      have := timeSub_nonneg_iff.mpr hle
      omega
    have hd := le_timeSub_of_lt hend
    have hsixth := sixth_of_neg hneg
    omega
  · rw [sixth_of_nonneg hnonneg] at h
    omega

/-- With a lifetime that is known, the deadline is a sixth of it before the end. -/
theorem endTime_sub_deadline (now : Int) {part : EncKDCRepPart} (hz : part.authTime ≠ zeroTime)
    (hlt : part.authTime < part.endTime) (hspan : part.endTime - part.authTime ≤ maxDuration) :
    part.endTime - tgtRefreshDeadline now part = (part.endTime - part.authTime) / 6 := by
  have hsub := timeSub_eq (Int.le_of_lt hlt) hspan
  have hlife : lifetime now part = part.endTime - part.authTime := by
    rw [lifetime, if_neg (by rw [hsub]; omega), hsub]
  rw [tgtRefreshDeadline_eq, hlife, sixth_of_nonneg (by omega)]
  omega

theorem deadlineInTime (part : EncKDCRepPart) : DeadlineInTime part where
  before _ _ := lt_endTime
  after now hz hlt hspan := by
    have heq := endTime_sub_deadline now hz hlt hspan
    refine ⟨?_, ?_, heq⟩ <;> omega

/-! ## The cached ticket -/

/-- The deadline of the cached ticket was computed by the time `t`. -/
def Dated (t : Int) (p : Gokrb5TokenProvider) : Prop :=
  ∀ c, p.ticketClient = some c → ∃ t₀ ≤ t, p.ticketRefreshAt = tgtRefreshDeadline t₀ c.tgt

section

variable {t t' : Int} {p p' : Gokrb5TokenProvider} {x : Call} {s s' : Krb}

theorem Dated.mono (h : Dated t p) (ht : t ≤ t') : Dated t' p := by
  intro c hc
  obtain ⟨t₀, ht₀, hat⟩ := h c hc
  exact ⟨t₀, Int.le_trans ht₀ ht, hat⟩

/-- The provider keeps its ticket. -/
theorem Dated.keep (h : Dated t p) (hc : p'.ticketClient = p.ticketClient)
    (hat : p'.ticketRefreshAt = p.ticketRefreshAt) : Dated t p' := by
  intro c hc'
  rw [hat]
  exact h c (hc ▸ hc')

/-- The deadline that comes with a new ticket is the ticket's own. -/
theorem acquireCredential_deadline (x : Call) (passwd : Str) (s : Krb) :
    Ends (acquireCredential x passwd) s
      (fun r _ => ∀ c at', r = .ok (c, at') → at' = tgtRefreshDeadline x.later c.tgt) fun _ => False := by
  unfold acquireCredential
  split
  · exact Ends.pure_iff.mpr (by simp)
  · refine Ends.bind_iff.mpr (Ends.modify_iff.mpr ?_)
    split
    · exact Ends.pure_iff.mpr (by simp)
    · split
      · exact Ends.pure_iff.mpr (by simp)
      · split
        · exact Ends.pure_iff.mpr (by simp)
        · refine Ends.pure_iff.mpr fun c at' h => ?_
          cases h
          rfl

theorem replaceTicketClient_dated (h : Dated x.later s.p) :
    Ends (replaceTicketClient mac x) s (fun _ s' => Dated x.later s'.p) fun _ => True := by
  unfold replaceTicketClient
  refine Ends.bind_iff.mpr (Ends.get_iff.mpr (Ends.bind_iff.mpr (Ends.modify_iff.mpr ?_)))
  split
  next => exact Ends.pure_iff.mpr h
  next passwd hr =>
    refine Ends.bind_iff.mpr (((acquireCredential_ends x passwd _).and
      (acquireCredential_deadline x passwd _)).mono (fun r s₁ ⟨ha, hd⟩ => ?_) fun _ _ => trivial)
    have h₁ : Dated x.later s₁.p := h.keep (by rw [ha.frame.1]; rfl) (by rw [ha.frame.1]; rfl)
    split
    next err =>
      refine Ends.ite (fun _ => ?_) fun _ => Ends.pure_iff.mpr h₁
      refine Ends.bind_iff.mpr ((rejectPassword_ends _ s₁).mono (fun _ s₂ h₂ => ?_) fun _ h => h.elim)
      subst h₂
      exact Ends.pure_iff.mpr (h₁.keep (reject_client ..) (reject_refreshAt ..))
    next =>
      refine Ends.bind_iff.mpr (Ends.modify_iff.mpr (Ends.pure_iff.mpr fun c' hc => ?_))
      cases hc
      exact ⟨x.later, Int.le_refl _, hd _ _ rfl⟩

theorem ticketGrantingClient_dated (h : Dated x.later s.p) :
    Ends (ticketGrantingClient mac x) s (fun _ s' => Dated x.later s'.p) fun _ => True := by
  unfold ticketGrantingClient
  refine Ends.bind_iff.mpr (Ends.get_iff.mpr ?_)
  split
  next => exact Ends.ite (fun _ => Ends.pure_iff.mpr h) fun _ => replaceTicketClient_dated h
  next => exact replaceTicketClient_dated h

theorem Checked.dated {file : PasswordFile} {r : Option GoError} (h : Checked mac file s r s')
    (hs : Dated t s.p) : Dated t s'.p := by
  obtain ⟨-, -, hclient, hat, -⟩ := h.frame
  exact hs.keep hclient hat

theorem getToken_dated (h : Dated x.later s.p) :
    Ends (getToken mac x) s (fun _ s' => Dated x.later s'.p) fun _ => True := by
  unfold getToken
  refine Ends.bind_iff.mpr (Ends.get_iff.mpr (Ends.ite (fun _ => Ends.pure_iff.mpr h) fun _ => ?_))
  refine Ends.bind_iff.mpr ((checkPasswordRejected_ends x.check s).mono (fun r s₁ hc => ?_) fun _ _ => trivial)
  have h₁ := hc.dated h
  split
  next => exact Ends.pure_iff.mpr h₁
  next =>
    refine Ends.bind_iff.mpr ((ticketGrantingClient_dated h₁).mono (fun r s₂ h₂ => ?_) fun _ _ => trivial)
    repeat' split
    all_goals exact Ends.pure_iff.mpr h₂

/-- A step that is not a call gives no new ticket. -/
theorem Step.dated {a : KrbAct} (h : Step mac s a s') (hne : ∀ x, a ≠ .getToken x)
    (hs : Dated s.clock s.p) : Dated s'.clock s'.p := by
  cases h with
  | call => exact absurd rfl (hne _)
  | idle => exact hs
  | tick _ hc => exact hc.frame.1 ▸ hc.dated hs
  | stopped => exact hs
  | close hc => cases hc <;> exact fun c hc' => by cases hc'

theorem program_dated {a : KrbAct} (ha : s.canTake a = true) (h : Dated s.clock s.p) :
    Ends (a.program mac) s (fun _ s' => Dated s'.clock s'.p) fun _ => True := by
  cases a with
  | getToken x =>
    have hx : s.clock ≤ x.now ∧ x.now ≤ x.later := by simpa [Krb.canTake] using ha
    have h₁ : Dated x.later ({ s with clock := x.now } : Krb).p := h.mono (Int.le_trans hx.1 hx.2)
    refine Ends.bind_iff.mpr (Ends.modify_iff.mpr (Ends.bind_iff.mpr ?_))
    exact (getToken_dated h₁).mono (fun r s' h' => Ends.modify_iff.mpr h') fun _ _ => trivial
  | _ => exact (program_ends ha).mono (fun _ _ hs => hs.dated (by simp) h) fun _ _ => trivial

end

/-! ## Runs -/

section

variable {passwordFile : String} {key passwd : Str} {start : Int} {as : List KrbAct} {s : Krb}

theorem gokrb5_dated (h : (gokrb5 mac (newGokrb5TokenProvider passwordFile key passwd) start).exec as = some s) :
    Dated s.clock s.p := by
  refine Machine.invariant (I := fun _ s => Dated s.clock s.p) (fun c hc => by cases hc) ?_ h
  intro as s a s' _ hd hstep
  obtain ⟨ha, hstep⟩ := Option.ite_none_right_eq_some.mp hstep
  obtain ⟨-, hd'⟩ := (program_dated ha hd).of_toOption hstep
  exact hd'

/-- A client that is returned without a login is the cached one, before its deadline. -/
theorem returnsCached_fresh {x : Call} {c : TicketClient} (h : ReturnsCached mac s x c) :
    s.p.ticketClient = some c ∧ x.now < s.p.ticketRefreshAt := by
  obtain ⟨s₁, s₂, hcheck, hgrant, hev⟩ := h
  obtain ⟨hclock, -, hclient, hat, -⟩ := ((checkPasswordRejected_ends x.check _).of_ok hcheck).frame
  cases (ticketGrantingClient_ends x s₁).of_ok hgrant with
  | cached hc hnow => exact ⟨hclient ▸ hc, by rw [hclock, hat] at hnow; exact hnow⟩
  | replaced hstale hr ha =>
    -- A login reads the password, which is seen.
    rcases ha.frame.2.2 with he | he
    · simp [he] at hev
    · simp [he] at hev

theorem returnsCached_of_fresh {x : Call} {c : TicketClient} (hl : s.p.passwordRejected = false)
    (hc : s.p.ticketClient = some c) (hnow : x.now < s.p.ticketRefreshAt) :
    ReturnsCached mac s x c := by
  refine ⟨{ s with clock := x.now }, { s with clock := x.now }, ?_, ?_, rfl⟩
  · show _ = pure _
    simp [checkPasswordRejected, hl]
  · show _ = pure _
    simp [ticketGrantingClient, hc, hnow]

/-- The deadline of every ticket is in time, and after every run no call of
`GetToken` uses a cached ticket at its end or later. -/
theorem cached_ticket_in_time
    (h : (gokrb5 mac (newGokrb5TokenProvider passwordFile key passwd) start).exec as = some s) :
    (∀ part, DeadlineInTime part) ∧
      ∀ x c, s.canTake (.getToken x) = true → ReturnsCached mac s x c → x.now < c.tgt.endTime := by
  refine ⟨deadlineInTime, fun x c hx hc => ?_⟩
  have hx : s.clock ≤ x.now ∧ x.now ≤ x.later := by simpa [Krb.canTake] using hx
  obtain ⟨hclient, hnow⟩ := returnsCached_fresh hc
  obtain ⟨t₀, ht₀, hat⟩ := gokrb5_dated h c hclient
  rw [hat] at hnow
  exact lt_endTime (Int.le_trans ht₀ hx.1) hnow

end

/-- A call at the time `now` that would log in with the password `pw`. -/
def callAt (now : Int) : Call :=
  { callFinding "pw" "pw" (.ok ⟨0, 600⟩) with now := now, later := now }

theorem cached_ticket_in_time_reused :
    ∃ s, fileProvider.exec [.getToken (callAt 0)] = some s ∧
      ReturnsCached (· ++ ·) s (callAt 499) ⟨⟨0, 600⟩⟩ ∧
      (callAt 499).now < 600 ∧ ∀ part, DeadlineInTime part := by
  have hrun : (fileProvider.exec [.getToken (callAt 0)]).map (fun s => (s.p.passwordRejected, s.p.ticketClient,
      s.p.ticketRefreshAt,
        s.canTake (.getToken (callAt 499)))) = some (false, some ⟨⟨0, 600⟩⟩, 500, true) := by
    decide +kernel
  obtain ⟨s, hs, he⟩ := Option.map_eq_some_iff.mp hrun
  obtain ⟨hl, hc, hat, hcan⟩ : s.p.passwordRejected = false ∧ s.p.ticketClient = some ⟨⟨0, 600⟩⟩ ∧
      s.p.ticketRefreshAt = 500 ∧ s.canTake (.getToken (callAt 499)) = true := by simpa using he
  have hcached : ReturnsCached (· ++ ·) s (callAt 499) ⟨⟨0, 600⟩⟩ :=
    returnsCached_of_fresh hl hc (by rw [hat]; decide)
  obtain ⟨hall, huse⟩ := cached_ticket_in_time hs
  exact ⟨s, hs, hcached, huse _ _ hcan hcached, hall⟩

end SP.Proof.Gokrb5
