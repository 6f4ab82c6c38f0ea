import SpnegoProxy.Proof.Gokrb5.Login

/-!
# The password login: the repeated warnings

The ticker, the stop channel and the goroutine that repeats the warnings are
made together, once, by the first rejection, and `Close` stops them. `Phase`
has the three states that leaves: nothing made yet, warning, and closed. From
each of them every call, tick and `Close` ends without a panic and leads to
another (`program_phase`), in any order and at any times.
-/

namespace SP.Proof.Gokrb5

open SP.Go SP.Impl SP.Spec

variable {mac : Str → Str → Str}

/-! ## The phases of a provider -/

/-- The provider with its stop channels and its goroutines. -/
inductive Phase (p : Gokrb5TokenProvider) (stops : List Bool) (warners : List Warner) : Prop where
  /-- No password was rejected yet. -/
  | silent (hc : p.closed = false) (ht : p.rejectWarnTicker = false) (hl : p.passwordRejected = false)
      (hs : stops = []) (hw : warners = [])
  /-- One was; a ticker that is stopped for a while is there. -/
  | warning (hc : p.closed = false) (ht : p.rejectWarnTicker = true) (hs : p.rejectWarnStop = some 0)
      (ho : stops = [false]) (hw : warners = [⟨0, false⟩])
  /-- The latch may still be set. -/
  | closed (hc : p.closed = true) (ht : p.rejectWarnTicker = false)
      (hw : (stops = [] ∧ warners = []) ∨ (stops = [true] ∧ ∃ returned, warners = [⟨0, returned⟩]))

abbrev InPhase (s : Krb) : Prop := Phase s.p s.stops s.warners

namespace Phase

variable {p : Gokrb5TokenProvider} {stops : List Bool} {warners : List Warner}

/-- The latch may be cleared at any time. -/
theorem clear (h : Phase p stops warners) :
    Phase { p with passwordRejected := false } stops warners := by
  cases h with
  | silent hc ht hl hs hw => exact .silent hc ht rfl hs hw
  | warning hc ht hs ho hw => exact .warning hc ht hs ho hw
  | closed hc ht hw => exact .closed hc ht hw

theorem ticket {c : Option TicketClient} {t : Int} (h : Phase p stops warners) :
    Phase { p with ticketClient := c, ticketRefreshAt := t } stops warners := by
  cases h with
  | silent hc ht hl hs hw => exact .silent hc ht hl hs hw
  | warning hc ht hs ho hw => exact .warning hc ht hs ho hw
  | closed hc ht hw => exact .closed hc ht hw

/-- While the provider is open, a set latch comes with a ticker and a stop
channel that is not closed. -/
theorem latched (h : Phase p stops warners) (hl : p.passwordRejected = true)
    (hc : p.closed = false) :
    p.rejectWarnTicker = true ∧ ∃ c, p.rejectWarnStop = some c ∧ stops[c]? = some false := by
  cases h with
  | silent _ _ hl' => rw [hl] at hl'; cases hl'
  | warning _ ht hs ho => exact ⟨ht, 0, hs, by simp [ho]⟩
  | closed hc' => rw [hc] at hc'; cases hc'

theorem one_warner (h : Phase p stops warners) : warners.length ≤ 1 := by
  cases h with
  | silent _ _ _ _ hw => simp [hw]
  | warning _ _ _ _ hw => simp [hw]
  | closed _ _ hw => obtain ⟨-, hw⟩ | ⟨-, returned, hw⟩ := hw <;> simp [hw]

/-- The goroutines of a closed provider are told to return. -/
theorem told (h : Phase p stops warners) (hc : p.closed = true) :
    ∀ w ∈ warners, stops[w.stop]? = some true := by
  cases h with
  | silent hc' => rw [hc] at hc'; cases hc'
  | warning hc' => rw [hc] at hc'; cases hc'
  | closed _ _ hw => obtain ⟨-, hw⟩ | ⟨hs, returned, hw⟩ := hw <;> simp [*]

end Phase

/-! ## What a step keeps -/

section

variable {file : PasswordFile} {x : Call} {s s' : Krb}

theorem Checked.phase {r : Option GoError} (h : Checked mac file s r s') (hs : InPhase s) :
    InPhase s' := by
  cases h with
  | clear => exact hs
  | refused => exact hs
  | changed => exact hs.clear

theorem Acquired.phase {passwd : Str} {r : Except String (TicketClient × Int)}
    (h : Acquired x passwd s r s') (hs : InPhase s) : InPhase s' := by
  cases h <;> exact hs

/-- The first rejection makes the ticker, the channel and the goroutine; a
later one finds them. -/
theorem reject_phase (fingerprint : Str) (hs : InPhase s) (hc : s.p.closed = false) :
    InPhase (reject fingerprint s) := by
  unfold reject
  cases hs with
  | silent _ ht _ hstops hw =>
    rw [if_neg (by simp [ht])]
    exact .warning hc rfl (by simp [hstops]) (by simp [hstops]) (by simp [hw, hstops])
  | warning _ ht hstop ho hw =>
    rw [if_pos ht]
    exact .warning hc ht hstop ho hw
  | closed hc' => rw [hc] at hc'; cases hc'

theorem Granted.phase {r : Except GoError TicketClient} (h : Granted mac x s r s') (hs : InPhase s)
    (hc : s.p.closed = false) : InPhase s' := by
  cases h with
  | cached => exact hs
  | unread => exact hs
  | failed hstale hr ha =>
    split
    · exact reject_phase _ (ha.phase hs) (ha.frame.1 ▸ hc)
    · exact ha.phase hs
  | replaced hstale hr ha => exact (ha.phase hs).ticket

theorem Called.phase {r : Except GoError Str} (h : Called mac x s r s') (hs : InPhase s) :
    InPhase s' := by
  cases h with
  | closed => exact hs
  | refused hc h => exact h.phase hs
  | went hc h hg => exact hg.phase (h.phase hs) (h.frame.2.1.trans hc)

theorem ProviderCloses.phase (h : ProviderCloses s s') (hs : InPhase s) : InPhase s' := by
  cases h with
  | silent ht =>
    cases hs with
    | silent _ _ _ hstops hw => exact .closed rfl rfl (.inl ⟨hstops, hw⟩)
    | warning _ ht' => rw [ht] at ht'; cases ht'
    | closed _ _ hw => exact .closed rfl rfl hw
  | warning ht hc ho =>
    cases hs with
    | silent _ ht' => rw [ht] at ht'; cases ht'
    | warning _ _ hstop hopen hw =>
      rw [hc] at hstop
      cases hstop
      exact .closed rfl rfl (.inr ⟨by simp [closeWith, hopen], false, hw⟩)
    | closed _ ht' => rw [ht] at ht'; cases ht'

/-- A goroutine that returns was told to. -/
theorem stopped_phase {i : Nat} (hs : InPhase s) (hi : s.canTake (.stopped i) = true) :
    Phase s.p s.stops (s.warners.modify i fun w => { w with returned := true }) := by
  cases hs with
  | silent hc ht hl hstops hw => exact .silent hc ht hl hstops (by simp [hw])
  | warning hc ht hstop ho hw =>
    rcases i with - | i <;> simp [Krb.canTake, hw, ho] at hi
  | closed hc ht hw =>
    refine .closed hc ht (hw.imp (.imp_right fun hw => by simp [hw]) (.imp_right ?_))
    rintro ⟨returned, hw⟩
    rcases i with - | i
    · exact ⟨true, by simp [hw]⟩
    · exact ⟨returned, by simp [hw]⟩

theorem Phase.no_stopFault (hs : InPhase s) : ¬ StopFaults s := by
  rintro ⟨ht, hstops⟩
  cases hs with
  | silent _ ht' => rw [ht] at ht'; cases ht'
  | warning _ _ hstop ho => simpa [ho] using hstops 0 hstop
  | closed _ ht' => rw [ht] at ht'; cases ht'

theorem Phase.no_nilTicker (hs : InPhase s) (hc : s.p.closed = false)
    (hl : s.p.passwordRejected = true) : s.p.rejectWarnTicker ≠ false := by
  rw [(hs.latched hl hc).1]
  exact Bool.noConfusion

/-- Nothing that can happen panics, and the provider is closed by `Close` alone. -/
theorem program_phase {a : KrbAct} (ha : mayTake s a = true) (hs : InPhase s) :
    Ends (a.program mac) s (fun _ s' => InPhase s' ∧ (a = .close ∨ s.p.closed = true → s'.p.closed = true))
      fun _ => False := by
  cases a with
  | getToken x =>
    refine Ends.bind_iff.mpr (Ends.modify_iff.mpr (Ends.bind_iff.mpr ?_))
    refine (getToken_ends x _).mono (fun r s' h => ?_) fun _ ⟨hc, hl, ht⟩ => hs.no_nilTicker hc hl ht
    refine Ends.modify_iff.mpr ⟨h.phase hs, fun hc => ?_⟩
    exact h.frame.2.1.trans (hc.resolve_left (by simp))
  | tick i file =>
    refine Ends.bind_iff.mpr (Ends.get_iff.mpr (Ends.ite (fun h => ?_) fun _ => ?_))
    · have hopen : s.p.closed = false ∧ s.p.passwordRejected = true := by simpa using h
      refine Ends.bind_iff.mpr ((checkPasswordRejected_ends file s).mono (fun r s' h' => ?_) fun _ hf => ?_)
      · exact Ends.pure_iff.mpr ⟨h'.phase hs,
        fun hc => h'.frame.2.1.trans (hc.resolve_left (by simp))⟩
      · exact hs.no_nilTicker hopen.1 hopen.2 hf.2
    · exact Ends.pure_iff.mpr ⟨hs, fun hc => hc.resolve_left (by simp)⟩
  | stopped i => exact Ends.modify_iff.mpr ⟨stopped_phase hs ha, fun hc => hc.resolve_left (by simp)⟩
  | close =>
    refine (closeProvider_ends s).mono (fun _ s' h => ⟨h.phase hs, fun _ => ?_⟩) fun _ hf => hs.no_stopFault hf
    cases h <;> rfl

end

/-! ## Runs -/

section

variable {passwordFile : String} {key passwd : Str} {start : Int} {as : List KrbAct} {s : Krb}

theorem anyClock_phase
    (h : (anyClock mac (newGokrb5TokenProvider passwordFile key passwd) start).exec as = some s) :
    InPhase s ∧ (.close ∈ as → s.p.closed = true) := by
  refine Machine.invariant (I := fun as s => InPhase s ∧ (.close ∈ as → s.p.closed = true)) ?_ ?_ h
  · exact ⟨.silent rfl rfl rfl rfl rfl, fun h => (nomatch h)⟩
  · intro as s a s' _ ⟨hs, hc⟩ hstep
    obtain ⟨ha, hstep⟩ := Option.ite_none_right_eq_some.mp hstep
    obtain ⟨-, hs', hc'⟩ := (program_phase ha hs).of_toOption hstep
    refine ⟨hs', fun hm => hc' ?_⟩
    rcases List.mem_append.mp hm with hm | hm
    · exact .inr (hc hm)
    · exact .inl (List.mem_singleton.mp hm).symm

/-- After every run of `GetToken` calls, ticks and `Close` calls, at any times
and with any answers. -/
theorem warnings_never_fault
    (h : (anyClock mac (newGokrb5TokenProvider passwordFile key passwd) start).exec as = some s) :
    WarnsSafely mac as s := by
  obtain ⟨hs, hc⟩ := anyClock_phase h
  refine ⟨fun a ha f hf => ?_, hs.one_warner, fun hm w hw _ => hs.told (hc hm) w hw, hs.latched⟩
  have he : Ends (a.program mac) s _ _ := program_phase ha hs
  rw [Ends, hf] at he
  exact he

end

/-- `Close` is called twice with the latch set, and then a token is asked for;
the goroutine has yet to return. -/
def closedRun : List KrbAct :=
  rejectedRun ++ [.close, .getToken (callFinding "new" "new" preauthFailed)]

theorem warnings_never_fault_closedRun :
    ∃ s, (anyClock (· ++ ·) (newGokrb5TokenProvider "pw" [] []) 0).exec closedRun = some s ∧
      s.p.passwordRejected = true ∧ s.p.rejectWarnTicker = false ∧ s.warners = [⟨0, false⟩] ∧
      WarnsSafely (· ++ ·) closedRun s := by
  have hrun : ((anyClock (· ++ ·) (newGokrb5TokenProvider "pw" [] []) 0).exec closedRun).map
      (fun s => (s.p.passwordRejected, s.p.rejectWarnTicker, s.warners)) = some (true, false, [⟨0, false⟩]) := by
    decide +kernel
  obtain ⟨s, hs, he⟩ := Option.map_eq_some_iff.mp hrun
  obtain ⟨hl, ht, hw⟩ : s.p.passwordRejected = true ∧ s.p.rejectWarnTicker = false ∧
    s.warners = [⟨0, false⟩] := by
    simpa using he
  exact ⟨s, hs, hl, ht, hw, warnings_never_fault hs⟩

end SP.Proof.Gokrb5
