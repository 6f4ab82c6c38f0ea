import SpnegoProxy.Proof.Session.Exchange
import SpnegoProxy.Proof.Session.Failures

/-!
# What `exchangeRequest` tells of the upload, and what it leaves behind

An upload that fails wakes the read of the response before it reports its
error. `upload_failure_reported_iff`: the error is returned as the request's,
as it is where no goroutine is used, exactly when the report comes before the
`select` looks; after that it is taken for the result of the cancellation.
`exchange_leaves_nothing`: whatever the order of the steps, the upload is over
when `exchangeRequest` returns, and a connection that may be used again has no
deadline left on it.
-/

namespace SP.Proof

open SP.Go SP.Impl SP.Spec

/-! ## Failed uploads -/

theorem tellsOfUpload_iff {werr : Str} {x : Exchange} :
    TellsOfUpload werr x ↔ x.requestErr = some werr := by
  refine ⟨fun h => h.requestErr, fun h => ⟨h, fun reader hf he => ?_, fun env c req onErr w => ?_⟩⟩
  · refine WP.ite (fun _ => WP.bind_iff.mpr (writeRequest_adds.mono fun err _ ⟨herr, _⟩ => ?_)) fun hn => absurd hf hn
    rw [he] at herr
    subst herr
    exact h
  · refine WP.ite (fun _ => WP.bind_iff.mpr (writeHTTPError_adds env _ w)) fun hn => absurd ?_ hn
    rw [h]
    exact Option.some_ne_none werr

/-- The upload of a run ends once. -/
theorem ends_eq {as : List ExchangeAct} {s : ExchangeState} (h : exchange.exec as = some s)
    {err err' : Option Str}
    (he : .uploadEnds err ∈ as) (he' : .uploadEnds err' ∈ as) : err = err' := by
  rw [← mem_filterMap_endOf] at he he'
  have hone : ∀ {l : List (Option Str)} {e : Option Str}, l = [e] → err ∈ l → err' ∈ l →
    err = err' := by
    rintro l e rfl h₁ h₂
    rw [List.mem_singleton.mp h₁, List.mem_singleton.mp h₂]
  have hu := (exchange_inv h).upload
  cases hpc : s.upload with
  | writing =>
    rw [hpc] at hu
    rw [hu.1] at he
    cases he
  | waking werr => rw [hpc] at hu; exact hone hu.1 he he'
  | sending e => rw [hpc] at hu; exact hone hu.1 he he'
  | done =>
    rw [hpc] at hu
    obtain ⟨⟨e, hend⟩, -⟩ := hu
    exact hone hend he he'

/-- In every interleaving in which the upload fails and no final response is
read, the failure is told of exactly when it is reported before the `select`. -/
theorem upload_failure_reported_iff {as : List ExchangeAct} {s : ExchangeState}
    (h : exchange.exec as = some s)
    {x : Exchange} (hx : s.main = .returned x) {werr : Str} (hf : .uploadEnds (some werr) ∈ as)
    (hn : NoFinal as) : TellsOfUpload werr x ↔ ReportedInTime as := by
  obtain ⟨r, u, ho, rfl⟩ := exchange_joins h hx
  have hr : ∀ {p q}, Selected p q r as → r.resp = none := fun hsel => by
    obtain ⟨r', hr', hnone⟩ := hn
    rw [hsel.read_eq] at hr'
    cases hr'
    exact hnone
  rw [tellsOfUpload_iff]
  cases ho with
  | @done p q err hsel hs hend =>
    rw [ReportedInTime, hsel.beforeRead_eq, hsel.beforeSelect_eq]
    have herr : .uploadEnds err ∈ as := by
      have hm : .uploadEnds err ∈ p ++ q :=
        by rw [← mem_filterMap_endOf, hend]; exact List.mem_singleton_self _
      obtain ⟨⟨q', rfl⟩, -, -⟩ := hsel
      rcases List.mem_append.mp hm with hm | hm <;> simp [hm]
    rw [ends_eq h herr hf]
    refine iff_of_true ?_ hs
    simp only [joinUpload, hr hsel]
  | @late p q err hsel hs =>
    rw [ReportedInTime, hsel.beforeRead_eq, hsel.beforeSelect_eq]
    refine iff_of_false (fun he => ?_) hs
    cases err <;> cases he

/-- The upload fails, wakes the read and reports, and then the `select` looks. -/
def wokenRun : List ExchangeAct :=
  [.uploadEnds (some (str "broken pipe")), .wakeRead, .send,
    .readDone ⟨none, none, some (.other (str "i/o timeout"))⟩, .select, .leave]

theorem upload_failure_reported_wokenRun :
    ∃ s x, exchange.exec wokenRun = some s ∧ s.main = .returned x ∧
    TellsOfUpload (str "broken pipe") x := by
  have hn : NoFinal wokenRun := ⟨⟨none, none, some (.other (str "i/o timeout"))⟩, rfl, rfl⟩
  refine ⟨_, _, rfl, rfl, (upload_failure_reported_iff rfl rfl (List.mem_cons_self ..) hn).mpr ?_⟩
  simp [ReportedInTime, beforeRead, beforeSelect, isReadDone, isSelect]

/-- The same steps, but the woken read comes to the `select` before the report. -/
def overtakenRun : List ExchangeAct :=
  [.uploadEnds (some (str "broken pipe")), .wakeRead,
    .readDone ⟨none, none, some (.other (str "i/o timeout"))⟩,
    .select, .setClientRead, .setUpstreamWrite, .send, .join, .leave]

/-- The upload failed before any deadline was set to cancel it, and the client
is told that the response cannot be parsed. -/
theorem overtakenRun_untold : ∃ s x, exchange.exec overtakenRun = some s ∧ s.main = .returned x ∧
    NoFinal overtakenRun ∧ overtakenRun.head? = some (.uploadEnds (some (str "broken pipe"))) ∧
    ¬ TellsOfUpload (str "broken pipe") x ∧
    x.err.map upstreamResponseError = some errUnparseableResponse := by
  refine ⟨_, _, rfl, rfl, ⟨_, rfl, rfl⟩, rfl, fun h => ?_, rfl⟩
  cases h.requestErr

/-! ## What is left behind -/

/-- The exchange's response closes its connection. -/
def ClosesAfter (x : Exchange) : Prop := ∀ resp, x.resp = some resp → resp.close = true

/-- The deadlines at each place of the main goroutine: those of the
cancellation are set only where it is under way, and are left set only after
a response that closes the connection. -/
def DeadlineInv (s : ExchangeState) : MainPc → Prop
  | .reading | .selecting _ | .cancelClient _ => s.clientRead = false ∧ s.upstreamWrite = false
  | .cancelUpstream _ => s.upstreamWrite = false
  | .joining _ => True
  | .leaving x =>
    s.upload = .done ∧ (s.clientRead = false ∧ s.upstreamWrite = false ∨ ClosesAfter (keepEarly x))
  | .returned x =>
    s.upload = .done ∧ s.upstreamRead = false ∧ (x.resp ≠ none → x.requestErr = none) ∧
      (s.clientRead = false ∧ s.upstreamWrite = false ∨ ClosesAfter x)

/-- The report is there only after the upload's last step. -/
structure DeadlinesInv (s : ExchangeState) : Prop where
  main : DeadlineInv s s.main
  reported : s.written ≠ none → s.upload = .done

theorem keepEarly_requestErr {x : Exchange} (h : (keepEarly x).resp ≠ none) :
    (keepEarly x).requestErr = none := by
  rcases x with ⟨_ | resp, _ | werr, clientErr, err⟩
  · exact absurd rfl h
  · exact absurd rfl h
  · rfl
  · rfl

/-- The upload's error after the cancellation closes the connection. -/
theorem joined_closes (r : ReadResult) (werr : Str) :
    ClosesAfter (keepEarly (joined r (some werr))) := by
  rw [keepEarly_joined]
  exact fun resp h => joinUpload_close (by simp) h

/-- A step of the upload: the deadline it may set is cleared before the main
goroutine returns. -/
theorem DeadlinesInv.of_upload {s s' : ExchangeState} (h : DeadlinesInv s) (hu : s.upload ≠ .done)
    (hm : s'.main = s.main) (hc : s'.clientRead = s.clientRead)
    (hw : s'.upstreamWrite = s.upstreamWrite)
    (hr : s'.written ≠ none → s'.upload = .done) : DeadlinesInv s' := by
  refine ⟨?_, hr⟩
  have hmain := h.main
  rw [hm]
  cases hpc : s.main with
  | joining r => trivial
  | leaving x => rw [hpc] at hmain; exact absurd hmain.1 hu
  | returned x => rw [hpc] at hmain; exact absurd hmain.1 hu
  | _ => rw [hpc] at hmain; simpa only [DeadlineInv, hc, hw] using hmain

theorem DeadlinesInv.step {s s' : ExchangeState} {a : ExchangeAct} (h : DeadlinesInv s)
    (hs : exchangeStep s a = some s') : DeadlinesInv s' := by
  obtain ⟨main, upload, written, cr, ur, uw⟩ := s
  have hmain := h.main
  have hrep := h.reported
  cases a with
  | readInterim =>
    cases main <;> simp only [exchangeStep, reduceCtorEq, Option.some.injEq] at hs
    subst hs
    exact h
  | readDone r =>
    cases main <;> simp only [exchangeStep, reduceCtorEq, Option.some.injEq] at hs
    subst hs
    exact ⟨hmain, hrep⟩
  | select =>
    cases main <;> simp only [exchangeStep, reduceCtorEq] at hs
    cases written with
    | some err => cases hs; exact ⟨⟨hrep (by simp), .inl hmain⟩, fun hn => absurd rfl hn⟩
    | none => cases hs; exact ⟨hmain, hrep⟩
  | setClientRead =>
    cases main <;> simp only [exchangeStep, reduceCtorEq, Option.some.injEq] at hs
    subst hs
    exact ⟨hmain.2, hrep⟩
  | setUpstreamWrite =>
    cases main <;> simp only [exchangeStep, reduceCtorEq, Option.some.injEq] at hs
    subst hs
    exact ⟨trivial, hrep⟩
  | join =>
    cases main <;> simp only [exchangeStep, reduceCtorEq] at hs
    rename_i r
    rcases written with _ | _ | werr
    · cases hs
    · cases hs; exact ⟨⟨hrep (by simp), .inl ⟨rfl, rfl⟩⟩, fun hn => absurd rfl hn⟩
    · cases hs; exact ⟨⟨hrep (by simp), .inr (joined_closes r werr)⟩, fun hn => absurd rfl hn⟩
  | leave =>
    cases main <;> simp only [exchangeStep, reduceCtorEq, Option.some.injEq] at hs
    subst hs
    exact ⟨⟨hmain.1, rfl, keepEarly_requestErr, hmain.2⟩, hrep⟩
  | uploadEnds err =>
    cases upload <;> simp only [exchangeStep, reduceCtorEq] at hs
    cases err with
    | none => cases hs; exact h.of_upload (by simp) rfl rfl rfl fun hn => by cases hrep hn
    | some werr => cases hs; exact h.of_upload (by simp) rfl rfl rfl fun hn => by cases hrep hn
  | wakeRead =>
    cases upload <;> simp only [exchangeStep, reduceCtorEq, Option.some.injEq] at hs
    subst hs
    exact h.of_upload (by simp) rfl rfl rfl fun hn => by cases hrep hn
  | send =>
    cases upload <;> simp only [exchangeStep, reduceCtorEq, Option.some.injEq] at hs
    subst hs
    exact h.of_upload (by simp) rfl rfl rfl fun _ => rfl

theorem DeadlinesInv.init : DeadlinesInv ExchangeState.init := ⟨⟨rfl, rfl⟩, fun hn => absurd rfl hn⟩

theorem exchange_deadlines {as : List ExchangeAct} {s : ExchangeState}
    (h : exchange.exec as = some s) : DeadlinesInv s :=
  Machine.invariant (I := fun _ s => DeadlinesInv s) DeadlinesInv.init (fun _ hi hs => hi.step hs) h

/-- In every interleaving `exchangeRequest` returns after the upload's last
step, with an error of the request or a response, and leaves no deadline on a
connection that may be used again. -/
theorem exchange_leaves_nothing {as : List ExchangeAct} {s : ExchangeState}
    (h : exchange.exec as = some s)
    {x : Exchange} (hx : s.main = .returned x) (req : Request) : LeavesNothing req s x := by
  have hm := (exchange_deadlines h).main
  rw [hx] at hm
  obtain ⟨hover, hread, hreq, hdl⟩ := hm
  refine ⟨hover, fun _ => hread, hreq, fun {resp} hresp hkeep => ?_⟩
  rcases hdl with ⟨hc, hw⟩ | hclose
  · exact ⟨hc, hread, hw⟩
  · -- a response that closes the connection forbids its reuse
    rw [connectionWillClose, hclose resp hresp, Bool.or_true] at hkeep
    cases hkeep

/-- A `417` that is read while the body is withheld, and the upload ends after
the cancellation. -/
def withheldRun : List ExchangeAct :=
  [.readInterim, .readDone ⟨some (plainResponse 417), none, none⟩, .select, .setClientRead,
    .setUpstreamWrite,
    .uploadEnds none, .send, .join, .leave]

theorem exchange_leaves_nothing_withheldRun :
    ∃ s x, exchange.exec withheldRun = some s ∧ s.main = .returned x ∧
    LeavesNothing (plainGet (str "example.com") ⟨∅⟩) s x := by
  have hrun : exchange.exec withheldRun = some ⟨.returned (keepEarly (joined ⟨some (plainResponse 417), none, none⟩ none)),
    .done, none, false, false, false⟩ := rfl
  exact ⟨_, _, hrun, rfl, exchange_leaves_nothing hrun rfl _⟩

end SP.Proof
