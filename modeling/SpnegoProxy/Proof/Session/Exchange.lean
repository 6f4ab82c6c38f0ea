import SpnegoProxy.Proof.Session.Trace
import SpnegoProxy.Spec.Exchange

/-!
# A response that beats the upload

`exchange_joins`: whatever the order of the two goroutines' steps,
`exchangeRequest` returns what the session's model makes of the response and
of the upload's end (`joinUpload`). `exchange_noReuse_iff`: the connection is
left open only if the upload ended before the final response was read, except
in one kind of interleaving: the upload ends and reports after the response
was read and before the `select` looks.
-/

namespace SP.Proof

open SP.Go SP.Impl SP.Spec

/-! ## The parts of an interleaving -/

/-- The interleaving up to the `select`: `p`, the read of `r`, `q`. -/
structure UpToSelect (p q : List ExchangeAct) (r : ReadResult) (as : List ExchangeAct) : Prop where
  split : as = p ++ .readDone r :: q
  unread : ∀ a ∈ p, isReadDone a = false
  unselected : ∀ a ∈ q, isSelect a = false

/-- The whole interleaving, with a `select` after `q`. -/
structure Selected (p q : List ExchangeAct) (r : ReadResult) (as : List ExchangeAct) : Prop where
  split : ∃ q', as = (p ++ .readDone r :: q) ++ .select :: q'
  unread : ∀ a ∈ p, isReadDone a = false
  unselected : ∀ a ∈ q, isSelect a = false

namespace Selected

variable {p q as : List ExchangeAct} {r : ReadResult}

theorem snoc (h : Selected p q r as) (a : ExchangeAct) : Selected p q r (as ++ [a]) := by
  obtain ⟨⟨q', rfl⟩, hp, hq⟩ := h
  exact ⟨⟨q' ++ [a], by simp⟩, hp, hq⟩

theorem beforeRead_eq (h : Selected p q r as) : beforeRead as = p := by
  obtain ⟨⟨q', rfl⟩, hp, -⟩ := h
  have hp : ∀ a ∈ p, (!isReadDone a) = true := fun a ha => by rw [hp a ha]; rfl
  rw [beforeRead, List.append_assoc, List.cons_append, List.takeWhile_append_of_pos hp,
    List.takeWhile_cons_of_neg (by simp [isReadDone]), List.append_nil]

theorem beforeSelect_eq (h : Selected p q r as) : beforeSelect as = q := by
  obtain ⟨⟨q', rfl⟩, hp, hq⟩ := h
  have hp : ∀ a ∈ p, (!isReadDone a) = true := fun a ha => by rw [hp a ha]; rfl
  have hq : ∀ a ∈ q, (!isSelect a) = true := fun a ha => by rw [hq a ha]; rfl
  rw [beforeSelect, List.append_assoc, List.cons_append, List.dropWhile_append_of_pos hp,
    List.dropWhile_cons_of_neg (by simp [isReadDone]), List.drop_succ_cons, List.drop_zero,
    List.takeWhile_append_of_pos hq,
      List.takeWhile_cons_of_neg (by simp [isSelect]), List.append_nil]

theorem read_eq (h : Selected p q r as) : as.findSome? readOf = some r := by
  obtain ⟨⟨q', rfl⟩, hp, -⟩ := h
  have hp : p.findSome? readOf = none := List.findSome?_eq_none_iff.mpr fun a ha => by
    have := hp a ha
    cases a <;> first | rfl | cases this
  rw [List.append_assoc, List.findSome?_append, hp, List.cons_append, List.findSome?_cons]
  rfl

end Selected

/-- What the two upload results are as an `Upload`. -/
theorem keepEarly_selected (r : ReadResult) (err : Option Str) :
    keepEarly (selected r err) = joinUpload r (.done err) := by
  rcases r with ⟨_ | resp, clientErr, rerr⟩ <;> cases err <;> rfl

theorem keepEarly_joined (r : ReadResult) (err : Option Str) :
    keepEarly (joined r err) = joinUpload r (.late err) := by
  rcases r with ⟨_ | resp, clientErr, rerr⟩ <;> cases err <;> rfl

/-! ## What holds of every interleaving -/

/-- The upload ends at most once, and reports after it ended. -/
def UploadInv (as : List ExchangeAct) : UploadPc → Prop
  | .writing => as.filterMap endOf = [] ∧ .send ∉ as
  | .waking werr => as.filterMap endOf = [some werr] ∧ .send ∉ as
  | .sending err => as.filterMap endOf = [err] ∧ .send ∉ as
  | .done => (∃ err, as.filterMap endOf = [err]) ∧ .send ∈ as

/-- How the `select` found the upload. -/
inductive Outcome (as : List ExchangeAct) (r : ReadResult) : Upload → Prop where
  | done {p q : List ExchangeAct} {err : Option Str} : Selected p q r as → .send ∈ p ++ q →
    (p ++ q).filterMap endOf = [err] → Outcome as r (.done err)
  | late {p q : List ExchangeAct} {err : Option Str} : Selected p q r as → .send ∉ p ++ q →
    Outcome as r (.late err)

theorem Outcome.snoc {as : List ExchangeAct} {r : ReadResult} {u : Upload} (h : Outcome as r u)
    (a : ExchangeAct) : Outcome (as ++ [a]) r u := by
  cases h with
  | done hs hm he => exact .done (hs.snoc a) hm he
  | late hs hm => exact .late (hs.snoc a) hm

/-- Where the main goroutine is in the interleaving. -/
def MainInv (as : List ExchangeAct) : MainPc → Prop
  | .reading => ∀ a ∈ as, isReadDone a = false
  | .selecting r => ∃ p q, UpToSelect p q r as
  | .cancelClient r => ∃ p q, Selected p q r as ∧ .send ∉ p ++ q
  | .cancelUpstream r => ∃ p q, Selected p q r as ∧ .send ∉ p ++ q
  | .joining r => ∃ p q, Selected p q r as ∧ .send ∉ p ++ q
  | .leaving x => ∃ r u, Outcome as r u ∧ keepEarly x = joinUpload r u
  | .returned x => ∃ r u, Outcome as r u ∧ x = joinUpload r u

/-- The main goroutine has not received the upload's result yet. -/
def awaitsUpload : MainPc → Bool
  | .leaving _ => false
  | .returned _ => false
  | _ => true

structure ExchangeInv (as : List ExchangeAct) (s : ExchangeState) : Prop where
  upload : UploadInv as s.upload
  main : MainInv as s.main
  written {err : Option Str} : s.written = some err → .send ∈ as ∧ as.filterMap endOf = [err]
  unread : awaitsUpload s.main = true → .send ∈ as → s.written ≠ none

/-- A step that is not the upload's end does not count as one. -/
theorem filterMap_endOf {a : ExchangeAct} (he : endOf a = none) (p q : List ExchangeAct) :
    (p ++ a :: q).filterMap endOf = (p ++ q).filterMap endOf := by
  rw [List.filterMap_append, List.filterMap_cons_none he, List.filterMap_append]

theorem filterMap_endOf_snoc {a : ExchangeAct} (he : endOf a = none) (as : List ExchangeAct) :
    (as ++ [a]).filterMap endOf = as.filterMap endOf := by
  rw [filterMap_endOf he, List.append_nil]

/-- A step of the main goroutine is none of the upload's. -/
theorem UploadInv.snoc {as : List ExchangeAct} {u : UploadPc} (h : UploadInv as u) {a : ExchangeAct}
    (he : endOf a = none) (hs : a ≠ .send) : UploadInv (as ++ [a]) u := by
  have hf := filterMap_endOf_snoc he as
  have hm : .send ∈ as ++ [a] ↔ .send ∈ as := by simp [Ne.symm hs]
  cases u <;> simpa only [UploadInv, hf, hm] using h

/-- A step of the upload is none of the main goroutine's. -/
theorem MainInv.snoc {as : List ExchangeAct} {m : MainPc} (h : MainInv as m) {a : ExchangeAct}
    (hr : isReadDone a = false) (hs : isSelect a = false) : MainInv (as ++ [a]) m := by
  cases m with
  | reading =>
    intro b hb
    rcases List.mem_append.mp hb with hb | hb
    · exact h b hb
    · rw [List.mem_singleton.mp hb, hr]
  | selecting r =>
    obtain ⟨p, q, rfl, hp, hq⟩ := h
    refine ⟨p, q ++ [a], by simp, hp, fun b hb => ?_⟩
    rcases List.mem_append.mp hb with hb | hb
    · exact hq b hb
    · rw [List.mem_singleton.mp hb, hs]
  | cancelClient r => obtain ⟨p, q, h, hn⟩ := h; exact ⟨p, q, h.snoc a, hn⟩
  | cancelUpstream r => obtain ⟨p, q, h, hn⟩ := h; exact ⟨p, q, h.snoc a, hn⟩
  | joining r => obtain ⟨p, q, h, hn⟩ := h; exact ⟨p, q, h.snoc a, hn⟩
  | leaving x => obtain ⟨r, u, h, hx⟩ := h; exact ⟨r, u, h.snoc a, hx⟩
  | returned x => obtain ⟨r, u, h, hx⟩ := h; exact ⟨r, u, h.snoc a, hx⟩

/-- A step of the main goroutine that leaves the channel alone. -/
theorem ExchangeInv.of_main {as : List ExchangeAct} {s s' : ExchangeState} (h : ExchangeInv as s)
    {a : ExchangeAct} (he : endOf a = none) (hs : a ≠ .send) (hu : s'.upload = s.upload)
    (hw : s'.written = s.written) (hp : awaitsUpload s'.main = true → awaitsUpload s.main = true)
    (hm : MainInv (as ++ [a]) s'.main) : ExchangeInv (as ++ [a]) s' := by
  refine ⟨hu ▸ h.upload.snoc he hs, hm, fun hw' => ?_, fun hp' hs' => ?_⟩
  · obtain ⟨hsend, hend⟩ := h.written (hw ▸ hw')
    exact ⟨List.mem_append_left _ hsend, by rw [filterMap_endOf_snoc he, hend]⟩
  · rw [hw]
    exact h.unread (hp hp') (by simpa [Ne.symm hs] using hs')

/-- A step of the main goroutine that receives the upload's result. -/
theorem ExchangeInv.of_receive {as : List ExchangeAct} {s s' : ExchangeState} (h : ExchangeInv as s)
    {a : ExchangeAct} (he : endOf a = none) (hs : a ≠ .send) (hu : s'.upload = s.upload)
    (hw : s'.written = none) (hp : awaitsUpload s'.main = false)
    (hm : MainInv (as ++ [a]) s'.main) : ExchangeInv (as ++ [a]) s' := by
  refine ⟨hu ▸ h.upload.snoc he hs, hm, fun hw' => ?_, fun hp' => ?_⟩
  · rw [hw] at hw'; cases hw'
  · rw [hp] at hp'; cases hp'

/-- A step of the upload that sends nothing. -/
theorem ExchangeInv.of_upload {as : List ExchangeAct} {s s' : ExchangeState} (h : ExchangeInv as s)
    {a : ExchangeAct} (hr : isReadDone a = false) (hsel : isSelect a = false) (hs : a ≠ .send)
    (hns : .send ∉ as) (hm : s'.main = s.main) (hw : s'.written = s.written)
    (hu : UploadInv (as ++ [a]) s'.upload) : ExchangeInv (as ++ [a]) s' := by
  refine ⟨hu, hm ▸ h.main.snoc hr hsel, fun hw' => ?_, fun _ hs' => ?_⟩
  · exact absurd (h.written (hw ▸ hw')).1 hns
  · exact absurd (by simpa [Ne.symm hs] using hs') hns

theorem ExchangeInv.init : ExchangeInv [] ExchangeState.init :=
  ⟨⟨rfl, by simp⟩, fun _ h => (nomatch h), fun h => (nomatch h), fun _ h => nomatch h⟩

/-- Every step keeps the invariant, one case for each action. -/
theorem ExchangeInv.step {as : List ExchangeAct} {s s' : ExchangeState} {a : ExchangeAct}
    (h : ExchangeInv as s) (hs : exchangeStep s a = some s') : ExchangeInv (as ++ [a]) s' := by
  obtain ⟨main, upload, written, cr, ur, uw⟩ := s
  have hmain := h.main
  have hupload := h.upload
  cases a with
  | readInterim =>
    cases main <;> simp only [exchangeStep, reduceCtorEq, Option.some.injEq] at hs
    subst hs
    exact h.of_main rfl (by simp) rfl rfl id (hmain.snoc rfl rfl)
  | readDone r =>
    cases main <;> simp only [exchangeStep, reduceCtorEq, Option.some.injEq] at hs
    subst hs
    exact h.of_main rfl (by simp) rfl rfl (fun _ => rfl) ⟨as, [], rfl, hmain, by simp⟩
  | select =>
    cases main <;> simp only [exchangeStep, reduceCtorEq] at hs
    rename_i r
    obtain ⟨p, q, rfl, hp, hq⟩ := hmain
    have hsel : Selected p q r ((p ++ .readDone r :: q) ++ [.select]) := ⟨⟨[], rfl⟩, hp, hq⟩
    cases written with
    | some err =>
      cases hs
      obtain ⟨hsend, hend⟩ := h.written rfl
      refine h.of_receive rfl (by simp) rfl rfl rfl ⟨r, .done err, .done hsel ?_ ?_, keepEarly_selected r err⟩
      · simpa using hsend
      · rwa [filterMap_endOf rfl] at hend
    | none =>
      cases hs
      refine h.of_main rfl (by simp) rfl rfl (fun _ => rfl) ⟨p, q, hsel, fun hm => ?_⟩
      exact h.unread rfl (by simpa using hm) rfl
  | setClientRead =>
    cases main <;> simp only [exchangeStep, reduceCtorEq, Option.some.injEq] at hs
    subst hs
    obtain ⟨p, q, hsel, hn⟩ := hmain
    exact h.of_main rfl (by simp) rfl rfl (fun _ => rfl) ⟨p, q, hsel.snoc _, hn⟩
  | setUpstreamWrite =>
    cases main <;> simp only [exchangeStep, reduceCtorEq, Option.some.injEq] at hs
    subst hs
    obtain ⟨p, q, hsel, hn⟩ := hmain
    exact h.of_main rfl (by simp) rfl rfl (fun _ => rfl) ⟨p, q, hsel.snoc _, hn⟩
  | join =>
    cases main <;> simp only [exchangeStep, reduceCtorEq] at hs
    rename_i r
    obtain ⟨p, q, hsel, hn⟩ := hmain
    rcases written with _ | _ | werr
    · cases hs
    · cases hs
      exact h.of_receive rfl (by simp) rfl rfl rfl
        ⟨r, .late none, .late (hsel.snoc _) hn, keepEarly_joined r none⟩
    · cases hs
      exact h.of_receive rfl (by simp) rfl rfl rfl
        ⟨r, .late (some werr), .late (hsel.snoc _) hn, keepEarly_joined r (some werr)⟩
  | leave =>
    cases main <;> simp only [exchangeStep, reduceCtorEq, Option.some.injEq] at hs
    subst hs
    obtain ⟨r, u, ho, hx⟩ := hmain
    exact h.of_main rfl (by simp) rfl rfl (fun h => nomatch h) ⟨r, u, ho.snoc _, hx⟩
  | uploadEnds err =>
    cases upload <;> simp only [exchangeStep, reduceCtorEq] at hs
    obtain ⟨hend, hns⟩ := hupload
    cases err with
    | none =>
      cases hs
      exact h.of_upload rfl rfl (by simp) hns rfl rfl ⟨by simp [hend, endOf], by simpa using hns⟩
    | some werr =>
      cases hs
      exact h.of_upload rfl rfl (by simp) hns rfl rfl ⟨by simp [hend, endOf], by simpa using hns⟩
  | wakeRead =>
    cases upload <;> simp only [exchangeStep, reduceCtorEq, Option.some.injEq] at hs
    subst hs
    obtain ⟨hend, hns⟩ := hupload
    exact h.of_upload rfl rfl (by simp) hns rfl rfl ⟨by rwa [filterMap_endOf_snoc rfl], by simpa using hns⟩
  | send =>
    cases upload <;> simp only [exchangeStep, reduceCtorEq, Option.some.injEq] at hs
    subst hs
    obtain ⟨hend, hns⟩ := hupload
    rw [← filterMap_endOf_snoc (a := .send) rfl] at hend
    refine ⟨⟨⟨_, hend⟩, by simp⟩, hmain.snoc rfl rfl, fun hw => ?_, fun _ _ => by simp⟩
    cases hw
    exact ⟨by simp, hend⟩

theorem exchange_inv {as : List ExchangeAct} {s : ExchangeState} (h : exchange.exec as = some s) :
    ExchangeInv as s :=
  Machine.invariant ExchangeInv.init (fun _ hi hs => hi.step hs) h

/-- In every interleaving, `exchangeRequest` returns what `joinUpload` makes of
the response read and of how the upload ended. -/
theorem exchange_joins {as : List ExchangeAct} {s : ExchangeState} (h : exchange.exec as = some s)
    {x : Exchange} (hx : s.main = .returned x) : ∃ r u, Outcome as r u ∧ x = joinUpload r u := by
  have hm := (exchange_inv h).main
  rwa [hx] at hm

/-- In a run, what was reported has ended. -/
theorem ends_of_send {as : List ExchangeAct} {s : ExchangeState} (h : exchange.exec as = some s)
    (hs : .send ∈ as) : as.filterMap endOf ≠ [] := by
  have hu := (exchange_inv h).upload
  cases hpc : s.upload with
  | done =>
    rw [hpc] at hu
    obtain ⟨⟨err, he⟩, -⟩ := hu
    rw [he]; exact List.cons_ne_nil _ _
  | _ => rw [hpc] at hu; exact absurd hs hu.2

theorem mem_filterMap_endOf {as : List ExchangeAct} {err : Option Str} :
    err ∈ as.filterMap endOf ↔ .uploadEnds err ∈ as := by
  rw [List.mem_filterMap]
  constructor
  · rintro ⟨a, ha, he⟩
    cases a with
    | uploadEnds err' => cases he; exact ha
    | _ => cases he
  · exact fun h => ⟨_, h, rfl⟩

/-- Unless the `select` found the upload ended without an error, the returned
response closes the connection. -/
theorem joinUpload_close {r : ReadResult} {u : Upload} (hu : u ≠ .done none) {resp : Response}
    (h : (joinUpload r u).resp = some resp) : resp.close = true := by
  rcases u with (_ | werr) | (_ | werr)
  · exact absurd rfl hu
  · simp only [joinUpload] at h
    split at h
    · cases h; rfl
    · cases h
  all_goals
    obtain ⟨resp', -, rfl⟩ := Option.map_eq_some_iff.mp h
    rfl

/-- The connection is left open after a response that beat the upload exactly
when the upload ends and reports between the read and the `select`, and the
next hop itself does not close it. -/
theorem exchange_noReuse_iff {as : List ExchangeAct} {s : ExchangeState}
    (h : exchange.exec as = some s)
    {x : Exchange} (hx : s.main = .returned x) : NoReuse as x ↔ ¬ (Raced as ∧ KeepsOpen as) := by
  obtain ⟨r, u, ho, rfl⟩ := exchange_joins h hx
  have hclosed : u ≠ .done none → NoReuse as (joinUpload r u) := fun hu resp hresp hc => by
    rw [joinUpload_close hu hresp] at hc
    cases hc
  cases ho with
  | @late p q err hsel hn =>
    refine iff_of_true (hclosed (by simp)) fun ⟨⟨_, hs⟩, _⟩ => ?_
    rw [hsel.beforeSelect_eq] at hs
    exact hn (List.mem_append_right _ hs)
  | @done p q err hsel hs hend =>
    rw [List.filterMap_append, List.append_eq_singleton_iff] at hend
    cases err with
    | some werr =>
      refine iff_of_true (hclosed (by simp)) fun ⟨⟨he, _⟩, _⟩ => ?_
      rw [hsel.beforeSelect_eq, ← mem_filterMap_endOf] at he
      rcases hend with ⟨-, hq⟩ | ⟨-, hq⟩ <;> rw [hq] at he <;> simp at he
    | none =>
      rcases hend with ⟨hp, hq⟩ | ⟨hp, hq⟩
      · -- the upload ended after the read, so it also reported after it
        have hsp : .send ∉ p := fun hsp => by
          obtain ⟨⟨q', rfl⟩, -, -⟩ := hsel
          rw [List.append_assoc] at h
          obtain ⟨s', hs'⟩ := Machine.exec_of_append h
          exact ends_of_send hs' hsp hp
        have hraced : Raced as := by
          rw [Raced, hsel.beforeSelect_eq, ← mem_filterMap_endOf, hq]
          exact ⟨List.mem_singleton_self _, (List.mem_append.mp hs).resolve_left hsp⟩
        have hpn : .uploadEnds none ∉ p := fun hm => by
          rw [← mem_filterMap_endOf, hp] at hm
          cases hm
        rw [NoReuse, KeepsOpen, hsel.beforeRead_eq, hsel.read_eq]
        constructor
        · rintro hno ⟨-, r', resp, hr', hresp, hc⟩
          cases hr'
          exact hpn (hno resp hresp hc)
        · intro hno resp hresp hc
          exact absurd ⟨hraced, r, resp, rfl, hresp, hc⟩ hno
      · have hpe : .uploadEnds none ∈ p :=
        by rw [← mem_filterMap_endOf, hp]; exact List.mem_singleton_self _
        refine iff_of_true (fun _ _ _ => by rw [hsel.beforeRead_eq]; exact hpe) fun ⟨⟨he, _⟩, _⟩ => ?_
        rw [hsel.beforeSelect_eq, ← mem_filterMap_endOf, hq] at he
        cases he

/-- An upload that ends before a `200` is read. -/
def orderlyRun : List ExchangeAct :=
  [.readInterim, .uploadEnds none, .send, .readDone ⟨some (plainResponse 200), none, none⟩, .select, .leave]

theorem exchange_noReuse_orderlyRun :
    ∃ s x, exchange.exec orderlyRun = some s ∧ s.main = .returned x ∧
    x.resp = some (plainResponse 200) ∧ NoReuse orderlyRun x := by
  refine ⟨_, _, rfl, rfl, rfl, (exchange_noReuse_iff rfl rfl).mpr fun ⟨⟨he, _⟩, _⟩ => ?_⟩
  simp [beforeSelect, orderlyRun, isReadDone, isSelect] at he

/-- A `417` that is read first, and an upload that ends before the `select`. -/
def racedRun : List ExchangeAct :=
  [.readDone ⟨some (plainResponse 417), none, none⟩, .uploadEnds none, .send, .select, .leave]

/-- The response beat the upload, and the connection is reused. -/
theorem racedRun_reuse : ∃ s x resp, exchange.exec racedRun = some s ∧ s.main = .returned x ∧
    x.resp = some resp ∧ connectionWillClose (plainGet (str "example.com") ⟨∅⟩) resp = false ∧
    ¬ NoReuse racedRun x := by
  refine ⟨_, _, plainResponse 417, rfl, rfl, rfl, rfl, fun h => ?_⟩
  have he := h (plainResponse 417) rfl rfl
  simp [beforeRead, racedRun, isReadDone] at he

end SP.Proof
