import SpnegoProxy.Framework.Machine
import SpnegoProxy.Proof.Session.Stages
import SpnegoProxy.Spec.Answers

/-!
# At most one final response for each request

Read off the stages of a session: a request is open from its read to its
final head, and only an open one gets a head. A write that ends the session
takes it to a stage without steps, with one exception: after a failed write
of an interim response (`Stage.cut`) the session still answers the error of
an upload that had failed too. A run is `Answered` if and only if that does
not happen in it (`UploadsHeld`).
-/

namespace SP.Proof

open SP.Go SP.Impl SP.Spec

/-- Whenever the write of an interim response has failed, and the body of its
request is uploaded beside, the error of the upload is not there yet. -/
def UploadsHeld (env : Env) (tr : List Event) : Prop :=
  ∀ {pre resp err post}, tr = pre ++ .wrote (.interim resp) (some err) :: post →
    ∀ c req, lastSent pre = some (c, req) → UploadsBeside req →
      ∀ werr, env.upload (pre ++ [.wrote (.interim resp) (some err)]) ≠ .done (some werr)

theorem UploadsHeld.of_snoc {env : Env} {tr : List Event} {e : Event}
    (h : UploadsHeld env (tr ++ [e])) :
    UploadsHeld env tr := fun ht => h (by rw [ht, List.append_assoc]; rfl)

theorem answers_snoc (tr : List Event) (e : Event) :
    answers (tr ++ [e]) = answersStep (answers tr) e := by
  rw [answers, List.foldl_append]; rfl

/-- The request read last has only interim heads. -/
def Open (tr : List Event) : Prop := ∃ xs is, answers tr = xs ++ [is] ∧ ∀ m ∈ is, isInterim m = true

/-- What the answers so far say about a stage. -/
def Stage.Fits (tr : List Event) : Stage → Prop
  | .ready first => first = true ↔ answers tr = []
  | .held _ => Open tr
  | .failing _ => Open tr
  | .waiting _ _ => Open tr
  | .cut _ => True
  | .tunnel => True
  | .over => True

/-- A head is added to an open request. -/
theorem Open.wrote {tr : List Event} (h : Open tr) (m : ClientMsg) (err : Option Str)
    (hm : isHead m = true) :
    ∃ xs is, answers tr = xs ++ [is] ∧ answers (tr ++ [.wrote m err]) = xs ++ [is ++ [m]] ∧
      ∀ m ∈ is, isInterim m = true := by
  obtain ⟨xs, is, ha, hi⟩ := h
  refine ⟨xs, is, ha, ?_, hi⟩
  rw [answers_snoc, ha, answersStep, if_pos hm, List.modifyLast_concat]

/-- An event that reads no request and writes no head leaves the answers as they are. -/
theorem answers_of_quiet {tr : List Event} {e : Event} (hr : ∀ x, e ≠ .read x)
    (hh : headOf e = none) : answers (tr ++ [e]) = answers tr := by
  rw [answers_snoc]
  cases e with
  | read x => exact absurd rfl (hr x)
  | wrote m err =>
    simp only [headOf, ite_eq_right_iff, reduceCtorEq, imp_false] at hh
    rw [answersStep, if_neg hh]
  | _ => rfl

theorem Open.of_quiet {tr : List Event} {e : Event} (h : Open tr) (hr : ∀ x, e ≠ .read x)
    (hh : headOf e = none) : Open (tr ++ [e]) := by
  obtain ⟨xs, is, ha, hi⟩ := h
  exact ⟨xs, is, by rw [answers_of_quiet hr hh, ha], hi⟩

/-- A request was read. -/
theorem open_of_read {tr : List Event} (raw : Request) : Open (tr ++ [.read (.ok raw)]) :=
  ⟨answers tr, [], by rw [answers_snoc]; rfl, by simp⟩

theorem Open.interim {tr : List Event} (h : Open tr) (resp : Response) (err : Option Str) :
    Open (tr ++ [.wrote (.interim resp) err]) := by
  obtain ⟨xs, is, -, ha, hi⟩ := h.wrote (.interim resp) err rfl
  refine ⟨xs, is ++ [.interim resp], ha, fun m hm => ?_⟩
  rcases List.mem_append.mp hm with hm | hm
  · exact hi m hm
  · rw [List.mem_singleton.mp hm]; rfl

/-- Interim heads and one more head. -/
theorem answer_snoc {is : List ClientMsg} {m : ClientMsg} (hi : ∀ m ∈ is, isInterim m = true)
    (hm : isHead m = true) : Answer (is ++ [m]) := by
  cases hk : isInterim m with
  | true =>
    refine ⟨is ++ [m], [], (List.append_nil _).symm, fun m' hm' => ?_, by simp, by simp⟩
    rcases List.mem_append.mp hm' with hm' | hm'
    · exact hi m' hm'
    · rw [List.mem_singleton.mp hm', hk]
  | false => exact ⟨is, [m], rfl, hi, by simp [isFinal, hm, hk], by simp⟩

/-! ## Steps -/

section

variable {cfg : Config} {env : Env} {tr : List Event} {st st' : Stage} {e : Event}

/-- Every step leads to a stage that fits. -/
theorem Stage.Fits.step (h : st.Fits tr) (hs : st.Step cfg env tr e st') : st'.Fits (tr ++ [e]) := by
  cases hs with
  | read => exact open_of_read _
  | malformed hm =>
    refine ⟨[], [], ?_, by simp⟩
    rw [answers_snoc, h.mp rfl]
    exact if_pos ⟨rfl, hm⟩
  | token | dialled | payload | recv => exact h.of_quiet (by simp) rfl
  | tokenFailed | dialFailed => exact h.of_quiet (by simp) rfl
  | sent => exact h.of_quiet (by simp) rfl
  | interim => exact h.interim _ _
  | kept =>
    obtain ⟨xs, is, -, ha, -⟩ := h.wrote (.final _ _) none rfl
    exact ⟨fun hf => (nomatch hf), fun hn => by rw [ha] at hn; simp at hn⟩
  | _ => trivial

/-- A head is written for an open request. -/
theorem Stage.Step.open_of_head (hs : st.Step cfg env tr e st') (hc : ∀ req, st ≠ .cut req)
    (hf : st.Fits tr) {m : ClientMsg} (hm : headOf e = some m) : Open tr := by
  cases hs with
  | cutAnswered => exact absurd rfl (hc _)
  | read | readFailed | malformed | token | tokenFailed | dialled | dialFailed | sent | payload | recv
  | up | down => exact (nomatch hm)
  | _ => exact hf

/-- After a write that ends the session there is at most the step of `cut`. -/
theorem Stage.Step.ends {m : ClientMsg} {err : Option Str}
    (hs : st.Step cfg env tr (.wrote m err) st')
    (he : endsSession m err = true) : st' = .over ∨ ∃ req, st' = .cut req := by
  cases hs with
  | interim | kept | connected | established | down => exact (nomatch he)
  | interimFailed => exact .inr ⟨_, rfl⟩
  | _ => exact .inl rfl

/-- What holds at every stage of a session whose uploads hold. -/
structure Standing (tr : List Event) (st : Stage) : Prop where
  ordered : tr.filterMap headOf = (answers tr).flatten
  once : ∀ ms ∈ answers tr, Answer ms
  last : ∀ {pre m err post}, tr = pre ++ .wrote m err :: post → endsSession m err = true →
    post = [] ∧ (st = .over ∨ ∃ req, st = .cut req)
  fits : st.Fits tr

variable (tr) in
/-- One more event that is not a head: the answers keep their heads. -/
theorem answers_of_headless (h : headOf e = none) :
    (answers (tr ++ [e])).flatten = (answers tr).flatten ∧
      ∀ ms ∈ answers (tr ++ [e]), ms = [] ∨ ms ∈ answers tr := by
  rw [answers_snoc]
  cases e with
  | read x =>
    cases x with
    | ok raw =>
      refine ⟨by simp [answersStep], fun ms hms => ?_⟩
      simpa [answersStep, or_comm] using hms
    | error err =>
      rw [answersStep]
      split
      · rename_i hx
        simp [List.isEmpty_iff.mp hx.1]
      · exact ⟨rfl, fun _ => .inr⟩
  | wrote m err =>
    have hm : ¬ isHead m = true := by simpa [headOf] using h
    rw [answersStep, if_neg hm]
    exact ⟨rfl, fun _ => .inr⟩
  | _ => exact ⟨rfl, fun _ => .inr⟩

theorem Standing.start : Standing [] (.ready true) :=
  ⟨rfl, by simp [answers], fun h => by simp at h, by simp [Stage.Fits, answers]⟩

theorem Standing.step (h : Standing tr st) (hc : ∀ req, st ≠ .cut req)
    (hs : st.Step cfg env tr e st') : Standing (tr ++ [e]) st' := by
  have hover : st ≠ .over := by rintro rfl; cases hs
  have hlast : ∀ {pre m err post}, tr ++ [e] = pre ++ .wrote m err :: post →
    endsSession m err = true →
      post = [] ∧ (st' = .over ∨ ∃ req, st' = .cut req) := by
    intro pre m err post ht he
    rcases snoc_split.mp ht with ⟨rfl, -, rfl⟩ | ⟨post', -, ht'⟩
    · exact ⟨rfl, hs.ends he⟩
    · exact absurd (h.last ht' he).2 (not_or.mpr ⟨hover, not_exists.mpr hc⟩)
  cases hm : headOf e with
  | none =>
    obtain ⟨hf, ho⟩ := answers_of_headless tr hm
    refine ⟨?_, fun ms hms => ?_, hlast, h.fits.step hs⟩
    · rw [hf, ← h.ordered, List.filterMap_append]
      simp [hm]
    · rcases ho ms hms with rfl | hms
      · exact ⟨[], [], rfl, by simp, by simp, by simp⟩
      · exact h.once ms hms
  | some m =>
    obtain ⟨err, rfl, hh⟩ : ∃ err, e = .wrote m err ∧ isHead m = true := by
      cases e with
      | wrote m' err =>
        simp only [headOf, Option.ite_none_right_eq_some, Option.some.injEq] at hm
        obtain ⟨hh, rfl⟩ := hm
        exact ⟨err, rfl, hh⟩
      | _ => cases hm
    obtain ⟨xs, is, ha, ha', hi⟩ := (hs.open_of_head hc h.fits hm).wrote m err hh
    refine ⟨?_, fun ms hms => ?_, hlast, h.fits.step hs⟩
    · rw [List.filterMap_append, h.ordered, ha, ha']
      simp [hm]
    · rw [ha'] at hms
      rcases List.mem_append.mp hms with hms | hms
      · exact h.once ms (by rw [ha]; exact List.mem_append_left _ hms)
      · rw [List.mem_singleton.mp hms]
        exact answer_snoc hi hh

/-- The session is cut by the event before, at the request written out last. -/
theorem Path.of_cut {req : Request} (h : Path cfg env tr (.cut req)) :
    ∃ pre resp err c, tr = pre ++ [.wrote (.interim resp) (some err)] ∧
      lastSent pre = some (c, req) := by
  cases h with
  | snoc h hs => cases hs with
    | interimFailed => exact ⟨_, _, _, _, rfl, h.lastSent_eq⟩

theorem Path.standing (h : Path cfg env tr st) (hu : UploadsHeld env tr) : Standing tr st := by
  induction h with
  | start => exact Standing.start
  | snoc hp hs ih =>
    refine (ih hu.of_snoc).step ?_ hs
    -- at `cut` the upload's error would be there, right after the failed write
    rintro req rfl
    obtain ⟨pre, resp, err, c, rfl, hl⟩ := hp.of_cut
    cases hs with
    | cutAnswered hb hw => exact hu.of_snoc rfl c req hl hb _ hw

/-- Where a session may end after a failed write, no error of an upload is there. -/
theorem Path.rests {pre : List Event} {resp : Response} {err : Str} {c : ConnId} {req : Request}
    (h : Path cfg env (pre ++ [.wrote (.interim resp) (some err)]) st)
    (hl : lastSent pre = some (c, req))
    (hr : st.Rests env (pre ++ [.wrote (.interim resp) (some err)])) (hb : UploadsBeside req)
    (werr : Str) : env.upload (pre ++ [.wrote (.interim resp) (some err)]) ≠ .done (some werr) := by
  generalize htr : pre ++ [Event.wrote (.interim resp) (some err)] = tr at h hr ⊢
  cases h with
  | start => simp at htr
  | snoc h hs =>
    obtain ⟨rfl, he⟩ := List.append_inj' htr rfl
    cases he
    cases hs with
    | interimFailed =>
      rw [h.lastSent_eq] at hl
      cases hl
      exact hr hb werr

end

/-- In a run every request gets interim heads and then at most one final head,
and nothing follows a head that ends the session, if and only if no failed
write of an interim response meets the error of an upload. -/
theorem answered_iff (cfg : Config) (env : Env) (n : Nat) :
    Answered (run cfg env n).trace ↔ UploadsHeld env (run cfg env n).trace := by
  obtain ⟨st, hp, hr⟩ := run_path cfg env n
  constructor
  · intro h pre resp err post ht c req hl hb werr
    obtain rfl := h.last ht rfl
    rw [ht] at hp hr
    exact hp.rests hl hr hb werr
  · intro hu
    have h := hp.standing hu
    exact ⟨h.ordered, h.once, fun ht he => (h.last ht he).1⟩

/-- Two requests, each answered by `103 Early Hints` and then `200 OK`. -/
def hintedGets : Env :=
  scripted [plainGet (str "h") ⟨∅⟩, plainGet (str "h") ⟨∅⟩] (str "dG9r")
    [.head (plainResponse 103), .head (plainResponse 200)]

example : (answers (run plainConfig hintedGets 3).trace).map List.length = [2, 2] :=
  by decide +kernel

/-- A `PUT` that waits for `100 Continue`. -/
def expectPut : Request :=
  { plainGet (str "h") (Header.set ⟨∅⟩ (str "Expect") (str "100-continue")) with
    method := str "PUT", body := .length 5 }

/-- The client goes away after the upstream proxy asked for the body: neither
can the body be read nor the interim response be written. -/
def lostClient : Env :=
  { scripted [expectPut] (str "dG9r") [.head (plainResponse 100)] with
    clientWrite := fun _ _ => some (str "broken pipe")
    upload := fun _ => .done (some (str "unexpected EOF")) }

/-- After the failed write the error of the upload is answered. -/
theorem lostClient_not_answered :
    wroteAt (run plainConfig lostClient 1).trace 6 = some (.error errConnectionTerminated,
      some (str "broken pipe")) ∧
      ¬ Answered (run plainConfig lostClient 1).trace := by
  refine ⟨by decide +kernel, fun h => ?_⟩
  obtain ⟨⟨m, err⟩, hw, hm⟩ : ∃ x, wroteAt (run plainConfig lostClient 1).trace 5 = some x ∧
      endsSession x.1 x.2 = true := by decide +kernel
  have hpost := h.last (split_of_wroteAt hw) hm
  have hlen : ((run plainConfig lostClient 1).trace.drop 6).length = 1 := by decide +kernel
  rw [hpost] at hlen
  cases hlen

end SP.Proof
