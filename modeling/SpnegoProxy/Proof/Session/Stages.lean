import SpnegoProxy.Framework.Machine
import SpnegoProxy.Proof.Session.Routes

/-!
# The stages of a session

A session goes from one `Stage` to the next, each time by one event. `Step`
lists every such step: what the session may do next, and what must hold for
it. `run_path`: the trace of every run is a `Path` of such steps. What holds
of every run as a sequence of events (how many answers a request gets, which
requests are written out, what is never done again) is then an induction on
paths, with one case for each step.
-/

namespace SP.Proof

open SP.Go SP.Impl

/-- The request that an event writes out, and on which connection. -/
def requestOf : Event → Option (ConnId × Request)
  | .sent c req _ => some (c, req)
  | _ => none

/-- The request written out last. -/
def lastSent (tr : List Event) : Option (ConnId × Request) := (tr.filterMap requestOf).getLast?

/-- The response that an event reads, and from which connection. -/
def recvOf : Event → Option (ConnId × Response)
  | .recv c resp => some (c, resp)
  | _ => none

/-- The response received last. -/
def lastRecv (tr : List Event) : Option (ConnId × Response) := (tr.filterMap recvOf).getLast?

/-- `resp` is the response received last, but for its `Close`. -/
def Received (tr : List Event) (resp : Response) : Prop :=
  ∃ c r close, lastRecv tr = some (c, r) ∧ resp = { r with close := close }

/-- Where a session is between two events. -/
inductive Stage where
  /-- It reads a request next: `first`, if it has read none. -/
  | ready (first : Bool)
  /-- It has read `raw`, and neither answered it nor written it out. -/
  | held (raw : Request)
  /-- It answers by the error `pe` next. -/
  | failing (pe : ProxyError)
  /-- It has written `req` on `c`, and waits for its final response. -/
  | waiting (c : ConnId) (req : Request)
  /-- The write of an interim response for `req` failed. -/
  | cut (req : Request)
  | tunnel
  | over

/-- What a request that passed the validation as `r` is when it is written out. -/
inductive Outbound (cfg : Config) (r : Request) : Request → Prop where
  | direct : Outbound cfg r (withVia cfg r)
  | reused (id : Str) : Outbound cfg r (withVia cfg (forwarded cfg id r))
  | first (id token : Str) : Outbound cfg r (withVia cfg (authorised token (forwarded cfg id r)))

theorem Outbound.method {cfg : Config} {r req : Request} (h : Outbound cfg r req) :
    req.method = r.method := by
  cases h <;> rfl

/-- The body of `req` is uploaded beside the reads of the responses. -/
def UploadsBeside (req : Request) : Prop :=
  req.method ≠ methodConnect ∧ req.body ≠ .noBody ∧ expectsContinue req = true

/-- A read error that is answered when it is the first read. -/
def Malformed (err : ReadErr) : Prop := err ≠ .shutdown ∧ isExpectedCloseError err = false

/-- The steps of a session after the events `tr`. -/
inductive Stage.Step (cfg : Config) (env : Env) (tr : List Event) :
    Stage → Event → Stage → Prop where
  | read {first raw} : Step cfg env tr (.ready first) (.read (.ok raw)) (.held raw)
  | readFailed {first err} : ¬ (first = true ∧ Malformed err) →
    Step cfg env tr (.ready first) (.read (.error err)) .over
  | malformed {err} : Malformed err →
    Step cfg env tr (.ready true) (.read (.error err)) (.failing errHTTPRequestError)
  | answered {raw e} : verdict cfg raw = .answered →
    Step cfg env tr (.held raw) (.wrote (.maxForwards raw.method) e) .over
  | rejected {raw pe e} : verdict cfg raw = .reject pe →
    Step cfg env tr (.held raw) (.wrote (.error pe) e) .over
  /-- A `CONNECT` on a direct connection. -/
  | mismatched {raw r e} : verdict cfg raw = .proceed r → r.method = methodConnect →
    Step cfg env tr (.held raw) (.wrote (.error errMismatchedTarget) e) .over
  | token {raw r t} : verdict cfg raw = .proceed r →
    Step cfg env tr (.held raw) (.token (.ok t)) (.held raw)
  | tokenFailed {raw r terr} : verdict cfg raw = .proceed r →
    Step cfg env tr (.held raw) (.token (.error terr)) (.failing (tokenErrorToProxyError terr))
  | dialled {raw r c t} : verdict cfg raw = .proceed r →
    Step cfg env tr (.held raw) (.dial c t) (.held raw)
  | dialFailed {raw r t derr} : verdict cfg raw = .proceed r →
    Step cfg env tr (.held raw) (.dialFailed t) (.failing (dialError derr))
  | sent {raw r c req answer} : verdict cfg raw = .proceed r → Outbound cfg r req →
    Step cfg env tr (.held raw) (.sent c req answer) (.waiting c req)
  | fail {pe e} : Step cfg env tr (.failing pe) (.wrote (.error pe) e) .over
  | payload {c req bs} : Step cfg env tr (.waiting c req) (.payload c bs) (.waiting c req)
  | recv {c req resp} : Step cfg env tr (.waiting c req) (.recv c resp) (.waiting c req)
  | interim {c req resp} : Step cfg env tr (.waiting c req) (.wrote (.interim resp) none) (.waiting c req)
  | interimFailed {c req resp e} : Step cfg env tr (.waiting c req) (.wrote (.interim resp) (some e)) (.cut req)
  /-- The only step after which another request is read. -/
  | kept {c req resp body} : Received tr resp → connectionWillClose req resp = false →
    Step cfg env tr (.waiting c req) (.wrote (.final resp body) none) (.ready false)
  | closed {c req resp body e} : Received tr resp →
    Step cfg env tr (.waiting c req) (.wrote (.final resp body) e) .over
  | unanswered {c req pe e} : Step cfg env tr (.waiting c req) (.wrote (.error pe) e) .over
  /-- The upload had failed too: its error is answered, on the connection that is gone. -/
  | cutAnswered {req werr e} : UploadsBeside req → env.upload tr = .done (some werr) →
    Step cfg env tr (.cut req) (.wrote (.error errConnectionTerminated) e) .over
  | connected {raw r resp} : verdict cfg raw = .proceed r →
    Step cfg env tr (.held raw) (.wrote (.connectOK resp) none) .tunnel
  | connectFailed {raw r resp e} : verdict cfg raw = .proceed r →
    Step cfg env tr (.held raw) (.wrote (.connectOK resp) (some e)) .over
  | established {c req resp} : Step cfg env tr (.waiting c req) (.wrote (.connectOK resp) none) .tunnel
  | establishFailed {c req resp e} : Step cfg env tr (.waiting c req) (.wrote (.connectOK resp) (some e)) .over
  | up {c bs} : Step cfg env tr .tunnel (.payload c bs) .tunnel
  | down {bs e} : Step cfg env tr .tunnel (.wrote (.data bs) e) .tunnel

/-- The events `tr` take a session from its start to a stage. -/
inductive Path (cfg : Config) (env : Env) : List Event → Stage → Prop where
  | start : Path cfg env [] (.ready true)
  | snoc {tr st e st'} : Path cfg env tr st → st.Step cfg env tr e st' →
    Path cfg env (tr ++ [e]) st'

theorem lastRecv_recv {tr : List Event} {c : ConnId} {resp : Response} :
    lastRecv (tr ++ [.recv c resp]) = some (c, resp) := by
  simp [lastRecv, recvOf]

theorem lastSent_of_ne {tr : List Event} {e : Event} (h : requestOf e = none) :
    lastSent (tr ++ [e]) = lastSent tr := by
  simp [lastSent, h]

/-- A session that waits for a response has written the request last. -/
theorem Path.lastSent_eq {cfg : Config} {env : Env} {tr : List Event} {c : ConnId} {req : Request}
    (h : Path cfg env tr (.waiting c req)) : lastSent tr = some (c, req) := by
  generalize hst : Stage.waiting c req = st at h
  induction h with
  | start => cases hst
  | snoc _ hs ih =>
    subst hst
    cases hs with
    | sent => simp [lastSent, requestOf]
    | payload | recv | interim => rw [lastSent_of_ne rfl]; exact ih rfl

/-- A path goes through a stage before and after each of its events, and ends
at the first at which the session is over. -/
theorem Path.split {cfg : Config} {env : Env} {tr pre post : List Event} {e : Event} {st : Stage}
    (h : Path cfg env tr st) (ht : tr = pre ++ e :: post) :
    ∃ st₁ st₂, Path cfg env pre st₁ ∧ st₁.Step cfg env pre e st₂ ∧
      (st₂ = .over → post = [] ∧ st = .over) := by
  induction h generalizing post with
  | start => simp at ht
  | snoc hp hs ih =>
    rcases snoc_split.mp ht with ⟨rfl, rfl, rfl⟩ | ⟨post', -, ht'⟩
    · exact ⟨_, _, hp, hs, fun h => ⟨rfl, h⟩⟩
    · obtain ⟨st₁, st₂, hp₁, hs₁, hover⟩ := ih ht'
      refine ⟨st₁, st₂, hp₁, hs₁, fun h => ?_⟩
      obtain ⟨-, rfl⟩ := hover h
      cases hs

section

variable (cfg : Config) (env : Env)

/-- The session is at the stage `st`. -/
abbrev At (st : Stage) (w : World) : Prop := Path cfg env w.trace st

/-- A session may end at the stage: after a failed interim write it does so
only if no error of an upload is there to answer. -/
def Stage.Rests (tr : List Event) : Stage → Prop
  | .cut req => UploadsBeside req → ∀ werr, env.upload tr ≠ .done (some werr)
  | _ => True

/-- The session is at a stage at which it may end. -/
def Somewhere (w : World) : Prop := ∃ st, At cfg env st w ∧ st.Rests env w.trace

variable {cfg env}

theorem Path.somewhere {st : Stage} {w : World} (h : At cfg env st w) (hr : st.Rests env w.trace) :
    Somewhere cfg env w := ⟨st, h, hr⟩

theorem Path.next {st st' : Stage} {e : Event} {w w' : World} (h : At cfg env st w)
    (ht : w'.trace = w.trace ++ [e]) (hs : st.Step cfg env w.trace e st') : At cfg env st' w' := by
  rw [At, ht]
  exact h.snoc hs

theorem writeClient_trace {m : ClientMsg} (w : World) :
    WP (writeClient env m) w fun err w' => w'.trace = w.trace ++ [.wrote m err] := rfl

/-- A write to the client is the step that its result gives. -/
theorem writeClient_at {st : Stage} {f : Option Str → Stage} {m : ClientMsg} {w : World}
    (h : At cfg env st w) (hs : ∀ err, st.Step cfg env w.trace (.wrote m err) (f err)) :
    WP (writeClient env m) w fun err w' => At cfg env (f err) w' := h.snoc (hs _)

/-- After an error response the session may end. -/
theorem writeHTTPError_ends {st : Stage} {pe : ProxyError} {w : World} (h : At cfg env st w)
    (hs : ∀ err, st.Step cfg env w.trace (.wrote (.error pe) err) .over) :
    WP (writeHTTPError env pe) w fun _ w' => Somewhere cfg env w' :=
  (writeClient_at (f := fun _ => .over) h hs).mono fun _ _ h' => h'.somewhere trivial

/-- The error that the session is about to write. -/
theorem fail_ends {pe : ProxyError} {w : World} (h : At cfg env (.failing pe) w) :
    WP (writeHTTPError env pe) w fun _ w' => Somewhere cfg env w' := writeHTTPError_ends h fun _ => .fail

/-! ## Before a request is written out -/

theorem readRequest_trace (w : World) :
    WP (readRequest env) w fun x w' => w'.trace = w.trace ++ [.read x] := rfl

/-- `run` reads: `first` in its first iteration. -/
theorem readNextRequest_at {iter : Nat} {w : World} (h : At cfg env (.ready (iter = 0)) w) :
    WP (readNextRequest env iter) w fun o w' => match o with
      | some raw => At cfg env (.held raw) w'
      | none => Somewhere cfg env w' := by
  refine WP.bind_iff.mpr ((readRequest_trace w).mono fun x w' ht => ?_)
  cases x with
  | ok raw => exact h.next ht .read
  | error err =>
    refine WP.ite (fun hq => ?_) fun hq => ?_
    · refine (h.next ht (.readFailed fun ⟨hf, hm⟩ => ?_)).somewhere trivial
      rcases hq with rfl | hq | hq
      · exact hm.1 rfl
      · exact absurd (of_decide_eq_true hf) (Nat.ne_of_gt hq)
      · rw [hm.2] at hq; cases hq
    · simp only [not_or, Nat.not_lt, Nat.le_zero, Bool.not_eq_true] at hq
      obtain ⟨hs, rfl, hc⟩ := hq
      exact WP.bind_iff.mpr (fail_ends (h.next ht (.malformed ⟨hs, hc⟩)))

theorem validateRequest_at {raw : Request} {w : World} (h : At cfg env (.held raw) w) :
    WP (validateRequest cfg env raw) w fun v w' =>
      (v = .answered ∧ At cfg env .over w') ∨ (verdict cfg raw = v ∧ At cfg env (.held raw) w') := by
  unfold validateRequest
  cases hv : verdict cfg raw with
  | answered =>
    refine WP.bind_iff.mpr ((writeClient_at (f := fun _ => .over) h fun _ => .answered hv).mono fun _ _ h' => ?_)
    exact .inl ⟨rfl, h'⟩
  | proceed r => exact .inr ⟨rfl, h⟩
  | reject pe => exact .inr ⟨rfl, h⟩

section

variable {raw r : Request} {w : World} (hv : verdict cfg raw = .proceed r)
include hv

theorem dial_at {t : Target} (h : At cfg env (.held raw) w) :
    WP (dial env t) w fun x w' => match x with
      | .ok _ => At cfg env (.held raw) w'
      | .error derr => At cfg env (.failing (dialError derr)) w' := by
  refine WP.bind_iff.mpr (ask_iff.mpr ?_)
  cases env.dial t w.trace with
  | some derr => exact h.snoc (.dialFailed hv)
  | none => exact h.snoc (.dialled hv)

theorem dialAndAuthUpstream_at {req : Request} (h : At cfg env (.held raw) w) :
    WP (dialAndAuthUpstream env req) w fun o w' => match o with
      | some (_, req') => At cfg env (.held raw) w' ∧ ∃ token, req' = authorised token req
      | none => Somewhere cfg env w' := by
  refine WP.bind_iff.mpr (ask_iff.mpr (WP.bind_iff.mpr (emit_iff.mpr ?_)))
  cases env.getToken w.trace with
  | error terr =>
    exact WP.bind_iff.mpr (fail_ends (h.snoc (.tokenFailed hv)))
  | ok token =>
    refine WP.bind_iff.mpr ((dial_at hv (h.snoc (.token hv))).mono fun x w' h' => ?_)
    cases x with
    | error derr => exact WP.bind_iff.mpr (fail_ends h')
    | ok c => exact ⟨h', token, rfl⟩

theorem writeRequest_at {c : ConnId} {req : Request} (ho : Outbound cfg r req)
    (h : At cfg env (.held raw) w) :
    WP (writeRequest env c req) w fun _ w' => At cfg env (.waiting c req) w' := by
  refine WP.bind_iff.mpr (ask_iff.mpr (WP.bind_iff.mpr (ask_iff.mpr (WP.bind_iff.mpr (ask_iff.mpr ?_)))))
  refine WP.bind_iff.mpr (WP.modify_iff.mpr (WP.bind_iff.mpr (emit_iff.mpr ?_)))
  have hs : Path cfg env (w.trace ++ [.sent c req (env.answer c req w.trace)]) (.waiting c req) :=
    h.snoc (.sent hv ho)
  exact WP.ite (fun _ => hs.snoc .payload) fun _ => hs

end

/-! ## Responses -/

section

variable {c : ConnId} {req : Request} {reader : List Wire → Except RespErr Response × List Wire} {w : World}

theorem readOne_at (h : At cfg env (.waiting c req) w) :
    WP (readOne c reader) w fun x w' =>
      At cfg env (.waiting c req) w' ∧ ∀ resp, x = .ok resp → lastRecv w'.trace = some (c, resp) := by
  refine WP.bind_iff.mpr (WP.get_iff.mpr ?_)
  cases reader (w.inbox c) with
  | mk x rest => cases x with
    | error err => exact ⟨h, fun _ h => (nomatch h)⟩
    | ok resp =>
      refine ⟨h.snoc .recv, ?_⟩
      rintro resp' ⟨⟩
      exact lastRecv_recv

/-- An interim response is written, or dropped for a client that cannot parse it. -/
theorem relayInterimResponse_at {resp : Response} (h : At cfg env (.waiting c req) w) :
    WP (relayInterimResponse env req resp) w fun err w' => match err with
      | none => At cfg env (.waiting c req) w'
      | some _ => At cfg env (.cut req) w' := by
  refine WP.ite (fun _ => h) fun _ => ?_
  refine (writeClient_at (f := fun | none => .waiting c req | some _ => .cut req) h fun err => ?_).mono fun err _ h' => ?_
  · cases err with
    | none => exact .interim
    | some e => exact .interimFailed
  · cases err <;> exact h'

/-- Where `readThroughInterim` leaves the session: the final response is
returned right after it was read. -/
def ReadThrough (cfg : Config) (env : Env) (c : ConnId) (req : Request) (x : ReadResult)
    (w : World) : Prop :=
  (x.clientErr = none ∧ At cfg env (.waiting c req) w ∧
    ∀ resp, x.resp = some resp → lastRecv w.trace = some (c, resp)) ∨
  (x.clientErr ≠ none ∧ x.resp = none ∧ At cfg env (.cut req) w)

theorem readThroughInterim_at (n : Nat) (h : At cfg env (.waiting c req) w) :
    WP (readThroughInterim env req (readOne c reader) n) w fun x w' => ReadThrough cfg env c req x w' := by
  induction n generalizing w with
  | zero => exact .inl ⟨rfl, h, fun _ h => (nomatch h)⟩
  | succ n ih =>
    refine WP.bind_iff.mpr ((readOne_at h).mono fun x w' ⟨h', hr⟩ => ?_)
    cases x with
    | error err => exact .inl ⟨rfl, h', fun _ h => (nomatch h)⟩
    | ok resp =>
      refine WP.ite (fun _ => .inl ⟨rfl, h', ?_⟩) fun _ => ?_
      · rintro resp' ⟨⟩
        exact hr resp rfl
      refine WP.ite (fun _ => .inl ⟨rfl, h', fun _ h => (nomatch h)⟩) fun _ => ?_
      refine WP.bind_iff.mpr ((relayInterimResponse_at h').mono fun err w'' h'' => ?_)
      cases err with
      | some werr => exact .inr ⟨by simp, rfl, h''⟩
      | none => exact ih h''

theorem readFinal_at (h : At cfg env (.waiting c req) w) :
    WP (readFinal env c req reader) w fun x w' => ReadThrough cfg env c req x w' := readThroughInterim_at _ h

/-- `exchangeRequest` may set `Close`. -/
theorem joinUpload_received {x : ReadResult} {u : Upload} {resp : Response}
    (h : (joinUpload x u).resp = some resp) :
    ∃ r close, x.resp = some r ∧ resp = { r with close := close } := by
  rcases u with (_ | werr) | (_ | werr) <;> simp only [joinUpload] at h
  · exact ⟨resp, resp.close, h, rfl⟩
  · cases hx : x.resp with
    | none => simp [hx] at h
    | some r =>
      simp only [hx, Option.some.injEq] at h
      exact ⟨r, true, rfl, h.symm⟩
  · obtain ⟨r, hr, rfl⟩ := Option.map_eq_some_iff.mp h
    exact ⟨r, true, hr, rfl⟩
  · obtain ⟨r, hr, rfl⟩ := Option.map_eq_some_iff.mp h
    exact ⟨r, true, hr, rfl⟩

/-- Where `exchangeRequest` leaves the session: after a failed interim write it
reports the upload's error only if that was there at the `select`. -/
def ExchangeJoined (cfg : Config) (env : Env) (c : ConnId) (req : Request) (x : Exchange)
    (w : World) : Prop :=
  (x.clientErr = none ∧ At cfg env (.waiting c req) w ∧ ∀ resp,
    x.resp = some resp → Received w.trace resp) ∨
  (x.clientErr ≠ none ∧ At cfg env (.cut req) w ∧
    (x.requestErr ≠ none ↔ UploadsBeside req ∧ ∃ werr, env.upload w.trace = .done (some werr)))

theorem joinUpload_at {x : ReadResult} (hb : UploadsBeside req)
    (h : ReadThrough cfg env c req x w) :
    ExchangeJoined cfg env c req (joinUpload x (env.upload w.trace)) w := by
  rcases h with ⟨hc, h, hr⟩ | ⟨hc, hr, h⟩
  · refine .inl ⟨?_, h, fun resp hresp => ?_⟩
    · rcases env.upload w.trace with (_ | werr) | (_ | werr) <;> simp only [joinUpload, hc]
      cases x.resp <;> rfl
    · obtain ⟨r, close, hx, rfl⟩ := joinUpload_received hresp
      exact ⟨c, r, close, hr r hx, rfl⟩
  · refine .inr ?_
    rcases hu : env.upload w.trace with (_ | werr) | (_ | werr) <;> simp [joinUpload, hr, hc, h, hb]

theorem exchangeRequest_at {raw r : Request} (hv : verdict cfg raw = .proceed r)
    (hm : r.method ≠ methodConnect) (ho : Outbound cfg r req) (h : At cfg env (.held raw) w) :
    WP (exchangeRequest env c req reader) w fun x w' => ExchangeJoined cfg env c req x w' := by
  refine WP.ite (fun hn => ?_) fun hn => ?_
  · refine WP.bind_iff.mpr ((writeRequest_at hv ho h).mono fun err w' h' => ?_)
    cases err with
    | some werr => exact .inl ⟨rfl, h', fun _ h => (nomatch h)⟩
    | none =>
      refine WP.bind_iff.mpr ((readFinal_at h').mono fun x w'' h'' => ?_)
      rcases h'' with ⟨hc, h'', hr⟩ | ⟨hc, -, h''⟩
      · exact .inl ⟨hc, h'', fun resp hx => ⟨c, resp, resp.close, hr resp hx, rfl⟩⟩
      · refine .inr ⟨hc, h'', fun hq => absurd rfl hq, fun ⟨hb, _⟩ => ?_⟩
        exact absurd hb.2.2 (by rw [hn.resolve_left hb.2.1]; exact Bool.false_ne_true)
  · refine WP.bind_iff.mpr ((writeRequest_at hv ho h).mono fun _ w' h' => ?_)
    refine WP.bind_iff.mpr ((readFinal_at h').mono fun x w'' h'' => ?_)
    have hb : UploadsBeside req := by
      rw [not_or, Bool.not_eq_false] at hn
      exact ⟨ho.method ▸ hm, hn⟩
    exact WP.bind_iff.mpr (ask_iff.mpr (joinUpload_at hb h''))

/-! ## Relays -/

/-- After a relay the session reads again, or is done. -/
structure Relayed (cfg : Config) (env : Env) (goesOn : Bool) (w : World) : Prop where
  goesOn : goesOn = true → At cfg env (.ready false) w
  somewhere : Somewhere cfg env w

/-- The session does not go on. -/
theorem Path.relayed {st : Stage} (h : At cfg env st w) (hr : st.Rests env w.trace) :
    Relayed cfg env false w :=
  ⟨fun h => (nomatch h), h.somewhere hr⟩

theorem writeResponse_at {resp : Response} (h : At cfg env (.waiting c req) w)
    (hr : Received w.trace resp) : WP (writeResponse env c resp) w fun x w' =>
      (x.1 = none → connectionWillClose req x.2 = false → At cfg env (.ready false) w') ∧
        Somewhere cfg env w' := by
  refine WP.bind_iff.mpr (ask_iff.mpr (WP.bind_iff.mpr (WP.get_iff.mpr (WP.bind_iff.mpr (WP.modify_iff.mpr ?_)))))
  have hsent : Received w.trace (if env.ctxDone w.trace then { resp with close := true } else resp) := by
    obtain ⟨c', r, close, hr, rfl⟩ := hr
    split
    · exact ⟨c', r, true, hr, rfl⟩
    · exact ⟨c', r, close, hr, rfl⟩
  refine WP.bind_iff.mpr ((writeClient_trace _).mono fun err w' ht => WP.pure_iff.mpr ⟨fun he hk => ?_, ?_⟩)
  · have he : err = none := he
    subst he
    exact h.next ht (.kept hsent hk)
  · exact (h.next ht (.closed hsent)).somewhere trivial

theorem finishRelay_at {x : Exchange} {onErr : RespErr → Prog Unit}
    (he : ∀ e w, At cfg env (.waiting c req) w → WP (onErr e) w fun _ w' => Somewhere cfg env w')
    (h : ExchangeJoined cfg env c req x w) :
    WP (finishRelay env c req x onErr) w fun b w' => Relayed cfg env b w' := by
  refine WP.ite (fun hq => ?_) fun hq => ?_
  · have hends : WP (writeHTTPError env errConnectionTerminated) w fun _ w' => Somewhere cfg env w' := by
      rcases h with ⟨-, h, -⟩ | ⟨-, h, hu⟩
      · exact writeHTTPError_ends h fun _ => .unanswered
      · obtain ⟨hb, werr, hu⟩ := hu.mp hq
        exact writeHTTPError_ends h fun _ => .cutAnswered hb hu
    exact WP.bind_iff.mpr (hends.mono fun _ _ h' => ⟨fun h => (nomatch h), h'⟩)
  · rcases h with ⟨hc, h, hr⟩ | ⟨hc, h, hu⟩
    · refine WP.ite (fun _ => h.relayed trivial) fun _ => ?_
      split
      · exact WP.bind_iff.mpr ((he _ _ h).mono fun _ _ h' => ⟨fun h => (nomatch h), h'⟩)
      · exact h.relayed trivial
      · rename_i resp _ hresp
        refine WP.bind_iff.mpr ((writeResponse_at h (hr resp hresp)).mono fun y w' h' => ?_)
        refine WP.ite (fun _ => ⟨fun h => (nomatch h), h'.2⟩) fun hn => WP.pure_iff.mpr ⟨fun hk => ?_, h'.2⟩
        exact h'.1 (not_not.mp hn) (by simpa using hk)
    · refine WP.ite (fun _ => h.relayed fun hb werr hw => ?_) fun hn => absurd hc hn
      exact hq (hu.mpr ⟨hb, werr, hw⟩)

end

section

variable {raw r : Request} {w : World} (hv : verdict cfg raw = .proceed r)
include hv

theorem relayDirect_at {c : ConnId} {req : Request} (hm : r.method ≠ methodConnect)
    (ho : Outbound cfg r req) (h : At cfg env (.held raw) w) :
    WP (relayDirect cfg env c req) w fun b w' => Relayed cfg env b w' :=
  WP.bind_iff.mpr ((exchangeRequest_at hv hm ho h).mono fun _ _ h' => finishRelay_at (fun _ _ h'' => h''.somewhere trivial) h')

/-- The connection of a relay: the request gets a token if the connection is new. -/
theorem upstreamConn_at {id : Str} (h : At cfg env (.held raw) w) :
    WP (upstreamConn env (forwarded cfg id r)) w fun o w' => match o with
      | some (_, req) => At cfg env (.held raw) w' ∧ Outbound cfg r (withVia cfg req)
      | none => Somewhere cfg env w' := by
  refine WP.bind_iff.mpr (WP.get_iff.mpr ?_)
  split
  · exact ⟨h, .reused id⟩
  · refine (dialAndAuthUpstream_at hv h).mono fun o w' h' => ?_
    match o with
    | none => exact h'
    | some (c, req) =>
      obtain ⟨h', token, rfl⟩ := h'
      exact ⟨h', .first id token⟩

theorem relayViaUpstream_at (hm : r.method ≠ methodConnect) (h : At cfg env (.held raw) w) :
    WP (relayViaUpstream cfg env r) w fun b w' => Relayed cfg env b w' := by
  refine WP.bind_iff.mpr (ask_iff.mpr (WP.bind_iff.mpr ((upstreamConn_at hv h).mono fun o w' h' => ?_)))
  match o with
  | none => exact ⟨fun h => (nomatch h), h'⟩
  | some (c, req) =>
    obtain ⟨h', ho⟩ := h'
    refine WP.bind_iff.mpr (WP.modify_iff.mpr ?_)
    have hk : At cfg env (.held raw) { w' with proxyConn := some c } := h'
    refine WP.bind_iff.mpr ((exchangeRequest_at hv hm ho hk).mono fun x w'' h'' => finishRelay_at (fun e w₁ h₁ => ?_) h'')
    exact writeHTTPError_ends h₁ fun _ => .unanswered

end

/-! ## Tunnels -/

theorem forwardTunnel_at {c : ConnId} {w : World} (steps : List TunnelStep)
    (h : At cfg env .tunnel w) :
    WP (forwardTunnel env c steps) w fun _ w' => Somewhere cfg env w' := by
  induction steps generalizing w with
  | nil => exact h.somewhere trivial
  | cons s steps ih =>
    cases s with
    | up bs => exact WP.bind_iff.mpr (emit_iff.mpr (ih (h.snoc .up)))
    | down bs => exact WP.bind_iff.mpr ((writeClient_trace w).mono fun _ _ ht => ih (h.next ht .down))

/-- The `200` of a tunnel, and then its bytes. -/
theorem tunnel_at {c : ConnId} {st : Stage} {resp : Response} {w : World} (h : At cfg env st w)
    (ho : st.Step cfg env w.trace (.wrote (.connectOK resp) none) .tunnel)
    (hf : ∀ e, st.Step cfg env w.trace (.wrote (.connectOK resp) (some e)) .over) :
    WP (writeClient env (.connectOK resp)) w fun err w' =>
      WP (if err = none then (ask env.tunnel >>= fun steps => forwardTunnel env c steps) else pure ()) w'
        fun _ w'' => Somewhere cfg env w'' := by
  refine (writeClient_trace w).mono fun err w' ht => ?_
  cases err with
  | none => exact WP.ite (fun _ => WP.bind_iff.mpr (ask_iff.mpr (forwardTunnel_at _ (h.next ht ho)))) fun hn => absurd rfl hn
  | some e => exact WP.ite (fun hn => (nomatch hn)) fun _ => (h.next ht (hf e)).somewhere trivial

theorem handleConnectTunnel_at {c : ConnId} {req : Request} {w : World}
    (hm : req.method = methodConnect) (h : At cfg env (.waiting c req) w) :
    WP (handleConnectTunnel cfg env c req) w fun _ w' => Somewhere cfg env w' := by
  refine WP.bind_iff.mpr ((readFinal_at h).mono fun x w' h' => ?_)
  rcases h' with ⟨hc, h', hr⟩ | ⟨hc, -, h'⟩
  · refine WP.ite (fun _ => h'.somewhere trivial) fun _ => ?_
    split
    · exact writeHTTPError_ends h' fun _ => .unanswered
    · exact h'.somewhere trivial
    · rename_i resp _ hresp
      refine WP.ite (fun _ => ?_) fun _ => WP.bind_iff.mpr (tunnel_at h' .established fun _ => .establishFailed)
      refine WP.bind_iff.mpr (WP.get_iff.mpr (WP.bind_iff.mpr ((writeClient_trace w').mono fun _ _ ht => ?_)))
      exact (h'.next ht (.closed ⟨c, resp, resp.close, hr resp hresp, rfl⟩)).somewhere trivial
  · exact WP.ite (fun _ => h'.somewhere fun hb => absurd hm hb.1) fun hn => absurd hc hn

section

variable {raw r : Request} {w : World} (hv : verdict cfg raw = .proceed r)
include hv

theorem tunnelViaUpstream_at (hm : r.method = methodConnect) (h : At cfg env (.held raw) w) :
    WP (tunnelViaUpstream cfg env r) w fun _ w' => Somewhere cfg env w' := by
  refine WP.bind_iff.mpr (ask_iff.mpr (WP.bind_iff.mpr ((dialAndAuthUpstream_at hv h).mono fun o w' h' => ?_)))
  match o with
  | none => exact h'
  | some (c, req) =>
    obtain ⟨h', token, rfl⟩ := h'
    refine WP.bind_iff.mpr (WP.bind_iff.mpr ((writeRequest_at hv (.first _ token) h').mono fun err w'' h'' => ?_))
    refine WP.ite (fun _ => ?_) fun _ => handleConnectTunnel_at hm h''
    exact writeHTTPError_ends h'' fun _ => .unanswered

theorem tunnelDirect_at (h : At cfg env (.held raw) w) :
    WP (tunnelDirect cfg env r) w fun _ w' => Somewhere cfg env w' := by
  refine WP.bind_iff.mpr ((dial_at hv h).mono fun x w' h' => ?_)
  cases x with
  | error derr => exact fail_ends h'
  | ok c => exact WP.bind_iff.mpr (tunnel_at h' (.connected hv) fun _ => .connectFailed hv)

end

/-! ## The loops -/

theorem nextDirectRequest_at {host : Str} {w : World} (h : At cfg env (.ready false) w) :
    WP (nextDirectRequest cfg env host) w fun x w' => match x with
      | .stop => Somewhere cfg env w'
      | .reroute raw => At cfg env (.held raw) w'
      | .relay req => ∃ raw r, verdict cfg raw = .proceed r ∧ r.method ≠ methodConnect ∧ Outbound cfg r req ∧
        At cfg env (.held raw) w' := by
  refine WP.bind_iff.mpr ((readRequest_trace w).mono fun x w₁ ht => ?_)
  cases x with
  | error err => exact (h.next ht (.readFailed fun hf => (nomatch hf.1))).somewhere trivial
  | ok raw =>
    have h₁ := h.next ht .read
    refine WP.ite (fun _ => h₁) fun _ => WP.bind_iff.mpr ((validateRequest_at h₁).mono fun v w₂ h₂ => ?_)
    rcases h₂ with ⟨rfl, h₂⟩ | ⟨hv, h₂⟩
    · exact h₂.somewhere trivial
    · cases v with
      | answered => exact h₂.somewhere trivial
      | reject pe => exact WP.bind_iff.mpr (writeHTTPError_ends h₂ fun _ => .rejected hv)
      | proceed r =>
        refine WP.ite (fun hm => ?_) fun hm => ⟨raw, r, hv, hm, .direct, h₂⟩
        exact WP.bind_iff.mpr (writeHTTPError_ends h₂ fun _ => .mismatched hv hm)

/-- A loop that returns a request has read it, and not answered it. -/
abbrev Returned (cfg : Config) (env : Env) (o : Option Request) (w : World) : Prop :=
  match o with
  | some raw => At cfg env (.held raw) w
  | none => Somewhere cfg env w

theorem directLoop_at {c : ConnId} {host : Str} {raw r req : Request} {w : World} (n : Nat)
    (hv : verdict cfg raw = .proceed r) (hm : r.method ≠ methodConnect) (ho : Outbound cfg r req)
    (h : At cfg env (.held raw) w) :
    WP (directLoop cfg env c host n req) w fun o w' => Returned cfg env o w' := by
  induction n generalizing raw r req w with
  | zero => exact h.somewhere trivial
  | succ n ih =>
    refine WP.bind_iff.mpr ((relayDirect_at hv hm ho h).mono fun b w₁ h₁ => ?_)
    cases b with
    | false => exact h₁.somewhere
    | true =>
      refine WP.bind_iff.mpr ((nextDirectRequest_at (h₁.goesOn rfl)).mono fun x w₂ h₂ => ?_)
      cases x with
      | stop => exact h₂
      | reroute raw => exact h₂
      | relay req =>
        obtain ⟨raw, r, hv, hm, ho, h₂⟩ := h₂
        exact ih hv hm ho h₂

section

variable {raw r : Request} {w : World} (hv : verdict cfg raw = .proceed r)
include hv

theorem forwardDirect_at (n : Nat) (hm : r.method ≠ methodConnect) (h : At cfg env (.held raw) w) :
    WP (forwardDirect cfg env n (withVia cfg r)) w fun o w' => Returned cfg env o w' := by
  refine WP.bind_iff.mpr ((dial_at hv h).mono fun x w' h' => ?_)
  cases x with
  | error derr => exact WP.bind_iff.mpr (fail_ends h')
  | ok c => exact directLoop_at n hv hm .direct h'

/-- After a request was routed: the one to route again, or the next read. -/
theorem routeRequest_at (n : Nat) (h : At cfg env (.held raw) w) :
    WP (routeRequest cfg env n r) w fun x w' =>
      (x.2 = true → match x.1 with
        | some raw => At cfg env (.held raw) w'
        | none => At cfg env (.ready false) w') ∧ Somewhere cfg env w' := by
  refine WP.ite (fun _ => ?_) fun _ => ?_
  · refine WP.ite (fun _ => ?_) fun hm => ?_
    · exact WP.bind_iff.mpr ((tunnelDirect_at hv h).mono fun _ _ h' => ⟨fun hn => (nomatch hn), h'⟩)
    · refine WP.bind_iff.mpr ((forwardDirect_at hv n hm h).mono fun o w' h' => ?_)
      cases o with
      | none => exact ⟨fun hn => (nomatch hn), h'⟩
      | some raw => exact ⟨fun _ => h', h'.somewhere trivial⟩
  · refine WP.ite (fun hm => ?_) fun hm => ?_
    · exact WP.bind_iff.mpr ((tunnelViaUpstream_at hv hm h).mono fun _ _ h' => ⟨fun hn => (nomatch hn), h'⟩)
    · exact WP.bind_iff.mpr ((relayViaUpstream_at hv hm h).mono fun _ _ h' => ⟨h'.goesOn, h'.somewhere⟩)

end

/-- The request of an iteration was read, now or in a direct loop. -/
theorem takeRequest_at {pending : Option Request} {iter : Nat} {w : World} (h : match pending with
      | some raw => At cfg env (.held raw) w
      | none => At cfg env (.ready (iter = 0)) w) :
    WP (takeRequest env pending iter) w fun o w' => Returned cfg env o w' := by
  cases pending with
  | some raw => exact h
  | none => exact readNextRequest_at h

theorem runLoop_at {pending : Option Request} {iter : Nat} {w : World} (n : Nat)
    (h : match pending with
      | some raw => At cfg env (.held raw) w
      | none => At cfg env (.ready (iter = 0)) w) :
    WP (runLoop cfg env n pending iter) w fun _ w' => Somewhere cfg env w' := by
  induction n generalizing pending iter w with
  | zero => cases pending <;> exact h.somewhere trivial
  | succ n ih =>
    refine WP.bind_iff.mpr ((takeRequest_at h).mono fun o w₁ h₁ => ?_)
    cases o with
    | none => exact h₁
    | some raw =>
      refine WP.bind_iff.mpr ((validateRequest_at h₁).mono fun v w₂ h₂ => ?_)
      rcases h₂ with ⟨rfl, h₂⟩ | ⟨hv, h₂⟩
      · exact h₂.somewhere trivial
      · cases v with
        | answered => exact h₂.somewhere trivial
        | reject pe => exact writeHTTPError_ends h₂ fun _ => .rejected hv
        | proceed r =>
          refine WP.bind_iff.mpr ((routeRequest_at hv n h₂).mono fun x w₃ h₃ => ?_)
          obtain ⟨next, cont⟩ := x
          refine WP.ite (fun hc => ih ?_) fun _ => h₃.2
          have h₃ := h₃.1 hc
          cases next with
          | some raw => exact h₃
          | none => exact h₃

end

/-- The trace of every run is a path to a stage at which a session may end. -/
theorem run_path (cfg : Config) (env : Env) (n : Nat) :
    ∃ st, Path cfg env (run cfg env n).trace st ∧ st.Rests env (run cfg env n).trace :=
  show WP (runLoop cfg env n none 0) .init fun _ w => Somewhere cfg env w from runLoop_at n .start

end SP.Proof
