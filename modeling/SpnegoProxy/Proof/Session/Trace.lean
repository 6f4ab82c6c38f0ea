import SpnegoProxy.Framework.Wp
import SpnegoProxy.Impl.Session
import SpnegoProxy.Proof.Headers

/-!
# What each part of a session adds to the trace

Every part of a session that neither dials nor writes a request moves the
world as its events do: for each there is a lemma that it stays within a
preorder `R` on worlds if the events it can add do. `Ext P` is such an `R`:
the session only added events that satisfy `P`, and kept its upstream
connection and the count of connections.
-/

namespace SP.Proof

open SP.Go SP.Impl

/-- `w'` is `w` with events of `P` added; `proxyConn` and `conns` are the same. -/
structure Ext (P : Event → Prop) (w w' : World) : Prop where
  trace : ∃ es, w'.trace = w.trace ++ es ∧ ∀ e ∈ es, P e
  proxyConn : w'.proxyConn = w.proxyConn
  conns : w'.conns = w.conns

namespace Ext

variable {P : Event → Prop}

theorem rfl' (w : World) : Ext P w w := ⟨⟨[], (List.append_nil _).symm, by simp⟩, rfl, rfl⟩

theorem trans {w w' w'' : World} (h : Ext P w w') (h' : Ext P w' w'') : Ext P w w'' := by
  obtain ⟨⟨es, ht, hp⟩, hc, hn⟩ := h
  obtain ⟨⟨es', ht', hp'⟩, hc', hn'⟩ := h'
  refine ⟨⟨es ++ es',
    by rw [ht', ht, List.append_assoc], fun e he => ?_⟩, hc'.trans hc, hn'.trans hn⟩
  rcases List.mem_append.mp he with he | he
  · exact hp e he
  · exact hp' e he

instance : Std.Refl (Ext P) := ⟨rfl'⟩
instance : IsTrans World (Ext P) := ⟨fun _ _ _ => trans⟩

theorem mem {w w' : World} (h : Ext P w w') {e : Event} (he : e ∈ w.trace) : e ∈ w'.trace := by
  obtain ⟨⟨es, ht, -⟩, -, -⟩ := h
  rw [ht]; exact List.mem_append_left _ he

end Ext

theorem emit_iff {e : Event} {w : World} {Q : Unit → World → Prop} :
    WP (emit e) w Q ↔ Q () { w with trace := w.trace ++ [e] } := Iff.rfl

theorem ask_iff {α : Type} {f : List Event → α} {w : World} {Q : α → World → Prop} :
    WP (ask f) w Q ↔ Q (f w.trace) w := Iff.rfl

theorem emit_moves {P : Event → Prop} {e : Event} (h : P e) : Moves (Ext P) (emit e) := fun w =>
  ⟨⟨[e], rfl, by simpa using h⟩, rfl, rfl⟩

/-- Reading off a connection adds no event. -/
theorem setInbox_moves {P : Event → Prop} (f : World → ConnId → List Wire) :
    Moves (Ext P) (modify fun w => { w with inbox := f w }) := fun w =>
  ⟨⟨[], (List.append_nil _).symm, by simp⟩, rfl, rfl⟩

/-- What `R` lets a program do to the queues of the connections. -/
abbrev FreeInbox (R : World → World → Prop) : Prop :=
  ∀ f : World → ConnId → List Wire, Moves R (modify fun w => { w with inbox := f w })

section

variable (cfg : Config) (env : Env) {R : World → World → Prop} [Std.Refl R] [IsTrans World R]

omit [IsTrans World R] in
theorem ask_moves {α : Type} (f : List Event → α) : Moves R (ask f) := fun w => refl_of R w

theorem writeClient_moves {m : ClientMsg} (hw : ∀ err, Moves R (emit (.wrote m err))) :
    Moves R (writeClient env m) :=
  (ask_moves _).bind fun err => (hw err).bind fun _ => .pure _

theorem writeHTTPError_moves {pe : ProxyError}
    (hw : ∀ err, Moves R (emit (.wrote (.error pe) err))) : Moves R (writeHTTPError env pe) :=
  (writeClient_moves env hw).bind fun _ => .pure _

theorem readRequest_moves (hr : ∀ r, Moves R (emit (.read r))) : Moves R (readRequest env) :=
  (ask_moves _).bind fun r => (hr r).bind fun _ => .pure _

theorem forwardTunnel_moves {c : ConnId} (hp : ∀ bs, Moves R (emit (.payload c bs)))
    (hw : ∀ bs err, Moves R (emit (.wrote (.data bs) err))) :
    ∀ steps, Moves R (forwardTunnel env c steps)
  | [] => .pure _
  | .up bs :: steps => (hp bs).bind fun _ => forwardTunnel_moves hp hw steps
  | .down _ :: steps => (writeClient_moves env (hw _)).bind fun _ => forwardTunnel_moves hp hw steps

section

variable (hw : ∀ m err, Moves R (emit (.wrote m err))) (hi : FreeInbox R)
include hw

theorem relayInterimResponse_moves (req : Request) (resp : Response) :
    Moves R (relayInterimResponse env req resp) :=
  .ite (fun _ => .pure _) fun _ => writeClient_moves env (hw _)

theorem readThroughInterim_moves {req : Request} {one : Prog (Except RespErr Response)}
    (ho : Moves R one) : ∀ n, Moves R (readThroughInterim env req one n)
  | 0 => .pure _
  | n + 1 => by
    refine ho.bind fun r => ?_
    cases r with
    | error err => exact .pure _
    | ok resp =>
      refine .ite (fun _ => .pure _) fun _ => .ite (fun _ => .pure _) fun _ => ?_
      refine (relayInterimResponse_moves env hw req resp).bind fun e => ?_
      cases e with
      | some werr => exact .pure _
      | none => exact readThroughInterim_moves ho n

include hi

theorem writeResponse_moves (c : ConnId) (resp : Response) : Moves R (writeResponse env c resp) :=
  (ask_moves _).bind fun _ => Moves.get.bind fun _ => (hi _).bind fun _ =>
    (writeClient_moves env (hw _)).bind fun _ => .pure _

theorem finishRelay_moves (c : ConnId) (req : Request) (x : Exchange) {onErr : RespErr → Prog Unit}
    (he : ∀ e, Moves R (onErr e)) : Moves R (finishRelay env c req x onErr) := by
  refine .ite (fun _ => (writeHTTPError_moves env (hw _)).bind fun _ => .pure _) fun _ => ?_
  refine .ite (fun _ => .pure _) fun _ => ?_
  split
  · exact (he _).bind fun _ => .pure _
  · exact .pure _
  · refine (writeResponse_moves env hw hi c _).bind fun r => ?_
    exact .ite (fun _ => .pure _) fun _ => .pure _

variable (hr : ∀ c r, Moves R (emit (.recv c r)))
include hr

theorem readFinal_moves (c : ConnId) (req : Request)
    (reader : List Wire → Except RespErr Response × List Wire) :
    Moves R (readFinal env c req reader) := by
  refine Moves.get.bind fun _ => readThroughInterim_moves env hw ?_ _
  refine Moves.get.bind fun w => (hi _).bind fun _ => ?_
  split
  · exact (hr _ _).bind fun _ => .pure _
  · exact .pure _

theorem handleConnectTunnel_moves (hp : ∀ c bs, Moves R (emit (.payload c bs))) (c : ConnId)
    (req : Request) : Moves R (handleConnectTunnel cfg env c req) := by
  refine (readFinal_moves env hw hi hr c req _).bind fun r => .ite (fun _ => .pure _) fun _ => ?_
  split
  · exact writeHTTPError_moves env (hw _)
  · exact .pure _
  · refine .ite (fun _ => Moves.get.bind fun _ => (writeClient_moves env (hw _)).bind fun _ => .pure _) fun _ => ?_
    exact (writeClient_moves env (hw _)).bind fun _ =>
      .ite (fun _ => (ask_moves _).bind fun _ => forwardTunnel_moves env (hp c) (fun _ => hw _) _)
        fun _ => .pure _

end

/-- A request that passes is forwarded, before the route's own fields, with
`Max-Forwards` decremented and hop-by-hop fields removed. -/
theorem verdict_proceed {req r : Request} (h : verdict cfg req = .proceed r) :
    ∃ r₀, applyMaxForwards req = some r₀ ∧ r = sanitizeHopByHop r₀ := by
  simp only [verdict] at h
  split at h
  · cases h
  · split at h
    · cases h
    · cases hmf : applyMaxForwards req with
      | none => rw [hmf] at h; cases h
      | some r₀ => rw [hmf] at h; cases h; exact ⟨r₀, rfl, rfl⟩

/-- `validateRequest` adds at most its local answer. -/
theorem validateRequest_ok (hm : ∀ m err, Moves R (emit (.wrote (.maxForwards m) err)))
    (req : Request) (w : World) : WP (validateRequest cfg env req) w fun v w' =>
      R w w' ∧ ∀ r, v = .proceed r → verdict cfg req = .proceed r := by
  unfold validateRequest
  cases verdict cfg req with
  | proceed r => exact ⟨refl_of R w, fun _ h => h⟩
  | reject pe => exact ⟨refl_of R w, fun _ h => h⟩
  | answered => exact ⟨writeClient_moves env (hm _) w, fun _ h => h⟩

theorem readNextRequest_ok (hr : ∀ r, Moves R (emit (.read r)))
    (hw : ∀ pe err, Moves R (emit (.wrote (.error pe) err))) (iter : Nat) (w : World) :
    WP (readNextRequest env iter) w fun o w' => R w w' ∧ ∀ r, o = some r → .read (.ok r) ∈ w'.trace := by
  unfold readNextRequest
  refine WP.bind_iff.mpr ?_
  have hm := readRequest_moves env hr w
  have hmem : WP (readRequest env) w fun r w' => .read r ∈ w'.trace :=
    List.mem_append_right _ (List.mem_singleton_self _)
  refine (hm.and hmem).mono fun r w' ⟨h, hin⟩ => ?_
  cases r with
  | ok req => exact ⟨h, fun r hr => by cases hr; exact hin⟩
  | error err =>
    refine WP.ite (fun _ => ⟨h, by simp⟩) fun _ => ?_
    refine WP.bind_iff.mpr ((writeHTTPError_moves env (hw _) w').mono fun _ w'' h' => ?_)
    exact ⟨IsTrans.trans _ _ _ h h', by simp⟩

end

/-! ## A scripted environment -/

/-- The number of requests that were read. -/
def readCount (tr : List Event) : Nat := tr.countP fun | .read _ => true | _ => false

/-- The environment of an undisturbed session: the client sends `reqs` in
order and closes, every dial and write succeeds, the token is `token`, and
every request is answered by `answer`. -/
def scripted (reqs : List Request) (token : Str) (answer : List Wire) : Env where
  readRequest tr := match reqs[readCount tr]? with
    | some r => .ok r
    | none => .error .eof
  getToken _ := .ok token
  dial _ _ := none
  writeRequest _ _ _ := none
  body _ _ := []
  answer _ _ _ := answer
  upload _ := .done none
  clientWrite _ _ := none
  ctxDone _ := false
  obfuscatedID _ := []
  tunnel _ := []

/-- A plain response over HTTP/1.1 with the status code `code`. -/
def plainResponse (code : Nat) : Response where
  status := []
  statusCode := code
  proto := str "HTTP/1.1"
  protoMajor := 1
  protoMinor := 1
  header := ⟨∅⟩
  close := false
  transferEncoding := []
  contentLength := 0

/-- A session without noproxy rules or forwarding fields. -/
def plainConfig : Config where
  pseudonym := str "px"
  clientAddr := str "10.0.0.1:5000"
  connectPorts := []
  noProxy := none
  forwarding := ⟨false, false⟩

/-- The request written out at position `i` of a trace. -/
def sentAt (tr : List Event) (i : Nat) : Option (ConnId × Request × List Wire) :=
  match tr[i]? with
  | some (.sent c req answer) => some (c, req, answer)
  | _ => none

/-- A trace splits at each of its events. -/
theorem split_of_getElem {tr : List Event} {i : Nat} {e : Event} (h : tr[i]? = some e) :
    tr = tr.take i ++ e :: tr.drop (i + 1) := by
  obtain ⟨hi, he⟩ := List.getElem?_eq_some_iff.mp h
  rw [← he, List.cons_getElem_drop_succ, List.take_append_drop]

theorem split_of_sentAt {tr : List Event} {i : Nat} {c : ConnId} {req : Request}
    {answer : List Wire} (h : sentAt tr i = some (c, req, answer)) :
    tr = tr.take i ++ .sent c req answer :: tr.drop (i + 1) := by
  simp only [sentAt] at h
  split at h
  · rename_i he
    cases h
    exact split_of_getElem he
  · cases h

/-- The message written at position `i` of a trace, and whether the write failed. -/
def wroteAt (tr : List Event) (i : Nat) : Option (ClientMsg × Option Str) :=
  match tr[i]? with
  | some (.wrote m err) => some (m, err)
  | _ => none

theorem split_of_wroteAt {tr : List Event} {i : Nat} {m : ClientMsg} {err : Option Str}
    (h : wroteAt tr i = some (m, err)) : tr = tr.take i ++ .wrote m err :: tr.drop (i + 1) := by
  simp only [wroteAt] at h
  split at h
  · rename_i he
    cases h
    exact split_of_getElem he
  · cases h

/-- The final response at position `i` of a trace. -/
def finalAt (tr : List Event) (i : Nat) : Option (Response × Str × Option Str) :=
  match wroteAt tr i with
  | some (.final resp body, err) => some (resp, body, err)
  | _ => none

theorem split_of_finalAt {tr : List Event} {i : Nat} {resp : Response} {body : Str}
    {err : Option Str} (h : finalAt tr i = some (resp, body, err)) :
    tr = tr.take i ++ .wrote (.final resp body) err :: tr.drop (i + 1) := by
  simp only [finalAt] at h
  split at h
  · rename_i hw
    cases h
    exact split_of_wroteAt hw
  · cases h

/-- Every request read has a property that can be decided. -/
theorem read_of_all {tr : List Event} {P : Request → Prop} [DecidablePred P]
    (h : (tr.all fun | .read (.ok r) => P r | _ => true) = true) {r : Request}
    (hr : .read (.ok r) ∈ tr) : P r := by
  simpa using List.all_eq_true.mp h _ hr

end SP.Proof
