import SpnegoProxy.Proof.Session.Trace
import SpnegoProxy.Spec.Pairing
import Mathlib.Data.List.ModifyLast

/-!
# Every response goes to its request

Between two exchanges nothing is left to read on any connection (`Idle`), and
every request so far got its whole reply. An exchange that ends so that the
session goes on has read its reply to the end, so that this holds again; one
that ends otherwise was the last one. The interim responses are read by a
loop: `readThroughInterim_ok` says what it has written when it stops.
-/

namespace SP.Proof

open SP.Go SP.Impl SP.Spec

/-! ## Responses in a trace -/

/-- The response of the next hop that an event writes to the client. -/
def msgOf : Event → Option ClientMsg
  | .wrote m _ => if isResponse m then some m else none
  | _ => none

/-- The event writes a request out. -/
def isSent : Event → Bool
  | .sent _ _ _ => true
  | _ => false

/-- From `w` to `w'` the session wrote the responses `ms` to the client, and
no request. -/
structure Writes (ms : List ClientMsg) (w w' : World) : Prop where
  trace : ∃ es, w'.trace = w.trace ++ es ∧ (∀ e ∈ es, isSent e = false) ∧ es.filterMap msgOf = ms
  proxyConn : w'.proxyConn = w.proxyConn

namespace Writes

variable {ms ms' : List ClientMsg} {w w' w'' : World}

/-- The trace is the same. -/
theorem of_eq (ht : w'.trace = w.trace) (hc : w'.proxyConn = w.proxyConn) : Writes [] w w' :=
  ⟨⟨[], by rw [ht, List.append_nil], by simp, rfl⟩, hc⟩

theorem trans (h : Writes ms w w') (h' : Writes ms' w' w'') : Writes (ms ++ ms') w w'' := by
  obtain ⟨⟨es, ht, hs, hm⟩, hc⟩ := h
  obtain ⟨⟨es', ht', hs', hm'⟩, hc'⟩ := h'
  refine ⟨⟨es ++ es', by rw [ht', ht, List.append_assoc], fun e he => ?_, ?_⟩, hc'.trans hc⟩
  · rcases List.mem_append.mp he with he | he
    · exact hs e he
    · exact hs' e he
  · rw [List.filterMap_append, hm, hm']

theorem mem (h : Writes ms w w') {e : Event} (he : e ∈ w.trace) : e ∈ w'.trace := by
  obtain ⟨⟨es, ht, -⟩, -⟩ := h
  rw [ht]; exact List.mem_append_left _ he

end Writes

theorem relays_snoc (tr : List Event) (e : Event) : relays (tr ++ [e]) = relaysStep (relays tr) e := by
  rw [relays, List.foldl_append]; rfl

/-- Responses are added to the last request. -/
theorem foldl_relaysStep {es : List Event} (hs : ∀ e ∈ es, isSent e = false) (xs : List Relay)
    (x : Relay) :
    es.foldl relaysStep (xs ++ [x]) = xs ++ [{ x with msgs := x.msgs ++ es.filterMap msgOf }] := by
  induction es generalizing x with
  | nil => simp
  | cons e es ih =>
    have hs' : ∀ e ∈ es, isSent e = false := fun e he => hs e (List.mem_cons_of_mem _ he)
    rw [List.foldl_cons]
    cases e with
    | wrote m err =>
      by_cases hm : isResponse m = true
      · have hstep : relaysStep (xs ++ [x]) (.wrote m err) = xs ++ [{ x with msgs := x.msgs ++ [m] }] := by
          simp only [relaysStep, hm, if_true, List.modifyLast_concat]
        rw [hstep, ih hs', List.filterMap_cons, msgOf, if_pos hm]
        simp
      · have hstep : relaysStep (xs ++ [x]) (.wrote m err) = xs ++ [x] := by
          simp only [relaysStep, hm, if_false, Bool.false_eq_true]
        rw [hstep, ih hs', List.filterMap_cons, msgOf, if_neg hm]
    | sent c req answer => exact absurd (hs _ List.mem_cons_self) (by simp [isSent])
    | _ => exact ih hs' x

theorem foldl_relaysStep_none {es : List Event} (hs : ∀ e ∈ es, isSent e = false)
    (hm : es.filterMap msgOf = []) (xs : List Relay) : es.foldl relaysStep xs = xs := by
  rcases List.eq_nil_or_concat xs with rfl | ⟨ys, x, rfl⟩
  · clear hm
    induction es with
    | nil => rfl
    | cons e es ih =>
      have hstep : relaysStep [] e = [] := by
        cases e with
        | wrote m err => simp only [relaysStep, List.modifyLast, List.modifyLast.go, ite_self]
        | sent c req answer => exact absurd (hs _ List.mem_cons_self) (by simp [isSent])
        | _ => rfl
      rw [List.foldl_cons, hstep]
      exact ih fun e he => hs e (List.mem_cons_of_mem _ he)
  · rw [List.concat_eq_append, foldl_relaysStep hs, hm, List.append_nil]

namespace Writes

variable {ms : List ClientMsg} {w w' : World}

theorem relays_last (h : Writes ms w w') {xs : List Relay} {x : Relay}
    (hx : relays w.trace = xs ++ [x]) :
    relays w'.trace = xs ++ [{ x with msgs := x.msgs ++ ms }] := by
  obtain ⟨⟨es, ht, hs, hm⟩, -⟩ := h
  rw [relays] at hx
  rw [ht, relays, List.foldl_append, hx, foldl_relaysStep hs, hm]

theorem relays_eq (h : Writes [] w w') : relays w'.trace = relays w.trace := by
  obtain ⟨⟨es, ht, hs, hm⟩, -⟩ := h
  rw [ht, relays, List.foldl_append, foldl_relaysStep_none hs hm]
  rfl

end Writes

/-- From `w` to `w'` the session wrote no request and no response of a next
hop, and read nothing off a connection. -/
structure Calm (w w' : World) : Prop where
  writes : Writes [] w w'
  inbox : w'.inbox = w.inbox

instance : Std.Refl Calm := ⟨fun _ => ⟨.of_eq rfl rfl, rfl⟩⟩
instance : IsTrans World Calm :=
  ⟨fun _ _ _ h h' => ⟨h.writes.trans h'.writes, h'.inbox.trans h.inbox⟩⟩

theorem emit_writes {e : Event} (hs : isSent e = false) (w : World) :
    WP (emit e) w fun _ w' => Writes (msgOf e).toList w w' ∧ w'.inbox = w.inbox := by
  refine ⟨⟨⟨[e], rfl, by simpa using hs, ?_⟩, rfl⟩, rfl⟩
  cases h : msgOf e <;> simp [h]

theorem emit_calm {e : Event} (hs : isSent e = false) (hm : msgOf e = none) : Moves Calm (emit e) :=
  fun w => (emit_writes hs w).mono fun _ _ ⟨hw, hi⟩ => by
    rw [hm] at hw
    exact ⟨hw, hi⟩

theorem writeClient_writes (env : Env) (m : ClientMsg) (w : World) :
    WP (writeClient env m) w fun _ w' =>
      Writes (if isResponse m then [m] else []) w w' ∧ w'.inbox = w.inbox := by
  refine WP.bind_iff.mpr (ask_iff.mpr (WP.bind_iff.mpr ?_))
  refine (emit_writes (e := .wrote m _) rfl w).mono fun _ w' ⟨hw, hi⟩ => ⟨?_, hi⟩
  rw [msgOf] at hw
  split at hw
  · rename_i h; rw [if_pos h]; exact hw
  · rename_i h; rw [if_neg h]; exact hw

/-! ## Reading a reply -/

section

variable (cfg : Config) (env : Env)

/-- The reader of responses for a connection dialled to `t`. -/
def readerFor : Target → List Wire → Except RespErr Response × List Wire
  | .upstream => readUpstreamResponse cfg.pseudonym
  | .direct _ _ => readDirectResponse cfg.pseudonym

theorem acceptUpstreamResponse_eq (r : Response) :
    acceptUpstreamResponse cfg.pseudonym r = rewrite cfg .upstream r := by
  simp only [acceptUpstreamResponse, rewrite, Bool.not_eq_true']
  by_cases hf : DoublyFramed r
  · rw [if_pos hf, cleaned, if_pos hf, if_pos hf]
  · rw [if_neg hf, cleaned, if_neg hf, if_neg hf]

theorem readerFor_head (t : Target) (r : Response) (ws : List Wire) :
    readerFor cfg t (.head r :: ws) = (rewrite cfg t r, ws) := by
  cases t with
  | direct _ _ => rfl
  | upstream => exact congrArg (·, ws) (acceptUpstreamResponse_eq cfg r)

/-- Rewriting keeps the status code, so it keeps what is interim. -/
theorem rewrite_interim {t : Target} {i r : Response} (h : rewrite cfg t i = .ok r) :
    isInterimResponse r = isInterimResponse i := by
  have hs : r.statusCode = i.statusCode := by
    cases t with
    | direct _ _ => cases h; rfl
    | upstream =>
      simp only [rewrite] at h
      split_ifs at h
      cases h
      rfl
  simp only [isInterimResponse, hs]

/-- Reading one response head. -/
theorem readOne_ok (c : ConnId) (t : Target) {i : Response} {ws : List Wire} {w : World}
    (hb : w.inbox c = .head i :: ws) :
    WP (readOne c (readerFor cfg t)) w fun x w' =>
      x = rewrite cfg t i ∧ Writes [] w w' ∧ w'.inbox = Function.update w.inbox c ws := by
  refine WP.bind_iff.mpr (WP.get_iff.mpr ?_)
  rw [hb, readerFor_head]
  refine WP.bind_iff.mpr (WP.modify_iff.mpr ?_)
  cases rewrite cfg t i with
  | error err => exact ⟨rfl, .of_eq rfl rfl, rfl⟩
  | ok r => exact ⟨rfl, ⟨⟨[.recv c r], rfl, by simp [isSent], rfl⟩, rfl⟩, rfl⟩

theorem interimMsgs_nil (req : Request) : interimMsgs req [] = [] := ite_self _

theorem interimMsgs_cons (req : Request) (r : Response) (rs : List Response) :
    interimMsgs req (r :: rs) = interimMsgs req [r] ++ interimMsgs req rs := by
  simp only [interimMsgs]
  split <;> rfl

theorem relayInterimResponse_ok (req : Request) (r : Response) (w : World) :
    WP (relayInterimResponse env req r) w fun _ w' =>
      Writes (interimMsgs req [r]) w w' ∧ w'.inbox = w.inbox := by
  refine WP.ite (fun h => ?_) fun h => ?_
  · have hp : req.protoAtLeast 1 1 = false := by simpa [clientCannotParseInterim] using h
    rw [interimMsgs, hp]
    exact ⟨.of_eq rfl rfl, rfl⟩
  · have hp : req.protoAtLeast 1 1 = true := by simpa [clientCannotParseInterim] using h
    rw [interimMsgs, hp]
    exact writeClient_writes env (.interim r) w

/-- Where the reads of a reply may have got to: through all interim responses
to the final one, or stopped by an error. -/
structure ReadTo (c : ConnId) (t : Target) (req : Request) (is : List Response) (f : Response)
    (ws : List Wire) (w : World) (x : ReadResult) (w' : World) : Prop where
  reached : ∃ k rs, Rewrites cfg t (is.take k) rs ∧ Writes (interimMsgs req rs) w w' ∧
    ((is.take k = is ∧ w'.inbox = Function.update w.inbox c ws ∧
        ∃ r, rewrite cfg t f = .ok r ∧ x = ⟨some r, none, none⟩) ∨
      (x.resp = none ∧ (x.clientErr ≠ none ∨ x.err ≠ none)))

/-- The loop over the interim responses, by induction on those still to come. -/
theorem readThroughInterim_ok (c : ConnId) (t : Target) (req : Request) {is : List Response}
    {f : Response}
    {ws : List Wire} {w : World} {n : Nat} (hi : ∀ r ∈ is, isInterimResponse r = true)
    (hf : isInterimResponse f = false) (hb : w.inbox c = is.map .head ++ .head f :: ws)
    (hn : is.length < n) :
    WP (readThroughInterim env req (readOne c (readerFor cfg t)) n) w (ReadTo cfg c t req is f ws w) := by
  induction is generalizing w n with
  | nil =>
    obtain ⟨n, rfl⟩ := Nat.exists_eq_add_of_lt hn
    refine WP.bind_iff.mpr ((readOne_ok cfg c t hb).mono fun x w₁ ⟨hx, hw, hib⟩ => ?_)
    cases x with
    | error err => exact ⟨0, [], .nil, (interimMsgs_nil req).symm ▸ hw, .inr ⟨rfl, .inr (by simp)⟩⟩
    | ok r =>
      have hr : isInterimResponse r = false := (rewrite_interim cfg hx.symm).trans hf
      refine WP.ite (fun _ => ?_) fun hn => absurd hr hn
      exact ⟨0, [], .nil, (interimMsgs_nil req).symm ▸ hw, .inl ⟨rfl, hib, r, hx.symm, rfl⟩⟩
  | cons i is ih =>
    obtain ⟨n, rfl⟩ : ∃ m, n = m + 1 := ⟨n - 1, by simp only [List.length_cons] at hn; omega⟩
    have hstop : ∀ {x : ReadResult} {w' : World}, Writes [] w w' → x.resp = none →
        (x.clientErr ≠ none ∨ x.err ≠ none) → ReadTo cfg c t req (i :: is) f ws w x w' :=
      fun hw hx he => ⟨0, [], .nil, (interimMsgs_nil req).symm ▸ hw, .inr ⟨hx, he⟩⟩
    refine WP.bind_iff.mpr ((readOne_ok cfg c t hb).mono fun x w₁ ⟨hx, hw, hib⟩ => ?_)
    cases x with
    | error err => exact hstop hw rfl (.inr (by simp))
    | ok r =>
      have hr : isInterimResponse r = true :=
        (rewrite_interim cfg hx.symm).trans (hi i List.mem_cons_self)
      refine WP.ite (fun hn => absurd hr (by simp [hn])) fun _ => ?_
      refine WP.ite (fun _ => hstop hw rfl (.inr (by simp))) fun _ => ?_
      refine WP.bind_iff.mpr ((relayInterimResponse_ok env req r w₁).mono fun e w₂ ⟨hw₂, hib₂⟩ => ?_)
      have hw₂ : Writes (interimMsgs req [r]) w w₂ := hw.trans hw₂
      cases e with
      | some werr => exact ⟨1, [r], .cons hx.symm .nil, hw₂, .inr ⟨rfl, .inl (by simp)⟩⟩
      | none =>
        have hib₂ : w₂.inbox = Function.update w.inbox c (is.map .head ++ .head f :: ws) :=
          hib₂.trans hib
        have hb₂ : w₂.inbox c = is.map .head ++ .head f :: ws := by rw [hib₂, Function.update_self]
        have hn₂ : is.length < n := by simp only [List.length_cons] at hn; omega
        refine (ih (fun r hr => hi r (List.mem_cons_of_mem _ hr)) hb₂ hn₂).mono fun x w₃ h₃ => ?_
        obtain ⟨k, rs, hrs, hw₃, hend⟩ := h₃
        refine ⟨k + 1, r :: rs, .cons hx.symm hrs, ?_, ?_⟩
        · rw [interimMsgs_cons]; exact hw₂.trans hw₃
        · refine hend.imp_left fun ⟨hk, hib₃, hfin⟩ => ⟨by rw [List.take_succ_cons, hk], ?_, hfin⟩
          rw [hib₃, hib₂, Function.update_idem]

/-! ## An exchange -/

/-- What holds between two exchanges. -/
structure Idle (w : World) : Prop where
  inbox : ∀ c, w.inbox c = []
  kept : ∀ c, w.proxyConn = some c → .dial c .upstream ∈ w.trace
  whole : ∀ x ∈ relays w.trace, ∃ t reply, .dial x.conn t ∈ w.trace ∧ x.answer = reply.wire ∧
    Whole cfg t reply x

variable {cfg env} in
theorem Idle.calm {w w' : World} (h : Idle cfg w) (hc : Calm w w') : Idle cfg w' := by
  refine ⟨fun c => by rw [hc.inbox]; exact h.inbox c, fun c hk => ?_, fun x hx => ?_⟩
  · exact hc.writes.mem (h.kept c (hc.writes.proxyConn.symm.trans hk))
  · rw [hc.writes.relays_eq] at hx
    obtain ⟨t, reply, hd, ha, hw⟩ := h.whole x hx
    exact ⟨t, reply, hc.writes.mem hd, ha, hw⟩

variable {cfg env} in
theorem Idle.paired {w : World} (h : Idle cfg w) : Paired cfg w.trace := fun k x hx => by
  obtain ⟨t, reply, hd, ha, hw⟩ := h.whole x (List.mem_of_getElem? hx)
  exact ⟨t, reply, hd, ha, .inl hw⟩

/-- From `w` to `w'` the session wrote `req` on `c`, whose reply is `reply`,
and then the responses `ms` to the client. -/
structure Exchanged (c : ConnId) (req : Request) (reply : Reply) (ms : List ClientMsg)
    (w w' : World) : Prop where
  relays : relays w'.trace = relays w.trace ++ [⟨c, req, reply.wire, ms⟩]
  mem : ∀ e ∈ w.trace, e ∈ w'.trace
  proxyConn : w'.proxyConn = w.proxyConn

theorem Exchanged.writes {c : ConnId} {req : Request} {reply : Reply} {ms ms' : List ClientMsg}
    {w w' w'' : World} (h : Exchanged c req reply ms w w') (h' : Writes ms' w' w'') :
    Exchanged c req reply (ms ++ ms') w w'' :=
  ⟨h'.relays_last h.relays, fun e he => h'.mem (h.mem e he), h'.proxyConn.trans h.proxyConn⟩

variable {cfg env} in
/-- The last request may have got a beginning of its reply only. -/
theorem Idle.exchanged {w w' : World} (h : Idle cfg w) {c : ConnId} {t : Target} {req : Request}
    {reply : Reply} {ms : List ClientMsg} (hd : .dial c t ∈ w.trace)
    (he : Exchanged c req reply ms w w')
    (hx : Whole cfg t reply ⟨c, req, reply.wire, ms⟩ ∨ Begun cfg t reply ⟨c, req, reply.wire, ms⟩) :
    Paired cfg w'.trace := by
  intro k x hk
  rw [he.relays] at hk ⊢
  by_cases hlt : k < (relays w.trace).length
  · rw [List.getElem?_append_left hlt] at hk
    obtain ⟨t', reply', hd', ha, hw⟩ := h.whole x (List.mem_of_getElem? hk)
    exact ⟨t', reply', he.mem _ hd', ha, .inl hw⟩
  · obtain ⟨hlen, -⟩ := List.getElem?_eq_some_iff.mp hk
    rw [List.length_append, List.length_singleton] at hlen
    have hlast : k = (relays w.trace).length := by omega
    rw [hlast, List.getElem?_concat_length] at hk
    cases hk
    refine ⟨t, reply, he.mem _ hd, rfl, hx.imp_right fun hx => ⟨?_, hx⟩⟩
    rw [hlast, List.length_append, List.length_singleton]

theorem writeRequest_pairs (hnext : Conforming env) (c : ConnId) (req : Request) {w : World}
    (hb : w.inbox c = []) : WP (writeRequest env c req) w fun _ w' =>
      ∃ reply, Exchanged c req reply [] w w' ∧ w'.inbox = Function.update w.inbox c reply.wire := by
  refine WP.bind_iff.mpr (ask_iff.mpr (WP.bind_iff.mpr (ask_iff.mpr (WP.bind_iff.mpr (ask_iff.mpr ?_)))))
  obtain ⟨reply, hreply⟩ := hnext c req w.trace
  refine WP.bind_iff.mpr (WP.modify_iff.mpr (WP.bind_iff.mpr (emit_iff.mpr ?_)))
  rw [hreply, hb, List.nil_append]
  have hx : Exchanged c req reply [] w { w with
      trace := w.trace ++ [.sent c req reply.wire], inbox :=
        Function.update w.inbox c reply.wire } :=
    ⟨relays_snoc _ _, fun e he => List.mem_append_left _ he, rfl⟩
  refine WP.ite (fun _ => ?_) fun _ => ⟨reply, hx, rfl⟩
  refine WP.bind_iff.mpr ((emit_writes (e := .payload c _) rfl _).mono fun _ w' ⟨hw, hi⟩ => ?_)
  exact ⟨reply, hx.writes hw, hi⟩

/-- How an exchange may end: with the final response, or with an error that
ends the session. -/
def Ends (c : ConnId) (t : Target) (req : Request) (w : World) (x : Exchange) (w' : World) : Prop :=
  ∃ reply k rs, Rewrites cfg t (reply.interims.take k) rs ∧
    Exchanged c req reply (interimMsgs req rs) w w' ∧
    ((reply.interims.take k = reply.interims ∧
        w'.inbox = Function.update w.inbox c (reply.chunks.map .data) ∧
        ∃ r close, rewrite cfg t reply.final = .ok r ∧
          x = ⟨some { r with close := r.close || close }, none, none, none⟩) ∨
      (x.requestErr ≠ none ∨ x.clientErr ≠ none ∨ x.err ≠ none))

/-- `y` is what an exchange makes of the reads' result `x`: the final response,
perhaps with `Close` set, or an error. -/
structure Joins (x : ReadResult) (y : Exchange) : Prop where
  final (r : Response) : x = ⟨some r, none, none⟩ →
    ∃ close, y = ⟨some { r with close := r.close || close }, none, none, none⟩
  error : x.resp = none → x.clientErr ≠ none ∨ x.err ≠ none →
    y.requestErr ≠ none ∨ y.clientErr ≠ none ∨ y.err ≠ none

theorem joins_plain (x : ReadResult) : Joins x ⟨x.resp, none, x.clientErr, x.err⟩ :=
  ⟨fun r hx => ⟨false, by simp [hx]⟩, fun _ he => .inr he⟩

theorem joins_joinUpload (x : ReadResult) (u : Upload) : Joins x (joinUpload x u) := by
  refine ⟨fun r hx => ?_, fun hx he => ?_⟩
  · subst hx
    rcases u with (_ | werr) | (_ | werr)
    · exact ⟨false, by simp [joinUpload]⟩
    all_goals exact ⟨true, by simp [joinUpload]⟩
  · rcases u with (_ | werr) | (_ | werr)
    · exact .inr he
    · exact .inl (by simp [joinUpload, hx])
    all_goals exact .inr he

/-- The reads after a request was written. -/
theorem readFinal_pairs (c : ConnId) (t : Target) (req : Request) {reply : Reply} {w : World}
    (hb : w.inbox c = reply.wire) :
    WP (readFinal env c req (readerFor cfg t)) w
      (ReadTo cfg c t req reply.interims reply.final (reply.chunks.map .data) w) := by
  refine WP.bind_iff.mpr (WP.get_iff.mpr ?_)
  refine readThroughInterim_ok cfg env c t req reply.interims_interim reply.final_final hb ?_
  rw [hb, Reply.wire, List.length_append, List.length_map, List.length_cons]
  omega

variable {cfg} in
theorem Exchanged.ends {c : ConnId} {t : Target} {req : Request} {reply : Reply} {w w₁ w₂ : World}
    (hx : Exchanged c req reply [] w w₁) (hib : w₁.inbox = Function.update w.inbox c reply.wire)
    {x : ReadResult} {y : Exchange}
    (hr : ReadTo cfg c t req reply.interims reply.final (reply.chunks.map .data) w₁ x w₂)
    (hy : Joins x y) : Ends cfg c t req w y w₂ := by
  obtain ⟨k, rs, hrs, hw, hend⟩ := hr
  refine ⟨reply, k, rs, hrs, hx.writes hw, ?_⟩
  rcases hend with ⟨hk, hib₂, r, hr, hxr⟩ | ⟨hn, he⟩
  · obtain ⟨close, hc⟩ := hy.final r hxr
    exact .inl ⟨hk, by rw [hib₂, hib, Function.update_idem], r, close, hr, hc⟩
  · exact .inr (hy.error hn he)

theorem exchangeRequest_pairs (hnext : Conforming env) (c : ConnId) (t : Target) (req : Request)
    {w : World} (hb : w.inbox c = []) :
    WP (exchangeRequest env c req (readerFor cfg t)) w (Ends cfg c t req w) := by
  refine WP.ite (fun _ => ?_) fun _ => ?_
  · refine WP.bind_iff.mpr ((writeRequest_pairs env hnext c req hb).mono fun err w₁ ⟨reply, hx, hib⟩ => ?_)
    cases err with
    | some werr =>
      exact ⟨reply, 0, [], .nil, (interimMsgs_nil req).symm ▸ hx, .inr (.inl (by simp))⟩
    | none =>
      have hb₁ : w₁.inbox c = reply.wire := by rw [hib, Function.update_self]
      refine WP.bind_iff.mpr ((readFinal_pairs cfg env c t req hb₁).mono fun x w₂ hr => ?_)
      exact hx.ends hib hr (joins_plain x)
  · refine WP.bind_iff.mpr ((writeRequest_pairs env hnext c req hb).mono fun err w₁ ⟨reply, hx, hib⟩ => ?_)
    have hb₁ : w₁.inbox c = reply.wire := by rw [hib, Function.update_self]
    refine WP.bind_iff.mpr ((readFinal_pairs cfg env c t req hb₁).mono fun x w₂ hr => ?_)
    exact hx.ends hib hr (joins_joinUpload x _)

theorem readBody_data (chunks : List Str) : readBody (chunks.map .data) = (chunks.flatten, []) := by
  induction chunks with
  | nil => rfl
  | cons b chunks ih => simp only [List.map_cons, readBody, ih, List.flatten_cons]

/-- Writing the final response reads its body to the end. -/
theorem writeResponse_pairs (c : ConnId) (r : Response) {chunks : List Str} {w : World}
    (hb : w.inbox c = chunks.map .data) : WP (writeResponse env c r) w fun _ w' =>
      ∃ close, Writes [.final { r with close := r.close || close } chunks.flatten] w w' ∧
        w'.inbox = Function.update w.inbox c [] := by
  refine WP.bind_iff.mpr (ask_iff.mpr (WP.bind_iff.mpr (WP.get_iff.mpr ?_)))
  rw [hb, readBody_data]
  refine WP.bind_iff.mpr (WP.modify_iff.mpr (WP.bind_iff.mpr ?_))
  refine (writeClient_writes env _ _).mono fun err w' ⟨hw, hib⟩ => ?_
  refine ⟨env.ctxDone w.trace, ?_, hib⟩
  have hc : (if env.ctxDone w.trace = true then { r with close := true } else r) =
      { r with close := r.close || env.ctxDone w.trace } := by
    cases env.ctxDone w.trace <;> simp
  have hw₀ : Writes [] w { w with inbox := Function.update w.inbox c [] } := .of_eq rfl rfl
  rw [← hc]
  exact hw₀.trans hw

theorem writeHTTPError_calm (pe : ProxyError) : Moves Calm (writeHTTPError env pe) :=
  writeHTTPError_moves env fun _ => emit_calm rfl rfl

/-- After an error the session writes no response and stops. -/
theorem finishRelay_error (c : ConnId) (req : Request) {x : Exchange} {onErr : RespErr → Prog Unit}
    (ho : ∀ e, Moves Calm (onErr e)) (he : x.requestErr ≠ none ∨ x.clientErr ≠ none ∨ x.err ≠ none)
    (w : World) : WP (finishRelay env c req x onErr) w fun ok w' => ok = false ∧ Calm w w' := by
  refine WP.ite (fun _ => ?_) fun h₁ => WP.ite (fun _ => ⟨rfl, refl_of Calm w⟩) fun h₂ => ?_
  · exact WP.bind_iff.mpr ((writeHTTPError_calm env _ w).mono fun _ _ h => ⟨rfl, h⟩)
  · obtain ⟨err, herr⟩ := Option.ne_none_iff_exists'.mp ((he.resolve_left h₁).resolve_left h₂)
    rw [herr]
    exact WP.bind_iff.mpr ((ho err w).mono fun _ _ h => ⟨rfl, h⟩)

/-- `relayDirect` and the tail of `relayViaUpstream`. -/
theorem relay_pairs (hnext : Conforming env) (c : ConnId) (t : Target) (req : Request)
    {onErr : RespErr → Prog Unit} (ho : ∀ e, Moves Calm (onErr e)) {w : World} (hi : Idle cfg w)
    (hd : .dial c t ∈ w.trace) :
    WP (exchangeRequest env c req (readerFor cfg t) >>= fun x => finishRelay env c req x onErr) w
      fun ok w' => Paired cfg w'.trace ∧ (ok = true → Idle cfg w' ∧ .dial c t ∈ w'.trace) := by
  refine WP.bind_iff.mpr ((exchangeRequest_pairs cfg env hnext c t req (hi.inbox c)).mono fun x w₁ hx => ?_)
  obtain ⟨reply, k, rs, hrs, hex, ⟨hk, hib, r, close, hr, rfl⟩ | herr⟩ := hx
  · have hb₁ : w₁.inbox c = reply.chunks.map .data := by rw [hib, Function.update_self]
    refine WP.ite (fun h => absurd rfl h) fun _ => WP.ite (fun h => absurd rfl h) fun _ => ?_
    refine WP.bind_iff.mpr ((writeResponse_pairs env c _ hb₁).mono fun y w₂ ⟨close', hw, hib₂⟩ => ?_)
    rw [hk] at hrs
    have hex₂ := hex.writes hw
    have hwhole : Whole cfg t reply ⟨c, req, reply.wire, interimMsgs req rs ++
        [.final { r with close := (r.close || close) || close' } reply.chunks.flatten]⟩ :=
      ⟨rs, r, close || close', hrs, hr, by rw [Bool.or_assoc]; rfl⟩
    have hidle : Idle cfg w₂ := by
      refine ⟨fun c' => ?_, fun c' hc' => ?_, fun x hx => ?_⟩
      · rw [hib₂, hib, Function.update_idem]
        by_cases hc' : c' = c
        · rw [hc', Function.update_self]
        · rw [Function.update_of_ne hc', hi.inbox]
      · exact hex₂.mem _ (hi.kept c' (hex₂.proxyConn.symm.trans hc'))
      · rw [hex₂.relays] at hx
        rcases List.mem_append.mp hx with hx | hx
        · obtain ⟨t', reply', hd', ha, hw'⟩ := hi.whole x hx
          exact ⟨t', reply', hex₂.mem _ hd', ha, hw'⟩
        · cases List.mem_singleton.mp hx
          exact ⟨t, reply, hex₂.mem _ hd, rfl, hwhole⟩
    exact WP.ite (fun _ => ⟨hidle.paired, fun h => nomatch h⟩) fun _ =>
      ⟨hidle.paired, fun _ => ⟨hidle, hex₂.mem _ hd⟩⟩
  · refine (finishRelay_error env c req ho herr w₁).mono fun ok w₂ ⟨hok, hc⟩ => ⟨?_, fun h => ?_⟩
    · refine hi.exchanged hd (hex.writes hc.writes) (.inr ⟨k, rs, hrs, ?_⟩)
      rw [List.append_nil]
    · rw [hok] at h; cases h

/-! ## The loops -/

theorem dial_pairs (t : Target) {w : World} (hi : Idle cfg w) :
    WP (dial env t) w fun r w' => Idle cfg w' ∧ ∀ c, r = .ok c → .dial c t ∈ w'.trace := by
  refine WP.bind_iff.mpr (ask_iff.mpr ?_)
  cases env.dial t w.trace with
  | some err => exact ⟨hi.calm (emit_calm (e := .dialFailed t) rfl rfl w), fun _ h => nomatch h⟩
  | none =>
    have hc : Calm w { w with trace := w.trace ++ [.dial w.conns t], conns := w.conns + 1 } :=
      ⟨⟨⟨[.dial w.conns t], rfl, by simp [isSent], rfl⟩, rfl⟩, rfl⟩
    refine ⟨hi.calm hc, fun c h => ?_⟩
    cases h
    exact List.mem_append_right _ (List.mem_singleton_self _)

theorem dialAndAuthUpstream_pairs (req : Request) {w : World} (hi : Idle cfg w) :
    WP (dialAndAuthUpstream env req) w fun o w' =>
      Idle cfg w' ∧ ∀ c r, o = some (c, r) → .dial c .upstream ∈ w'.trace := by
  have htoken : Moves Calm (emit (.token (env.getToken w.trace))) := emit_calm rfl rfl
  refine WP.bind_iff.mpr (ask_iff.mpr (WP.bind_iff.mpr ((htoken w).mono fun _ w₁ h₁ => ?_)))
  have hi₁ := hi.calm h₁
  cases env.getToken w.trace with
  | error terr =>
    refine WP.bind_iff.mpr ((writeHTTPError_calm env _ w₁).mono fun _ w₂ h₂ => ?_)
    exact ⟨hi₁.calm h₂, fun _ _ h => nomatch h⟩
  | ok token =>
    refine WP.bind_iff.mpr ((dial_pairs cfg env .upstream hi₁).mono fun r w₂ ⟨hi₂, hd⟩ => ?_)
    cases r with
    | error derr =>
      refine WP.bind_iff.mpr ((writeHTTPError_calm env _ w₂).mono fun _ w₃ h₃ => ?_)
      exact ⟨hi₂.calm h₃, fun _ _ h => nomatch h⟩
    | ok c => exact ⟨hi₂, fun _ _ h => by cases h; exact hd c rfl⟩

theorem relayViaUpstream_pairs (hnext : Conforming env) (req : Request) {w : World}
    (hi : Idle cfg w) :
    WP (relayViaUpstream cfg env req) w fun ok w' => Paired cfg w'.trace ∧ (ok = true → Idle cfg w') := by
  refine WP.bind_iff.mpr (ask_iff.mpr (WP.bind_iff.mpr ?_))
  have hconn : ∀ req', WP (upstreamConn env req') w fun o w' =>
      Idle cfg w' ∧ ∀ c r, o = some (c, r) → .dial c .upstream ∈ w'.trace := by
    intro req'
    refine WP.bind_iff.mpr (WP.get_iff.mpr ?_)
    cases hk : w.proxyConn with
    | some c => exact ⟨hi, fun _ _ h => by cases h; exact hi.kept c hk⟩
    | none => exact dialAndAuthUpstream_pairs cfg env req' hi
  refine (hconn _).mono fun o w₁ ⟨hi₁, hd⟩ => ?_
  cases o with
  | none => exact ⟨hi₁.paired, fun h => nomatch h⟩
  | some x =>
    obtain ⟨c, r⟩ := x
    have hd := hd c r rfl
    refine WP.bind_iff.mpr (WP.modify_iff.mpr ?_)
    have hi₂ : Idle cfg { w₁ with proxyConn := some c } :=
      ⟨hi₁.inbox, fun c' h => by cases h; exact hd, hi₁.whole⟩
    refine (relay_pairs cfg env hnext c .upstream _ (fun e => writeHTTPError_calm env _) hi₂ hd).mono ?_
    exact fun ok w' ⟨hp, hok⟩ => ⟨hp, fun h => (hok h).1⟩

theorem readRequest_calm : Moves Calm (readRequest env) :=
  readRequest_moves env fun _ => emit_calm rfl rfl

theorem validateRequest_calm (req : Request) : Moves Calm (validateRequest cfg env req) := fun w =>
  (validateRequest_ok cfg env (fun _ _ => emit_calm rfl rfl) req w).mono fun _ _ h => h.1

theorem nextDirectRequest_calm (host : Str) : Moves Calm (nextDirectRequest cfg env host) := by
  refine (readRequest_calm env).bind fun r => ?_
  cases r with
  | error err => exact .pure _
  | ok req =>
    refine .ite (fun _ => .pure _) fun _ => (validateRequest_calm cfg env req).bind fun v => ?_
    cases v with
    | answered => exact .pure _
    | reject pe => exact (writeHTTPError_calm env pe).bind fun _ => .pure _
    | proceed r => exact .ite (fun _ => (writeHTTPError_calm env _).bind fun _ => .pure _) fun _ => .pure _

theorem directLoop_pairs (hnext : Conforming env) {c : ConnId} {host addr : Str} (n : Nat)
    (req : Request) {w : World} (hi : Idle cfg w) (hd : .dial c (.direct host addr) ∈ w.trace) :
    WP (directLoop cfg env c host n req) w fun o w' => Paired cfg w'.trace ∧ (o ≠ none → Idle cfg w') := by
  induction n generalizing req w with
  | zero => exact ⟨hi.paired, fun h => absurd rfl h⟩
  | succ n ih =>
    have hquiet : ∀ _ : RespErr, Moves Calm (pure () : Prog Unit) := fun _ => .pure _
    have hrelay := relay_pairs cfg env hnext c (.direct host addr) req hquiet hi hd
    refine WP.bind_iff.mpr (hrelay.mono fun ok w₁ ⟨hp, hok⟩ => ?_)
    cases ok with
    | false => exact ⟨hp, fun h => absurd rfl h⟩
    | true =>
      obtain ⟨hi₁, hd₁⟩ := hok rfl
      refine WP.bind_iff.mpr ((nextDirectRequest_calm cfg env host w₁).mono fun x w₂ h₂ => ?_)
      have hi₂ := hi₁.calm h₂
      cases x with
      | stop => exact ⟨hi₂.paired, fun h => absurd rfl h⟩
      | reroute req => exact ⟨hi₂.paired, fun _ => hi₂⟩
      | relay req => exact ih req hi₂ (h₂.writes.mem hd₁)

theorem forwardDirect_pairs (hnext : Conforming env) (n : Nat) (req : Request) {w : World}
    (hi : Idle cfg w) :
    WP (forwardDirect cfg env n req) w fun o w' => Paired cfg w'.trace ∧ (o ≠ none → Idle cfg w') := by
  refine WP.bind_iff.mpr ((dial_pairs cfg env _ hi).mono fun r w₁ ⟨hi₁, hd⟩ => ?_)
  cases r with
  | error err =>
    refine WP.bind_iff.mpr ((writeHTTPError_calm env _ w₁).mono fun _ w₂ h₂ => ?_)
    exact ⟨(hi₁.calm h₂).paired, fun h => absurd rfl h⟩
  | ok c => exact directLoop_pairs cfg env hnext n req hi₁ (hd c rfl)

theorem forwardTunnel_calm (c : ConnId) (steps : List TunnelStep) :
    Moves Calm (forwardTunnel env c steps) :=
  forwardTunnel_moves env (fun _ => emit_calm rfl rfl) (fun _ _ => emit_calm rfl rfl) steps

theorem connectOK_calm (r : Response) : Moves Calm (writeClient env (.connectOK r)) :=
  writeClient_moves env fun _ => emit_calm rfl rfl

theorem tunnelDirect_pairs (req : Request) {w : World} (hi : Idle cfg w) :
    WP (tunnelDirect cfg env req) w fun _ w' => Paired cfg w'.trace := by
  refine WP.bind_iff.mpr ((dial_pairs cfg env _ hi).mono fun r w₁ ⟨hi₁, _⟩ => ?_)
  cases r with
  | error err => exact (writeHTTPError_calm env _ w₁).mono fun _ _ h => (hi₁.calm h).paired
  | ok c =>
    have hm : Moves Calm (do if (← writeClient env (.connectOK (directOK cfg req))) = none then
        forwardTunnel env c (← ask env.tunnel)) :=
      (connectOK_calm env _).bind fun _ =>
        .ite (fun _ => (ask_moves _).bind fun _ => forwardTunnel_calm env c _) fun _ => .pure _
    exact (hm w₁).mono fun _ _ h => (hi₁.calm h).paired

/-- A `CONNECT` request gets its interim responses too, and the final one
unless it opens the tunnel. -/
theorem handleConnectTunnel_pairs {c : ConnId} {req : Request} {reply : Reply} {w w₁ : World}
    (hi : Idle cfg w) (hd : .dial c .upstream ∈ w.trace) (hx : Exchanged c req reply [] w w₁)
    (hb : w₁.inbox c = reply.wire) :
    WP (handleConnectTunnel cfg env c req) w₁ fun _ w' => Paired cfg w'.trace := by
  refine WP.bind_iff.mpr ((readFinal_pairs cfg env c .upstream req hb).mono fun x w₂ hr => ?_)
  obtain ⟨k, rs, hrs, hw, hend⟩ := hr
  have hx₂ := hx.writes hw
  have hbegun : ∀ {w₃}, Writes [] w₂ w₃ → Paired cfg w₃.trace := fun h =>
    hi.exchanged hd (hx₂.writes h) (.inr ⟨k, rs, hrs, by rw [List.append_nil]; rfl⟩)
  refine WP.ite (fun _ => hbegun (.of_eq rfl rfl)) fun hc => ?_
  rcases hend with ⟨hk, hib, r, hr, rfl⟩ | ⟨hn, he⟩
  · refine WP.ite (fun _ => ?_) fun _ => ?_
    · refine WP.bind_iff.mpr (WP.get_iff.mpr (WP.bind_iff.mpr ?_))
      refine (writeClient_writes env _ w₂).mono fun _ w₃ ⟨hw₃, _⟩ => ?_
      refine hi.exchanged hd (hx₂.writes hw₃) (.inl ⟨rs, r, false, by rwa [hk] at hrs, hr, ?_⟩)
      rw [hib, Function.update_self, readBody_data]
      simp [isResponse, Reply.body]
    · refine WP.bind_iff.mpr ((connectOK_calm env r w₂).mono fun _ w₃ h₃ => ?_)
      refine WP.ite (fun _ => ?_) fun _ => hbegun h₃.writes
      refine WP.bind_iff.mpr (ask_iff.mpr ?_)
      exact (forwardTunnel_calm env c _ w₃).mono fun _ _ h => hbegun (h₃.writes.trans h.writes)
  · obtain ⟨err, herr⟩ := Option.ne_none_iff_exists'.mp (he.resolve_left hc)
    rw [herr]
    exact (writeHTTPError_calm env _ w₂).mono fun _ _ h => hbegun h.writes

theorem tunnelViaUpstream_pairs (hnext : Conforming env) (req : Request) {w : World}
    (hi : Idle cfg w) : WP (tunnelViaUpstream cfg env req) w fun _ w' => Paired cfg w'.trace := by
  refine WP.bind_iff.mpr (ask_iff.mpr (WP.bind_iff.mpr ?_))
  refine (dialAndAuthUpstream_pairs cfg env _ hi).mono fun o w₁ ⟨hi₁, hd⟩ => ?_
  cases o with
  | none => exact hi₁.paired
  | some x =>
    obtain ⟨c, r⟩ := x
    have hd := hd c r rfl
    refine WP.bind_iff.mpr (WP.bind_iff.mpr ?_)
    refine (writeRequest_pairs env hnext c _ (hi₁.inbox c)).mono fun err w₂ ⟨reply, hx, hib⟩ => ?_
    refine WP.ite (fun _ => ?_) fun _ => ?_
    · refine (writeHTTPError_calm env _ w₂).mono fun _ _ h => ?_
      exact hi₁.exchanged hd (hx.writes h.writes) (.inr ⟨0, [], .nil, (interimMsgs_nil _).symm⟩)
    · exact handleConnectTunnel_pairs cfg env hi₁ hd hx (by rw [hib, Function.update_self])

theorem routeRequest_pairs (hnext : Conforming env) (n : Nat) (req : Request) {w : World}
    (hi : Idle cfg w) :
    WP (routeRequest cfg env n req) w fun x w' => Paired cfg w'.trace ∧ (x.2 = true → Idle cfg w') := by
  refine WP.ite (fun _ => ?_) fun _ => ?_
  · refine WP.ite (fun _ => ?_) fun _ => ?_
    · exact WP.bind_iff.mpr ((tunnelDirect_pairs cfg env req hi).mono fun _ _ h => ⟨h, fun h => nomatch h⟩)
    · refine WP.bind_iff.mpr ((forwardDirect_pairs cfg env hnext n _ hi).mono fun o w' ⟨hp, ho⟩ => ?_)
      refine ⟨hp, fun h => ho fun hn => ?_⟩
      subst hn
      cases h
  · refine WP.ite (fun _ => ?_) fun _ => ?_
    · exact WP.bind_iff.mpr ((tunnelViaUpstream_pairs cfg env hnext req hi).mono fun _ _ h =>
        ⟨h, fun h => nomatch h⟩)
    · exact WP.bind_iff.mpr ((relayViaUpstream_pairs cfg env hnext req hi).mono fun _ _ h => h)

theorem takeRequest_calm (pending : Option Request) (iter : Nat) :
    Moves Calm (takeRequest env pending iter) := by
  cases pending with
  | some req => exact .pure _
  | none =>
    exact fun w => (readNextRequest_ok env (fun _ => emit_calm rfl rfl) (fun _ _ => emit_calm rfl rfl)
      iter w).mono fun _ _ h => h.1

theorem runLoop_pairs (hnext : Conforming env) (n : Nat) (pending : Option Request) (iter : Nat)
    {w : World}
    (hi : Idle cfg w) : WP (runLoop cfg env n pending iter) w fun _ w' => Paired cfg w'.trace := by
  induction n generalizing pending iter w with
  | zero => exact hi.paired
  | succ n ih =>
    refine WP.bind_iff.mpr ((takeRequest_calm env pending iter w).mono fun o w₁ h₁ => ?_)
    have hi₁ := hi.calm h₁
    cases o with
    | none => exact hi₁.paired
    | some req =>
      refine WP.bind_iff.mpr ((validateRequest_calm cfg env req w₁).mono fun v w₂ h₂ => ?_)
      have hi₂ := hi₁.calm h₂
      cases v with
      | answered => exact hi₂.paired
      | reject pe => exact (writeHTTPError_calm env pe w₂).mono fun _ _ h => (hi₂.calm h).paired
      | proceed r =>
        refine WP.bind_iff.mpr ((routeRequest_pairs cfg env hnext n r hi₂).mono fun x w₃ ⟨hp, hx⟩ => ?_)
        exact WP.ite (fun hc => ih x.1 (iter + 1) (hx hc)) fun _ => hp

/-- In every run with next hops that keep to the protocol, every request gets
the responses of its own reply. -/
theorem responses_paired (hnext : Conforming env) (n : Nat) : Paired cfg (run cfg env n).trace := by
  refine runLoop_pairs cfg env hnext n none 0 ⟨fun _ => rfl, fun _ h => (nomatch h), fun x hx => ?_⟩
  exact absurd hx List.not_mem_nil

end

/-- A `103` before a `200` whose body comes in two pieces. -/
def hintsReply : Reply where
  interims := [plainResponse 103]
  final := plainResponse 200
  chunks := [str "he", str "llo"]
  interims_interim := by decide
  final_final := by decide

/-- Two requests on one upstream connection. -/
def hintsSample : Env :=
  scripted [plainGet (str "example.com") ⟨∅⟩,
    plainGet (str "example.org") ⟨∅⟩] (str "dG9r") hintsReply.wire

theorem responses_paired_hintsSample :
    Paired plainConfig (run plainConfig hintsSample 3).trace ∧
    (relays (run plainConfig hintsSample 3).trace).map (fun x => (x.conn, x.req.host, x.msgs.length)) =
      [(0, str "example.com", 2), (0, str "example.org", 2)] :=
  ⟨responses_paired plainConfig hintsSample (fun _ _ _ => ⟨hintsReply, rfl⟩) 3, by decide +kernel⟩

end SP.Proof
