import SpnegoProxy.Proof.Session.Policy
import SpnegoProxy.Proof.Session.Stages
import SpnegoProxy.Spec.Failures

/-!
# Failures of the next hop

A request that passed the validation is routed, to the upstream proxy or on
a new direct connection, or it is relayed on the direct connection that the
session is bound to. `Fails` says, of what the network and the next hop do,
that such an attempt gets no final response, and how: the dial fails, the
upload fails, or no final response can be read (the connection ends, or a
response is unparseable or rejected). `failure_answered_iff`: a client that
can be written to gets exactly one error response of the proxy for it, unless
the response could not be read on a direct connection.
-/

namespace SP.Proof

open SP.Go SP.Impl SP.Spec

/-! ## Error responses -/

theorem writeHTTPError_adds (env : Env) (pe : ProxyError) (w : World) :
    WP (writeHTTPError env pe) w fun _ w' => Adds [pe] w w' := ⟨[_], rfl, rfl⟩

/-- The errors of the next hop are all errors of a server. -/
theorem upstreamResponseError_status (e : RespErr) :
    500 ≤ (upstreamResponseError e).statusCode ∧ (upstreamResponseError e).statusCode < 600 := by
  cases e <;> exact ⟨(by decide : 500 ≤ 502), (by decide : 502 < 600)⟩

theorem dialError_status (e : DialErr) :
    500 ≤ (dialError e).statusCode ∧ (dialError e).statusCode < 600 := by
  rw [dialError]
  split <;> decide

/-! ## The exchange -/

section

variable {env : Env} {reader : List Wire → Except RespErr Response × List Wire} {c : ConnId} {req : Request} {w : World}

theorem writeRequest_adds : WP (writeRequest env c req) w fun err w' =>
    err = env.writeRequest c req w.trace ∧ Adds [] w w' ∧ w'.inbox c = queued env c req w := by
  refine WP.bind_iff.mpr (ask_iff.mpr (WP.bind_iff.mpr (ask_iff.mpr (WP.bind_iff.mpr (ask_iff.mpr ?_)))))
  refine WP.bind_iff.mpr (WP.modify_iff.mpr (WP.bind_iff.mpr (emit_iff.mpr ?_)))
  refine WP.ite (fun _ => ?_) fun _ => ?_
  · exact ⟨rfl, ⟨[_, _], List.append_assoc _ _ _, rfl⟩, Function.update_self ..⟩
  · exact ⟨rfl, ⟨[_], rfl, rfl⟩, Function.update_self ..⟩

theorem readOne_adds : WP (readOne c reader) w fun x w' =>
    x = (reader (w.inbox c)).1 ∧ Adds [] w w' ∧ w'.inbox c = (reader (w.inbox c)).2 := by
  refine WP.bind_iff.mpr (WP.get_iff.mpr ?_)
  cases reader (w.inbox c) with
  | mk x rest => cases x with
    | ok resp => exact ⟨rfl, ⟨[_], rfl, rfl⟩, Function.update_self ..⟩
    | error err => exact ⟨rfl, .rfl' _, Function.update_self ..⟩

theorem relayInterimResponse_adds (hw : Writable env) {resp : Response} :
    WP (relayInterimResponse env req resp) w fun err w' => err = none ∧ Adds [] w w' ∧ w'.inbox = w.inbox :=
  WP.ite (fun _ => ⟨rfl, .rfl' w, rfl⟩) fun _ => ⟨hw _ _, ⟨[_], rfl, rfl⟩, rfl⟩

/-- Without a final response the reads end in an error; all they wrote are interim responses. -/
theorem readThroughInterim_undelivered (hw : Writable env) (n : Nat)
    (hd : ¬ Delivers reader (w.inbox c)) :
    WP (readThroughInterim env req (readOne c reader) n) w fun x w' =>
      Adds [] w w' ∧ ∃ err, x = ⟨none, none, some err⟩ := by
  induction n generalizing w with
  | zero => exact ⟨.rfl' w, _, rfl⟩
  | succ n ih =>
    refine WP.bind_iff.mpr (readOne_adds.mono fun x w₁ ⟨hx, ha, hi⟩ => ?_)
    cases x with
    | error err => exact ⟨ha, err, rfl⟩
    | ok resp =>
      have hr : reader (w.inbox c) = (.ok resp, w₁.inbox c) := Prod.ext hx.symm hi.symm
      refine WP.ite (fun hf => absurd (.final hr hf) hd) fun hf => WP.ite (fun _ => ⟨ha, _, rfl⟩) fun hv => ?_
      have hd' : ¬ Delivers reader (w₁.inbox c) := fun h =>
        hd (.interim hr (Bool.of_not_eq_false hf) (Bool.of_not_eq_false hv) h)
      refine WP.bind_iff.mpr ((relayInterimResponse_adds hw).mono fun err w₂ ⟨he, ha', hi'⟩ => ?_)
      subst he
      exact (ih (by rw [hi']; exact hd')).mono fun _ _ ⟨ha'', hx⟩ => ⟨(ha.trans ha').trans ha'', hx⟩

/-- The request is written, and no final response comes. -/
theorem reads_undelivered (hw : Writable env) (hd : ¬ Delivers reader (queued env c req w)) :
    WP (writeRequest env c req) w fun err w₁ => err = env.writeRequest c req w.trace ∧
      WP (readFinal env c req reader) w₁ fun x w₂ =>
        Adds [] w w₂ ∧ w₂.trace = afterReads env reader c req w ∧ ∃ err,
          x = ⟨none, none, some err⟩ := by
  have htr : WP (writeRequest env c req) w fun _ w₁ =>
      WP (readFinal env c req reader) w₁ fun _ w₂ => w₂.trace = afterReads env reader c req w := rfl
  refine (writeRequest_adds.and htr).mono fun err w₁ ⟨⟨herr, ha, hi⟩, htr⟩ => ⟨herr, ?_⟩
  have hr : WP (readFinal env c req reader) w₁ fun x w₂ => Adds [] w₁ w₂ ∧ ∃ err, x = ⟨none, none, some err⟩ :=
    readThroughInterim_undelivered hw _ (by rw [hi]; exact hd)
  exact (hr.and htr).mono fun _ _ ⟨⟨ha', hx⟩, ht⟩ => ⟨ha.trans ha', ht, hx⟩

/-- What `exchangeRequest` returns for a failure. -/
theorem exchangeRequest_fails (hw : Writable env) {k : Failure}
    (hf : ExchangeFails env reader c req w k) :
    WP (exchangeRequest env c req reader) w fun x w' => Adds [] w w' ∧
      ((k = .upload ∧ x.requestErr ≠ none) ∨
        (k = .response ∧ x.requestErr = none ∧ x.clientErr = none ∧ ∃ err, x.err = some err)) := by
  cases hf with
  | write hn he =>
    refine WP.ite (fun _ => WP.bind_iff.mpr (writeRequest_adds.mono fun err w₁ ⟨herr, ha, _⟩ => ?_)) fun h => absurd hn h
    rw [he] at herr
    subst herr
    exact ⟨ha, .inl ⟨rfl, by simp⟩⟩
  | read hn he hd =>
    refine WP.ite (fun _ => WP.bind_iff.mpr ((reads_undelivered hw hd).mono fun err w₁ ⟨herr, hr⟩ => ?_)) fun h => absurd hn h
    rw [he] at herr
    subst herr
    refine WP.bind_iff.mpr (hr.mono fun x w₂ ⟨ha, _, err, hx⟩ => ?_)
    subst hx
    exact ⟨ha, .inr ⟨rfl, rfl, rfl, err, rfl⟩⟩
  | writeBeside hn hd hu =>
    refine WP.ite (fun h => absurd h hn) fun _ => WP.bind_iff.mpr ((reads_undelivered hw hd).mono fun _ w₁ ⟨_, hr⟩ => ?_)
    refine WP.bind_iff.mpr (hr.mono fun x w₂ ⟨ha, ht, err, hx⟩ => WP.bind_iff.mpr (ask_iff.mpr ?_))
    rw [ht, hu, hx]
    exact ⟨ha, .inl ⟨rfl, by simp [joinUpload]⟩⟩
  | readBeside hn hd hu =>
    refine WP.ite (fun h => absurd h hn) fun _ => WP.bind_iff.mpr ((reads_undelivered hw hd).mono fun _ w₁ ⟨_, hr⟩ => ?_)
    refine WP.bind_iff.mpr (hr.mono fun x w₂ ⟨ha, ht, err, hx⟩ => WP.bind_iff.mpr (ask_iff.mpr ?_))
    rw [ht, hx]
    rcases hup : env.upload (afterReads env reader c req w) with (_ | werr) | (_ | werr)
    · exact ⟨ha, .inr ⟨rfl, rfl, rfl, err, rfl⟩⟩
    · exact absurd hup (hu werr)
    · exact ⟨ha, .inr ⟨rfl, rfl, rfl, err, rfl⟩⟩
    · exact ⟨ha, .inr ⟨rfl, rfl, rfl, err, rfl⟩⟩

/-- A relay that fails: a failed upload is answered, a response that could not be read is left to `onErr`. -/
theorem relay_fails (hw : Writable env) {k : Failure} (hf : ExchangeFails env reader c req w k)
    {onErr : RespErr → Prog Unit} {f : RespErr → List ProxyError}
    (he : ∀ e w₁, WP (onErr e) w₁ fun _ w₂ => Adds (f e) w₁ w₂) :
    WP (exchangeRequest env c req reader >>= fun x => finishRelay env c req x onErr) w fun b w' => b = false ∧
      ((k = .upload ∧ Adds [errConnectionTerminated] w w') ∨ (k = .response ∧ ∃ e,
        Adds (f e) w w')) := by
  refine WP.bind_iff.mpr ((exchangeRequest_fails hw hf).mono fun x w₁ ⟨ha, hx⟩ => ?_)
  rcases hx with ⟨rfl, hq⟩ | ⟨rfl, hq, hc, e, hx⟩
  · refine WP.ite (fun _ => ?_) fun h => absurd hq h
    exact WP.bind_iff.mpr ((writeHTTPError_adds env _ w₁).mono fun _ _ h => ⟨rfl, .inl ⟨rfl, ha.trans h⟩⟩)
  · refine WP.ite (fun h => absurd hq h) fun _ => WP.ite (fun h => absurd hc h) fun _ => ?_
    rw [hx]
    exact WP.bind_iff.mpr ((he e w₁).mono fun _ _ h => ⟨rfl, .inr ⟨rfl, e, ha.trans h⟩⟩)

/-- A relay to the upstream proxy answers every failure. -/
theorem upstream_answers (hw : Writable env) {k : Failure}
    (hf : ExchangeFails env reader c req w k) : WP (exchangeRequest env c req reader >>= fun x =>
      finishRelay env c req x fun rerr => writeHTTPError env (upstreamResponseError rerr)) w
        fun b w' => b = false ∧ AnsweredByError w w' := by
  refine (relay_fails hw hf fun e w₁ => writeHTTPError_adds env (upstreamResponseError e) w₁).mono fun b w' ⟨hb, h⟩ => ⟨hb, ?_⟩
  rcases h with ⟨-, h⟩ | ⟨-, e, h⟩
  · exact ⟨_, h, by decide⟩
  · exact ⟨_, h, upstreamResponseError_status e⟩

/-- A relay on a direct connection answers a failed upload only. -/
theorem relayDirect_answers {cfg : Config} (hw : Writable env) {k : Failure}
    (hf : ExchangeFails env (readDirectResponse cfg.pseudonym) c req w k) :
    WP (relayDirect cfg env c req) w fun b w' => b = false ∧
      (k ≠ .response ∧ AnsweredByError w w' ∨ k = .response ∧ Adds [] w w') := by
  have he : ∀ (_ : RespErr) (w₁ : World), WP (pure () : Prog Unit) w₁ fun _ w₂ => Adds [] w₁ w₂ :=
    fun _ w₁ => Adds.rfl' w₁
  refine (relay_fails hw hf he).mono fun b w' ⟨hb, h⟩ => ⟨hb, ?_⟩
  rcases h with ⟨rfl, h⟩ | ⟨rfl, -, h⟩
  · exact .inl ⟨by simp, _, h, by decide⟩
  · exact .inr ⟨rfl, h⟩

end

section

variable {cfg : Config} {env : Env} {r : Request} {w : World}

/-- Nothing but a failed read of the response on a direct connection stays without an answer. -/
theorem direct_answers_iff {m : Prog Bool} {k : Failure} {w₁ : World} (ha : Adds [] w w₁)
    (h : WP m w fun b w' => b = false ∧ (k ≠ .response ∧ AnsweredByError w₁ w' ∨ k = .response ∧ Adds [] w₁ w')) :
    Answers m w ↔ k ≠ .response := by
  obtain ⟨hb, ⟨hk, h⟩ | ⟨hk, h⟩⟩ := h
  · exact ⟨fun _ => hk, fun _ => ⟨hb, h.of_adds ha⟩⟩
  · exact ⟨fun h' => absurd h'.2 (ha.trans h).not_answered, fun hn => absurd hk hn⟩

theorem dial_fails {t : Target} {derr : DialErr} (hd : env.dial t w.trace = some derr) :
    WP (dial env t) w fun x w' => x = .error derr ∧ Adds [] w w' := by
  refine WP.bind_iff.mpr (ask_iff.mpr ?_)
  rw [hd]
  exact ⟨rfl, .of_event rfl rfl⟩

theorem dial_succeeds {t : Target} (hd : env.dial t w.trace = none) :
    WP (dial env t) w fun x w' => x = .ok w.conns ∧ w' = dialled t w := by
  refine WP.bind_iff.mpr (ask_iff.mpr ?_)
  rw [hd]
  exact ⟨rfl, rfl⟩

/-- A failed dial is answered. -/
theorem dialError_answers (derr : DialErr) {w₁ : World} (ha : Adds [] w w₁) :
    WP (writeHTTPError env (dialError derr)) w₁ fun _ w' => AnsweredByError w w' :=
  (writeHTTPError_adds env _ w₁).mono fun _ _ h => ⟨_, ha.trans h, dialError_status derr⟩

theorem upstreamConn_kept {req : Request} {c : ConnId} (hc : w.proxyConn = some c) :
    WP (upstreamConn env req) w fun o w' => o = some (c, req) ∧ w' = w := by
  refine WP.bind_iff.mpr (WP.get_iff.mpr ?_)
  rw [hc]
  exact ⟨rfl, rfl⟩

theorem upstreamConn_new {req : Request} {Q : Option (ConnId × Request) → World → Prop}
    (hc : w.proxyConn = none)
    (h : WP (dialAndAuthUpstream env req) w Q) : WP (upstreamConn env req) w Q := by
  refine WP.bind_iff.mpr (WP.get_iff.mpr ?_)
  rw [hc]
  exact h

theorem dialAndAuthUpstream_dials {req : Request} {token : Str}
    (ht : env.getToken w.trace = .ok token) : WP (dialAndAuthUpstream env req) w fun o w' =>
      (∀ derr, env.dial .upstream (w.trace ++ [.token (.ok token)]) = some derr → o = none ∧ AnsweredByError w w') ∧
      (env.dial .upstream (w.trace ++ [.token (.ok token)]) = none → o = some (w.conns,
        authorised token req) ∧
        w' = dialled .upstream { w with trace := w.trace ++ [.token (.ok token)] }) := by
  refine WP.bind_iff.mpr (ask_iff.mpr (WP.bind_iff.mpr (emit_iff.mpr ?_)))
  rw [ht]
  cases hd : env.dial .upstream (w.trace ++ [.token (.ok token)]) with
  | some derr =>
    refine WP.bind_iff.mpr ((dial_fails hd).mono fun x w₁ ⟨hx, ha⟩ => ?_)
    subst hx
    have ha₁ : Adds [] w w₁ := (Adds.of_event rfl rfl).trans ha
    exact WP.bind_iff.mpr ((dialError_answers derr ha₁).mono fun _ _ h => ⟨fun _ _ => ⟨rfl, h⟩, fun hn => (nomatch hn)⟩)
  | none =>
    refine WP.bind_iff.mpr ((dial_succeeds hd).mono fun x w₁ ⟨hx, hw₁⟩ => ?_)
    subst hx
    exact ⟨fun _ hn => (nomatch hn), fun _ => ⟨rfl, hw₁⟩⟩

/-- On the upstream proxy every failure is answered. -/
theorem relayViaUpstream_answers (hw : Writable env) {n : Nat} {k : Failure}
    (hb : cfg.bypasses r.host = false)
    (hf : Fails cfg env r w (.routed n) k) : Answers (relayViaUpstream cfg env r) w := by
  refine WP.bind_iff.mpr (ask_iff.mpr (WP.bind_iff.mpr ?_))
  cases hf with
  | upstreamDial _ hc ht hd =>
    refine (upstreamConn_new hc (dialAndAuthUpstream_dials ht)).mono fun o w₁ h => ?_
    obtain ⟨rfl, ha⟩ := h.1 _ hd
    exact ⟨rfl, ha⟩
  | @upstreamFirst _ token _ _ hc ht hd hx =>
    refine (upstreamConn_new hc (dialAndAuthUpstream_dials ht)).mono fun o w₁ h => ?_
    obtain ⟨rfl, rfl⟩ := h.2 hd
    refine WP.bind_iff.mpr (WP.modify_iff.mpr ((upstream_answers hw hx).mono fun b w' ⟨hb, h⟩ => ⟨hb, h.of_adds ?_⟩))
    exact ⟨[.token (.ok token), .dial w.conns .upstream], List.append_assoc _ _ _, rfl⟩
  | upstreamReused _ hc hx =>
    refine (upstreamConn_kept hc).mono fun o w₁ h => ?_
    obtain ⟨rfl, rfl⟩ := h
    refine WP.bind_iff.mpr (WP.modify_iff.mpr ?_)
    rw [← hc]
    exact upstream_answers hw hx
  | directDial hb' | directFirst hb' => rw [hb] at hb'; cases hb'

/-- On a new direct connection a failed dial and a failed upload are answered. -/
theorem forwardDirect_answers (hw : Writable env) {n : Nat} {k : Failure}
    (hb : cfg.bypasses r.host = true) (hf : Fails cfg env r w (.routed n) k) :
    ∃ w₁, Adds [] w w₁ ∧ WP (forwardDirect cfg env (n + 1) (withVia cfg r)) w fun o w' => o = none ∧
      (k ≠ .response ∧ AnsweredByError w₁ w' ∨ k = .response ∧ Adds [] w₁ w') := by
  cases hf with
  | directDial _ hd =>
    refine ⟨w, .rfl' w, WP.bind_iff.mpr ((dial_fails hd).mono fun x w₁ ⟨hx, ha⟩ => ?_)⟩
    subst hx
    exact WP.bind_iff.mpr ((dialError_answers _ ha).mono fun _ _ h => ⟨rfl, .inl ⟨by simp, h⟩⟩)
  | directFirst _ hd hx =>
    refine ⟨dialled (directTarget r) w, .of_event rfl rfl,
      WP.bind_iff.mpr ((dial_succeeds hd).mono fun x w₁ ⟨hx', hw₁⟩ => ?_)⟩
    subst hx' hw₁
    refine WP.bind_iff.mpr (WP.bind_iff.mpr ((relayDirect_answers hw hx).mono fun b w' ⟨hb, h⟩ => ?_))
    subst hb
    exact ⟨rfl, h⟩
  | upstreamDial hb' | upstreamFirst hb' | upstreamReused hb' => rw [hb] at hb'; cases hb'

/-- Of a request that fails on its hop the client hears exactly once, unless
it failed in reading the response on a direct connection. -/
theorem failure_answered_iff (hw : Writable env) (hm : r.method ≠ methodConnect) {hop : Hop}
    {k : Failure} (hf : Fails cfg env r w hop k) :
    Answers (attempt cfg env r hop) w ↔ hop.Upstream cfg r ∨ k ≠ .response := by
  cases hop with
  | routed n =>
    cases hb : cfg.bypasses r.host with
    | false =>
      refine iff_of_true (WP.bind_iff.mpr ?_) (.inl hb)
      refine WP.ite (fun h => ?_) fun _ => WP.ite (fun h => absurd h hm) fun _ => ?_
      · rw [hb] at h; cases h
      · exact WP.bind_iff.mpr ((relayViaUpstream_answers hw hb hf).mono fun _ _ h => h)
    | true =>
      rw [or_iff_right (by simp [Hop.Upstream, hb])]
      obtain ⟨w₁, ha, h⟩ := forwardDirect_answers hw hb hf
      refine direct_answers_iff ha (WP.bind_iff.mpr ?_)
      refine WP.ite (fun _ => WP.ite (fun h => absurd h hm) fun _ => ?_) fun h => absurd hb h
      exact WP.bind_iff.mpr (h.mono fun o w' ⟨ho, h⟩ => by subst ho; exact ⟨rfl, h⟩)
  | bound c =>
    rw [Hop.Upstream, false_or]
    cases hf with
    | bound hx => exact direct_answers_iff (.rfl' w) (relayDirect_answers hw hx)

end

/-- One request, and a next hop that closes the connection without a response. -/
def closedHop : Env := scripted [plainGet (str "a.corp") ⟨∅⟩] (str "dG9r") []

theorem undelivered_nil {reader : List Wire → Except RespErr Response × List Wire} {err : RespErr}
    {rest : List Wire} (h : reader [] = (.error err, rest)) : ¬ Delivers reader [] := by
  intro hd
  cases hd with
  | final hr | interim hr => rw [h] at hr; cases hr

theorem failure_answered_closedHop :
    Answers (attempt plainConfig closedHop (plainGet (str "a.corp") ⟨∅⟩) (.routed 0)) .init := by
  have hf : Fails plainConfig closedHop (plainGet (str "a.corp") ⟨∅⟩) .init (.routed 0) .response :=
    .upstreamFirst rfl rfl rfl rfl (.read (.inl rfl) rfl (undelivered_nil rfl))
  exact (failure_answered_iff (fun _ _ => rfl) (by decide) hf).mpr (.inl rfl)

/-- On a direct connection the client hears nothing of the missing response. -/
theorem closedHop_unanswered :
    Fails corpConfig closedHop (plainGet (str "a.corp") ⟨∅⟩) .init (.routed 0) .response ∧
    ¬ Answers (attempt corpConfig closedHop (plainGet (str "a.corp") ⟨∅⟩) (.routed 0)) .init ∧
    ((run corpConfig closedHop 2).trace.length, (run corpConfig closedHop 2).trace.filterMap errorOf) = (3, []) := by
  refine ⟨.directFirst (by decide +kernel) rfl (.read (.inl rfl) rfl (undelivered_nil rfl)), fun h => ?_,
    by decide +kernel⟩
  obtain ⟨-, pe, ⟨es, ht, he⟩, -⟩ := h
  have hrun : (((attempt corpConfig closedHop (plainGet (str "a.corp") ⟨∅⟩) (.routed 0)).run .init).2.trace.filterMap
      errorOf) = [] := by decide +kernel
  rw [ht, List.filterMap_append, he] at hrun
  cases hrun

end SP.Proof
