import SpnegoProxy.Proof.Session.Routes

/-!
# When a tunnel's payload may flow

`Gated c es`: in the events `es` no byte that the client sent after a
`CONNECT` request's head is written on `c` before the upstream's final `2xx`
response was read and its status line written to the client.
`handleConnectTunnel` keeps to that, but the request itself is written before
it, with whatever body its framing announces: `connect_gated_iff` says that
the gate holds for exactly the requests without a body.
-/

namespace SP.Proof

open SP.Go SP.Impl

/-- A `2xx` response. -/
def isSuccess (resp : Response) : Bool := 200 ≤ resp.statusCode && resp.statusCode < 300

/-- What the payload on `c` waits for. -/
structure Gated (c : ConnId) (es : List Event) : Prop where
  opened {p q : List Event} {bs : Str} : es = p ++ .payload c bs :: q →
    ∃ a resp b, p = a ++ .recv c resp :: b ∧ isSuccess resp = true ∧
      .wrote (.connectOK resp) none ∈ b
  refused {resp : Response} {bs : Str} : .recv c resp ∈ es → isInterimResponse resp = false →
    isSuccess resp = false → .payload c bs ∉ es

/-- Without payload there is nothing to gate. -/
theorem Gated.of_none {c : ConnId} {es : List Event} (h : ∀ bs, .payload c bs ∉ es) : Gated c es :=
  ⟨fun {p q bs} he => absurd (he ▸ by simp) (h bs), fun _ _ _ => h _⟩

/-- An event before the final response on `c`: no payload, and no other final
response. -/
def Early (c : ConnId) (e : Event) : Prop :=
  (∀ bs, e ≠ .payload c bs) ∧ ∀ r, e = .recv c r → isInterimResponse r = true

/-- A tunnel that was opened after a success. -/
theorem Gated.of_opened {c : ConnId} {resp : Response} {a b : List Event} (ha : ∀ e ∈ a, Early c e)
    (hs : isSuccess resp = true) (hb : ∀ r, .recv c r ∉ b) :
    Gated c (a ++ .recv c resp :: .wrote (.connectOK resp) none :: b) := by
  refine ⟨fun {p q bs} he => ?_, fun {r bs} hr hi hf => ?_⟩
  · rcases List.append_eq_append_iff.mp he with ⟨p', rfl, hp'⟩ | ⟨a', rfl, ha'⟩
    · rcases p' with _ | ⟨e₁, _ | ⟨e₂, p'⟩⟩
      · simp at hp'
      · simp at hp'
      · simp only [List.cons_append, List.cons.injEq] at hp'
        obtain ⟨rfl, rfl, -⟩ := hp'
        exact ⟨a, resp, _, rfl, hs, List.mem_cons_self⟩
    · -- the payload would stand before the response
      cases a' with
      | nil => simp at ha'
      | cons e a' =>
        simp only [List.cons_append, List.cons.injEq] at ha'
        exact absurd ha'.1.symm ((ha e (by simp)).1 bs)
  · rcases List.mem_append.mp hr with hr | hr
    · rw [(ha _ hr).2 r rfl] at hi
      cases hi
    · rcases List.mem_cons.mp hr with hr | hr
      · cases hr
        rw [hs] at hf
        cases hf
      · rcases List.mem_cons.mp hr with hr | hr
        · cases hr
        · exact absurd hr (hb r)

section

variable (cfg : Config) (env : Env)

/-- From `w` to `w'` the session added the events `es`. -/
def Added (es : List Event) (w w' : World) : Prop := w'.trace = w.trace ++ es

theorem Added.trans {es es' : List Event} {w w' w'' : World} (h : Added es w w')
    (h' : Added es' w' w'') : Added (es ++ es') w w'' := by
  rw [Added] at *
  rw [h', h, List.append_assoc]

theorem Ext.added {P : Event → Prop} {w w' : World} (h : Ext P w w') :
    ∃ es, Added es w w' ∧ ∀ e ∈ es, P e :=
  h.trace

/-- The reads of responses end with the final response, if they find one. -/
theorem readThroughInterim_early (c : ConnId) (req : Request)
    (reader : List Wire → Except RespErr Response × List Wire) (n : Nat) (w : World) :
    WP (readThroughInterim env req (readOne c reader) n) w fun x w' =>
      ∃ es, (∀ e ∈ es, Early c e) ∧ Added (es ++ (x.resp.map (Event.recv c)).toList) w w' ∧
        ∀ r, x.resp = some r → isInterimResponse r = false := by
  induction n generalizing w with
  | zero => exact ⟨[], by simp, (List.append_nil _).symm, fun _ h => nomatch h⟩
  | succ n ih =>
    have hone : WP (readOne c reader) w fun x w' =>
        (∀ e, x = .error e → Added [] w w') ∧ ∀ r, x = .ok r → Added [.recv c r] w w' := by
      refine WP.bind_iff.mpr (WP.get_iff.mpr (WP.bind_iff.mpr (WP.modify_iff.mpr ?_)))
      cases (reader (w.inbox c)).1 with
      | error e => exact ⟨fun _ _ => (List.append_nil _).symm, fun _ h => nomatch h⟩
      | ok r => exact ⟨fun _ h => (nomatch h), fun _ h => by cases h; rfl⟩
    refine WP.bind_iff.mpr (hone.mono fun x w₁ ⟨herr, hok⟩ => ?_)
    cases x with
    | error e => exact ⟨[], by simp, herr e rfl, fun _ h => nomatch h⟩
    | ok r =>
      have hw₁ := hok r rfl
      refine WP.ite (fun hf => ⟨[], by simp, hw₁, fun _ h => by cases h; exact hf⟩) fun hf => ?_
      have hr : Early c (.recv c r) :=
        ⟨fun _ h => (nomatch h), fun _ h => by cases h; exact eq_true_of_ne_false hf⟩
      have hstop : ∀ {es : List Event} {w' : World}, (∀ e ∈ es, Early c e) → Added es w w' →
          ∃ es, (∀ e ∈ es, Early c e) ∧ Added (es ++ []) w w' ∧ ∀ r, none = some r →
            isInterimResponse r = false :=
        fun {es _} he ha => ⟨es, he, by rwa [List.append_nil], fun _ h => nomatch h⟩
      refine WP.ite (fun _ => hstop (by simpa using hr) hw₁) fun _ => ?_
      have hrelay : Moves (Ext fun e => ∃ m err, e = .wrote m err) (relayInterimResponse env req r) :=
        relayInterimResponse_moves env (fun m err => emit_moves ⟨m, err, rfl⟩) req r
      refine WP.bind_iff.mpr ((hrelay w₁).mono fun e w₂ h₂ => ?_)
      obtain ⟨es₂, ha₂, hm₂⟩ := h₂.added
      have he₂ : ∀ e ∈ .recv c r :: es₂, Early c e := by
        intro e he
        rcases List.mem_cons.mp he with rfl | he
        · exact hr
        · obtain ⟨m, err, rfl⟩ := hm₂ e he
          exact ⟨fun _ h => (nomatch h), fun _ h => nomatch h⟩
      cases e with
      | some werr => exact hstop he₂ (hw₁.trans ha₂)
      | none =>
        refine (ih w₂).mono fun x w₃ ⟨es₃, he₃, ha₃, hf₃⟩ => ?_
        refine ⟨.recv c r :: es₂ ++ es₃, fun e he => ?_, ?_, hf₃⟩
        · rcases List.mem_append.mp he with he | he
          · exact he₂ e he
          · exact he₃ e he
        · rw [List.append_assoc]; exact (hw₁.trans ha₂).trans ha₃

theorem writeClient_added (m : ClientMsg) (w : World) :
    WP (writeClient env m) w fun err w' => Added [.wrote m err] w w' := rfl

theorem forwardTunnel_added (c : ConnId) (steps : List TunnelStep) (w : World) :
    WP (forwardTunnel env c steps) w fun _ w' => ∃ es, Added es w w' ∧ ∀ r, .recv c r ∉ es := by
  have hm : Moves (Ext fun e => ∀ r, .recv c r ≠ e) (forwardTunnel env c steps) :=
    forwardTunnel_moves env (fun _ => emit_moves fun _ h => nomatch h)
      (fun _ _ => emit_moves fun _ h => nomatch h) steps
  refine (hm w).mono fun _ w' h => ?_
  obtain ⟨es, ha, he⟩ := h.added
  exact ⟨es, ha, fun r hr => he _ hr r rfl⟩

/-- `handleConnectTunnel` gates the payload, whatever the upstream sends. -/
theorem handleConnectTunnel_gated (c : ConnId) (req : Request) (w : World) :
    WP (handleConnectTunnel cfg env c req) w fun _ w' =>
      ∃ es, Added es w w' ∧ ∀ a, (∀ e ∈ a, Early c e) → Gated c (a ++ es) := by
  refine WP.bind_iff.mpr (WP.bind_iff.mpr (WP.get_iff.mpr ?_))
  refine (readThroughInterim_early env c req _ _ w).mono fun x w₁ ⟨es, he, ha, hf⟩ => ?_
  -- without a tunnel the session adds a message to the client at most
  have hshut : ∀ {w' : World} {m : List Event}, Added m w₁ w' → (∀ e ∈ m, ∀ bs, e ≠ .payload c bs) →
      ∃ es, Added es w w' ∧ ∀ a, (∀ e ∈ a, Early c e) → Gated c (a ++ es) := by
    intro w' m hm hmp
    refine ⟨_, ha.trans hm, fun a hea => Gated.of_none fun bs hb => ?_⟩
    simp only [List.mem_append] at hb
    rcases hb with hb | (hb | hb) | hb
    · exact (hea _ hb).1 bs rfl
    · exact (he _ hb).1 bs rfl
    · cases hx : x.resp <;> simp [hx] at hb
    · exact hmp _ hb bs rfl
  have hnone : ∃ es, Added es w w₁ ∧ ∀ a, (∀ e ∈ a, Early c e) → Gated c (a ++ es) :=
    hshut (m := []) (List.append_nil _).symm (by simp)
  refine WP.ite (fun _ => hnone) fun _ => ?_
  split
  · exact (writeClient_added env _ w₁).mono fun err w₂ hw => hshut hw (by simp)
  · exact hnone
  · rename_i resp _ hresp
    refine WP.ite (fun _ => ?_) fun hs => ?_
    · exact (writeClient_added env _ w₁).mono fun err w₂ hw => hshut hw (by simp)
    refine WP.bind_iff.mpr ((writeClient_added env _ w₁).mono fun err w₂ hw => ?_)
    refine WP.ite (fun herr => ?_) fun _ => hshut hw (by simp)
    subst herr
    refine WP.bind_iff.mpr (ask_iff.mpr ?_)
    refine (forwardTunnel_added env c _ w₂).mono fun _ w₃ ⟨es₃, ha₃, hr₃⟩ => ?_
    refine ⟨_, (ha.trans hw).trans ha₃, fun a hea => ?_⟩
    have hsucc : isSuccess resp = true := by
      simp only [isSuccess, Bool.and_eq_true, decide_eq_true_eq]
      omega
    have hearly : ∀ e ∈ a ++ es, Early c e := fun e hm => by
      rcases List.mem_append.mp hm with hm | hm
      · exact hea e hm
      · exact he e hm
    have := Gated.of_opened hearly hsucc hr₃
    simpa [hresp] using this

/-- A request that has a body to read after its head. -/
def hasBody : Body → Bool
  | .noBody => false
  | .length n => n ≠ 0
  | .chunked => true

theorem bodyBytes_of_noBody {b : Body} (h : hasBody b = false) (bs : Str) : bodyBytes b bs = [] := by
  cases b with
  | noBody => rfl
  | length n => simp_all [hasBody, bodyBytes]
  | chunked => cases h

theorem bodyBytes_of_hasBody {b : Body} (h : hasBody b = true) (x : UInt8) :
    bodyBytes b [x] = [x] := by
  cases b with
  | noBody => cases h
  | length n =>
    cases n with
    | zero => simp [hasBody] at h
    | succ n => simp [bodyBytes]
  | chunked => rfl

/-- A request without a body is written as its head. -/
theorem writeRequest_noBody {c : ConnId} {req : Request} (hbody : hasBody req.body = false)
    (w : World) :
    WP (writeRequest env c req) w fun _ w' => ∃ answer, Added [.sent c req answer] w w' := by
  refine WP.bind_iff.mpr (ask_iff.mpr (WP.bind_iff.mpr (ask_iff.mpr (WP.bind_iff.mpr (ask_iff.mpr ?_)))))
  refine WP.bind_iff.mpr (WP.modify_iff.mpr (WP.bind_iff.mpr (emit_iff.mpr ?_)))
  refine WP.ite (fun hn => absurd (bodyBytes_of_noBody hbody _) hn) fun _ => ?_
  exact ⟨env.answer c req w.trace, rfl⟩

/-- A request with a body is written as its head and then its body. -/
theorem writeRequest_body {c : ConnId} {req : Request} {w : World} {bs : Str}
    (hbs : bodyBytes req.body (env.body req w.trace) = bs) (hn : bs ≠ []) :
    WP (writeRequest env c req) w fun err w' => err = env.writeRequest c req w.trace ∧
      Added [.sent c req (env.answer c req w.trace), .payload c bs] w w' := by
  refine WP.bind_iff.mpr (ask_iff.mpr (WP.bind_iff.mpr (ask_iff.mpr (WP.bind_iff.mpr (ask_iff.mpr ?_)))))
  refine WP.bind_iff.mpr (WP.modify_iff.mpr (WP.bind_iff.mpr (emit_iff.mpr ?_)))
  rw [hbs]
  refine WP.ite (fun _ => ?_) fun h => absurd hn h
  exact ⟨rfl, List.append_assoc _ _ _⟩

theorem tunnelViaUpstream_gated {req : Request} (hbody : hasBody req.body = false) (w : World) :
    WP (tunnelViaUpstream cfg env req) w fun _ w' => ∃ es, Added es w w' ∧ Gated w.conns es := by
  have hauth := dialAndAuthUpstream_ok env (P := fun e => ∀ c bs, e ≠ .payload c bs)
    (fun _ _ _ h => nomatch h) (fun _ _ h => nomatch h) fun _ _ _ _ h => nomatch h
  refine WP.bind_iff.mpr (ask_iff.mpr (WP.bind_iff.mpr ((hauth _ w).mono fun o w₁ ⟨hf, hd⟩ => ?_)))
  cases o with
  | none =>
    obtain ⟨es, ha, he⟩ := (hf rfl).added
    exact ⟨es, ha, Gated.of_none fun bs hb => he _ hb _ bs rfl⟩
  | some x =>
    obtain ⟨c, r⟩ := x
    obtain ⟨rfl, token, rfl, rfl⟩ := hd c r rfl
    have hbody' : hasBody (withVia cfg (authorised token
        (forwarded cfg (env.obfuscatedID w.trace) req))).body = false := hbody
    refine WP.bind_iff.mpr (WP.bind_iff.mpr ((writeRequest_noBody env hbody' _).mono fun err w₂ ⟨answer, ha₂⟩ => ?_))
    have ha₁ : Added [.token (.ok token), .dial w.conns .upstream] w
        { w with trace := w.trace ++ [.token (.ok token), .dial w.conns .upstream],
                 conns := w.conns + 1 } := rfl
    have ha := ha₁.trans ha₂
    have hearly : ∀ r,
      ∀ e ∈ [Event.token (.ok token), .dial w.conns .upstream] ++ [.sent w.conns r answer],
        Early w.conns e := by simp [Early]
    refine WP.ite (fun _ => ?_) fun _ => ?_
    · refine WP.bind_iff.mpr ((writeClient_added env _ w₂).mono fun err w₃ ha₃ => ?_)
      exact ⟨_, ha.trans ha₃, Gated.of_none fun bs hb => by simp at hb⟩
    · refine (handleConnectTunnel_gated cfg env _ _ w₂).mono fun _ w₃ ⟨es, ha₃, hg⟩ => ?_
      exact ⟨_, ha.trans ha₃, hg _ (hearly _)⟩

/-- A client that sends one byte after the head of its `CONNECT` request, and
an upstream that never answers. -/
def eagerEnv : Env := { scripted [] [] [] with body := fun _ _ => [0x78] }

/-- The body of a request is written before any response is read. -/
theorem tunnelViaUpstream_eager {req : Request} (hbody : hasBody req.body = true) :
    WP (tunnelViaUpstream cfg eagerEnv req) World.init fun _ w' =>
      ∃ r q, Added ([.token (.ok []), .dial 0 .upstream, .sent 0 r []] ++ .payload 0 [0x78] :: q)
        World.init w' := by
  let fwd := authorised [] (forwarded cfg [] req)
  have hauth : (dialAndAuthUpstream eagerEnv (forwarded cfg [] req)).run World.init =
      (some (0, fwd),
        { World.init with trace := [.token (.ok []), .dial 0 .upstream], conns := 1 }) := rfl
  have hbs : bodyBytes (withVia cfg fwd).body [0x78] = [0x78] := bodyBytes_of_hasBody hbody _
  refine WP.bind_iff.mpr (ask_iff.mpr (WP.bind_iff.mpr (WP.of_run hauth (WP.bind_iff.mpr (WP.bind_iff.mpr ?_)))))
  refine (writeRequest_body eagerEnv hbs (by simp)).mono fun err w₂ ⟨herr, ha₂⟩ => ?_
  refine WP.ite (fun hn => absurd herr hn) fun _ => ?_
  refine (handleConnectTunnel_gated cfg eagerEnv _ _ w₂).mono fun _ w₃ ⟨es, ha₃, _⟩ => ?_
  refine ⟨withVia cfg fwd, es, ?_⟩
  exact ha₂.trans ha₃

/-- The payload of a `CONNECT` request through the upstream proxy is gated in
every environment exactly when the request has no body. -/
theorem connect_gated_iff {req : Request} (hm : req.method = methodConnect)
    (hb : cfg.bypasses req.host = false) :
    (∀ env n w es, Added es w (routeRequest cfg env n req w).2 → Gated w.conns es) ↔
      hasBody req.body = false := by
  have hroute : ∀ (env : Env) (n : Nat) (w : World) (Q : World → Prop),
      WP (tunnelViaUpstream cfg env req) w (fun _ w' => Q w') → Q (routeRequest cfg env n req w).2 := by
    intro env n w Q h
    rw [routeRequest, Runtime.routeRequest, if_neg (by simp [hb]), if_pos hm]
    exact h
  constructor
  · intro h
    by_contra hbody
    have hbody : hasBody req.body = true := eq_true_of_ne_false hbody
    obtain ⟨r, q, ha⟩ := hroute eagerEnv 0 World.init _ (tunnelViaUpstream_eager cfg hbody)
    obtain ⟨a, resp, b, hp, -⟩ := (h eagerEnv 0 World.init _ ha).opened rfl
    have hmem : .recv World.init.conns resp ∈ [Event.token (.ok []), .dial 0 .upstream,
      .sent 0 r []] := by
      rw [hp]; simp
    simp at hmem
  · intro hbody env n w es ha
    obtain ⟨es', ha', hg⟩ := hroute env n w _ (tunnelViaUpstream_gated cfg env hbody w)
    rwa [List.append_cancel_left (ha.symm.trans ha')]

end

/-- A `CONNECT` request with the framing `body`. -/
def connectRequest (body : Body) : Request :=
  { plainGet (str "example.com:443") ⟨∅⟩ with method := methodConnect, body := body }

theorem connect_gated_iff_plain :
    (∀ env n w es, Added es w (routeRequest plainConfig env n (connectRequest .noBody) w).2 →
      Gated w.conns es) ∧
    ¬ ∀ env n w es, Added es w (routeRequest plainConfig env n (connectRequest .chunked) w).2 →
      Gated w.conns es :=
  ⟨(connect_gated_iff plainConfig rfl rfl).mpr rfl,
    fun h => nomatch (connect_gated_iff plainConfig rfl rfl).mp h⟩

/-- The bytes after a `CONNECT` request's head that an event writes out. -/
def payloadAt (tr : List Event) (i : Nat) : Option (ConnId × Str) :=
  match tr[i]? with
  | some (.payload c bs) => some (c, bs)
  | _ => none

theorem split_of_payloadAt {tr : List Event} {i : Nat} {c : ConnId} {bs : Str}
    (h : payloadAt tr i = some (c, bs)) : tr = tr.take i ++ .payload c bs :: tr.drop (i + 1) := by
  simp only [payloadAt] at h
  split at h
  · rename_i he
    cases h
    exact split_of_getElem he
  · cases h

/-- A client that announces five bytes after its `CONNECT`, and an upstream
that refuses the tunnel. -/
def connectSample : Env :=
  { scripted [connectRequest (.length 5)] (str "dG9r") [.head (plainResponse 403)] with
    body := fun _ _ => str "hello" }

/-- The five bytes are on the upstream connection before the refusal is read. -/
theorem connectSample_not_gated : ¬ Gated 0 (run plainConfig connectSample 1).trace := by
  have hp : payloadAt (run plainConfig connectSample 1).trace 4 = some (0, str "hello") :=
    by decide +kernel
  have hr : (((run plainConfig connectSample 1).trace.take 4).all fun | .recv _ _ => false | _ => true) =
      true := by decide +kernel
  intro hg
  obtain ⟨a, resp, b, hsplit, -⟩ := hg.opened (split_of_payloadAt hp)
  have hmem : .recv 0 resp ∈ (run plainConfig connectSample 1).trace.take 4 := by rw [hsplit]; simp
  exact nomatch List.all_eq_true.mp hr _ hmem

end SP.Proof
