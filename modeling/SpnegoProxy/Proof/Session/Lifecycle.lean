import SpnegoProxy.Proof.Session.Lease

/-!
# Connections from dial to close

What a handler does keeps to the steps of a `Lease`, part by part
(`Holding`), and when the session is over nothing is held (`Released`). The
session under it is that of `run`: the deferred closes change nothing else
(`Follows`).
-/

namespace SP.Proof.Life

open SP.Go SP.Impl SP.Impl.Life

variable {cfg : Config} {env : Env} {base : List Entry} {k : Nat} {s s' : Lease} {w w' : World}

/-! ## Parts of a session -/

/-- After the log `base`, which stood when the trace had `k` events, the
session holds `s`. -/
structure Holding (cfg : Config) (base : List Entry) (k : Nat) (s : Lease) (w : World) : Prop where
  leased : Leased cfg (base ++ (w.trace.drop k).map .event) s
  since : k ≤ w.trace.length
  before : base.filterMap performed = w.trace.take k
  kept : w.proxyConn = s.kept
  conns : w.conns = s.dialled

/-- One event more. -/
theorem Holding.next {e : Event} (h : Holding cfg base k s w) (ht : w'.trace = w.trace ++ [e])
    (hs : s.Step cfg (.event e) s') (hk : w'.proxyConn = s'.kept) (hc : w'.conns = s'.dialled) :
    Holding cfg base k s' w' where
  leased := by
    rw [ht, List.drop_append_of_le_length h.since, List.map_append, ← List.append_assoc]
    exact h.leased.snoc hs
  since := by
    have := h.since
    rw [ht, List.length_append]
    omega
  before := by rw [ht, List.take_append_of_le_length h.since]; exact h.before
  kept := hk
  conns := hc

/-- A connection is dialled. -/
theorem Holding.dials {c : ConnId} {t : Target} (h : Holding cfg base k s w)
    (hs : s.Step cfg (.event (.dial c t)) s')
    (hk : s'.kept = s.kept) (hc : s'.dialled = s.dialled + 1) :
    Holding cfg base k s' { w with trace := w.trace ++ [.dial c t], conns := w.conns + 1 } := by
  refine h.next rfl hs (h.kept.trans hk.symm) ?_
  rw [hc, ← h.conns]

/-- The event changes nothing that is held. -/
abbrev Harmless (cfg : Config) (s : Lease) (e : Event) : Prop := s.Step cfg (.event e) s

theorem Holding.ext (h : Holding cfg base k s w) (he : Ext (Harmless cfg s) w w') :
    Holding cfg base k s w' := by
  obtain ⟨⟨es, ht, hes⟩, hk, hc⟩ := he
  have hleased : Leased cfg (base ++ ((w.trace ++ es).drop k).map .event) s := by
    clear ht
    induction es using List.reverseRecOn with
    | nil => rw [List.append_nil]; exact h.leased
    | append_singleton es e ih =>
      have hlen : k ≤ (w.trace ++ es).length := by
        have := h.since
        rw [List.length_append]
        omega
      rw [← List.append_assoc, List.drop_append_of_le_length hlen, List.map_append, ← List.append_assoc]
      exact (ih fun e he => hes e (List.mem_append_left _ he)).snoc (hes e (by simp))
  refine ⟨by rw [ht]; exact hleased, ?_, ?_, hk.trans h.kept, hc.trans h.conns⟩
  · have := h.since
    rw [ht, List.length_append]
    omega
  · rw [ht, List.take_append_of_le_length h.since]
    exact h.before

theorem wrote_harmless {m : ClientMsg} {err : Option Str} :
    Moves (Ext (Harmless cfg s)) (emit (.wrote m err)) :=
  emit_moves .wrote

theorem writeHTTPError_holding {pe : ProxyError} (h : Holding cfg base k s w) :
    WP (writeHTTPError env pe) w fun _ w' => Holding cfg base k s w' :=
  (writeHTTPError_moves env (fun _ => wrote_harmless) w).mono fun _ _ he => h.ext he

theorem readRequest_holding (h : Holding cfg base k s w) :
    WP (readRequest env) w fun x w' => (∀ r, x = .ok r → Holding cfg base k { s with raw := some r, token := none } w') ∧
      ∀ err, x = .error err → Holding cfg base k s w' := by
  refine WP.bind_iff.mpr (ask_iff.mpr (WP.bind_iff.mpr (emit_iff.mpr (WP.pure_iff.mpr ⟨?_, ?_⟩))))
  · intro r hr
    rw [hr]
    exact h.next rfl .read h.kept h.conns
  · intro err herr
    rw [herr]
    exact h.next rfl .readFailed h.kept h.conns

theorem validateRequest_holding {raw : Request} (h : Holding cfg base k s w) :
    WP (validateRequest cfg env raw) w fun v w' => Holding cfg base k s w' ∧
      ∀ r, v = .proceed r → verdict cfg raw = .proceed r := by
  have hw : ∀ m err, Moves (Ext (Harmless cfg s)) (emit (.wrote (.maxForwards m) err)) :=
    fun _ _ => wrote_harmless
  exact (validateRequest_ok cfg env hw raw w).mono fun v w' hv => ⟨h.ext hv.1, hv.2⟩

/-- A dial fails, or gives the connection with the next number. -/
theorem dial_holding {t : Target} {s' : Lease} (hs : s.Step cfg (.event (.dial s.dialled t)) s')
    (hk : s'.kept = s.kept) (hc : s'.dialled = s.dialled + 1) (h : Holding cfg base k s w) :
    WP (dial env t) w fun x w' => (∀ err, x = .error err → Holding cfg base k s w') ∧
      ∀ c, x = .ok c → c = s.dialled ∧ Holding cfg base k s' w' := by
  refine (dial_ok env (P := Harmless cfg s) .dialFailed w).mono fun x w' hx => ⟨fun err he => ?_, fun c hxc => ?_⟩
  · exact h.ext (hx.1 err he)
  · obtain ⟨rfl, rfl⟩ := hx.2 c hxc
    rw [← h.conns] at hs
    exact ⟨h.conns, h.dials hs hk hc⟩

section

variable {c : ConnId} {req : Request} {reader : List Wire → Except RespErr Response × List Wire}

theorem readFinal_harmless (hu : s.Uses c) :
    Moves (Ext (Harmless cfg s)) (readFinal env c req reader) := by
  refine Moves.get.bind fun _ => readThroughInterim_moves env (fun _ _ => wrote_harmless) ?_ _
  refine Moves.get.bind fun w => (setInbox_moves _).bind fun _ => ?_
  split
  · exact (emit_moves (.recv hu)).bind fun _ => .pure _
  · exact .pure _

theorem forwardTunnel_harmless (hu : s.Uses c) (steps : List TunnelStep) :
    Moves (Ext (Harmless cfg s)) (forwardTunnel env c steps) :=
  forwardTunnel_moves env (fun _ => emit_moves (.payload hu)) (fun _ _ => wrote_harmless) steps

theorem handleConnectTunnel_harmless (hu : s.Uses c) :
    Moves (Ext (Harmless cfg s)) (handleConnectTunnel cfg env c req) := by
  have hw : ∀ m, Moves (Ext (Harmless cfg s)) (writeClient env m) := fun m =>
    writeClient_moves env fun _ => wrote_harmless
  refine (readFinal_harmless hu).bind fun r => .ite (fun _ => .pure _) fun _ => ?_
  split
  · exact writeHTTPError_moves env fun _ => wrote_harmless
  · exact .pure _
  · refine .ite (fun _ => Moves.get.bind fun _ => (hw _).bind fun _ => .pure _) fun _ => (hw _).bind fun _ => ?_
    exact .ite (fun _ => (ask_moves _).bind fun _ => forwardTunnel_harmless hu _) fun _ => .pure _

/-- A request is written, and its body on the same connection. -/
theorem writeRequest_holding (hs : ∀ answer, s.Step cfg (.event (.sent c req answer)) s')
    (hu : s'.Uses c)
    (hk : s'.kept = s.kept) (hc : s'.dialled = s.dialled) (h : Holding cfg base k s w) :
    WP (writeRequest env c req) w fun _ w' => Holding cfg base k s' w' := by
  refine WP.bind_iff.mpr (ask_iff.mpr (WP.bind_iff.mpr (ask_iff.mpr (WP.bind_iff.mpr (ask_iff.mpr ?_)))))
  refine WP.bind_iff.mpr (WP.modify_iff.mpr (WP.bind_iff.mpr (emit_iff.mpr ?_)))
  have hsent (inbox : ConnId → List Wire) (answer : List Wire) :
      Holding cfg base k s' { w with inbox := inbox, trace := w.trace ++ [.sent c req answer] } :=
    h.next rfl (hs answer) (h.kept.trans hk.symm) (h.conns.trans hc.symm)
  refine WP.ite (fun _ => ?_) fun _ => hsent _ _
  exact (hsent _ _).next rfl (.payload hu) (h.kept.trans hk.symm) (h.conns.trans hc.symm)

theorem exchangeRequest_holding (hs : ∀ answer, s.Step cfg (.event (.sent c req answer)) s')
    (hu : s'.Uses c)
    (hk : s'.kept = s.kept) (hc : s'.dialled = s.dialled) (h : Holding cfg base k s w) :
    WP (exchangeRequest env c req reader) w fun _ w' => Holding cfg base k s' w' := by
  refine WP.ite (fun _ => ?_) fun _ => ?_
  · refine WP.bind_iff.mpr ((writeRequest_holding hs hu hk hc h).mono fun err w' h' => ?_)
    cases err with
    | some werr => exact h'
    | none => exact WP.bind_iff.mpr ((readFinal_harmless hu w').mono fun _ _ he => h'.ext he)
  · refine WP.bind_iff.mpr ((writeRequest_holding hs hu hk hc h).mono fun _ w' h' => ?_)
    exact WP.bind_iff.mpr ((readFinal_harmless hu w').mono fun _ _ he => h'.ext he)

theorem finishRelay_holding {x : Exchange} {onErr : RespErr → Prog Unit}
    (he : ∀ e, Moves (Ext (Harmless cfg s)) (onErr e)) (h : Holding cfg base k s w) :
    WP (finishRelay env c req x onErr) w fun _ w' => Holding cfg base k s w' :=
  (finishRelay_moves env (fun _ _ => wrote_harmless) setInbox_moves c req x he w).mono fun _ _ he => h.ext he

end

/-! ## Direct connections -/

/-- The session is about to write `req` on the direct connection `c`. -/
structure Bound (cfg : Config) (c : ConnId) (host : Str) (s : Lease) (req : Request) : Prop where
  conn : ∃ addr, s.current = some (c, .direct host addr)
  served : ∃ raw r, s.raw = some raw ∧ verdict cfg raw = .proceed r ∧ req = withVia cfg r ∧
    sameHost raw.host host (str "80") = true

section

variable {c : ConnId} {host addr : Str} {req : Request}

theorem relayDirect_holding (hb : Bound cfg c host s req) (h : Holding cfg base k s w) :
    WP (relayDirect cfg env c req) w fun _ w' => Holding cfg base k s w' := by
  obtain ⟨⟨addr, hcur⟩, raw, r, hraw, hv, rfl, hsame⟩ := hb
  have hs : ∀ answer, s.Step cfg (.event (.sent c (withVia cfg r) answer)) s := fun answer =>
    .sentDirect hcur hraw hv hsame
  refine WP.bind_iff.mpr ((exchangeRequest_holding hs (.current hcur) rfl rfl h).mono fun x w' h' => ?_)
  exact finishRelay_holding (fun _ => .pure _) h'

/-- The next request of a direct connection is read: only what was read changes. -/
theorem nextDirectRequest_holding (hcur : s.current = some (c, .direct host addr))
    (h : Holding cfg base k s w) :
    WP (nextDirectRequest cfg env host) w fun x w' => ∃ s', Holding cfg base k s' w' ∧
      s'.current = s.current ∧ (∀ req, x = .reroute req → s'.raw = some req ∧ s'.token = none) ∧
      ∀ req, x = .relay req → Bound cfg c host s' req := by
  refine WP.bind_iff.mpr ((readRequest_holding h).mono fun x w' hx => ?_)
  cases x with
  | error err => exact WP.pure_iff.mpr ⟨s, hx.2 err rfl, rfl, by simp, by simp⟩
  | ok raw =>
    have hr := hx.1 raw rfl
    refine WP.ite (fun _ => WP.pure_iff.mpr ⟨_, hr, rfl, by simp, by simp⟩) fun hsame => ?_
    refine WP.bind_iff.mpr ((validateRequest_holding hr).mono fun v w'' hv => ?_)
    obtain ⟨hv', hproceed⟩ := hv
    cases v with
    | answered => exact WP.pure_iff.mpr ⟨_, hv', rfl, by simp, by simp⟩
    | reject pe =>
      refine WP.bind_iff.mpr ((writeHTTPError_holding hv').mono fun _ w₃ h₃ => ?_)
      exact WP.pure_iff.mpr ⟨_, h₃, rfl, by simp, by simp⟩
    | proceed r =>
      refine WP.ite (fun _ => ?_) fun _ => WP.pure_iff.mpr ⟨_, hv', rfl, by simp, fun req he => ?_⟩
      · refine WP.bind_iff.mpr ((writeHTTPError_holding hv').mono fun _ w₃ h₃ => ?_)
        exact WP.pure_iff.mpr ⟨_, h₃, rfl, by simp, by simp⟩
      · cases he
        exact ⟨⟨addr, hcur⟩, raw, r, rfl, hproceed r rfl, rfl, by simpa using hsame⟩

theorem directLoop_holding (n : Nat) (hcur : s.current = some (c, .direct host addr))
    (hb : Bound cfg c host s req) (h : Holding cfg base k s w) :
    WP (directLoop cfg env c host n req) w fun o w' => ∃ s', Holding cfg base k s' w' ∧ s'.current = s.current ∧
      ∀ req, o = some req → s'.raw = some req ∧ s'.token = none := by
  induction n generalizing req s w with
  | zero => exact WP.pure_iff.mpr ⟨s, h, rfl, by simp⟩
  | succ n ih =>
    refine WP.bind_iff.mpr ((relayDirect_holding hb h).mono fun goesOn w₁ h₁ => ?_)
    refine WP.ite (fun _ => WP.pure_iff.mpr ⟨s, h₁, rfl, by simp⟩) fun _ => ?_
    refine WP.bind_iff.mpr ((nextDirectRequest_holding hcur h₁).mono fun x w₂ hx => ?_)
    obtain ⟨s₂, h₂, hcur₂, hre, hrelay⟩ := hx
    cases x with
    | stop => exact WP.pure_iff.mpr ⟨s₂, h₂, hcur₂, by simp⟩
    | reroute req' =>
      refine WP.pure_iff.mpr ⟨s₂, h₂, hcur₂, fun req'' he => ?_⟩
      cases he
      exact hre req' rfl
    | relay req' =>
      refine (ih (hcur₂.trans hcur) (hrelay req' rfl) h₂).mono fun o w₃ ho => ?_
      obtain ⟨s₃, h₃, hcur₃, hnext⟩ := ho
      exact ⟨s₃, h₃, hcur₃.trans hcur₂, hnext⟩

end

/-! ## Through the upstream proxy -/

/-- The session routes `raw`, which the validation made `r` of. -/
structure Routing (cfg : Config) (s : Lease) (raw r : Request) : Prop where
  proceeds : verdict cfg raw = .proceed r
  current : s.current = none
  token : s.token = none
  raw : s.raw = some raw

/-- The method that was running has returned. -/
structure RouteReturned (cfg : Config) (base : List Entry) (k : Nat) (goesOn : Bool) (w : World)
    (s : Lease) : Prop where
  holding : Holding cfg base k s w
  current : s.current = none
  token : goesOn = true → s.token = none

theorem Holding.routeReturned (h : Holding cfg base k s w) (hc : s.current = none) :
    RouteReturned cfg base k false w s :=
  ⟨h, hc, fun hg => by cases hg⟩

/-- A token is got and a connection dialled, or the session ends. -/
theorem dialAndAuthUpstream_holding {req : Request} (h : Holding cfg base k s w)
    (hc : s.current = none) :
    WP (dialAndAuthUpstream env req) w fun o w' => (o = none → ∃ s', RouteReturned cfg base k false w' s') ∧
      ∀ c req', o = some (c, req') → ∃ token w₁, req' = authorised token req ∧
        Holding cfg base k (s.got token) w₁ ∧ c = s.dialled ∧
        w' = { w₁ with trace := w₁.trace ++ [.dial c .upstream], conns := w₁.conns + 1 } := by
  refine WP.bind_iff.mpr (ask_iff.mpr (WP.bind_iff.mpr (emit_iff.mpr ?_)))
  cases hr : env.getToken w.trace with
  | error terr =>
    have h₁ : Holding cfg base k s { w with trace := w.trace ++ [.token (.error terr)] } :=
      h.next rfl .tokenFailed h.kept h.conns
    refine WP.bind_iff.mpr ((writeHTTPError_holding h₁).mono fun _ w' h' => WP.pure_iff.mpr ⟨?_, by simp⟩)
    exact fun _ => ⟨s, h'.routeReturned hc⟩
  | ok token =>
    have h₁ : Holding cfg base k (s.got token) { w with trace := w.trace ++ [.token (.ok token)] } :=
      h.next rfl .token h.kept h.conns
    refine WP.bind_iff.mpr ((dial_ok env (P := Harmless cfg (s.got token)) .dialFailed _).mono fun x w' hx => ?_)
    cases x with
    | error derr =>
      have h₂ := h₁.ext (hx.1 derr rfl)
      refine WP.bind_iff.mpr ((writeHTTPError_holding h₂).mono fun _ w'' h' => WP.pure_iff.mpr ⟨?_, by simp⟩)
      exact fun _ => ⟨_, h'.routeReturned hc⟩
    | ok c =>
      obtain ⟨hconns, hw'⟩ := hx.2 c rfl
      refine WP.pure_iff.mpr ⟨by simp, fun c' req' he => ?_⟩
      cases he
      exact ⟨token, _, rfl, h₁, hconns.trans h.conns, hw'⟩

section

variable {raw r : Request}

/-- The validation keeps the method and the host. -/
theorem Routing.same (hr : Routing cfg s raw r) : r.host = raw.host ∧ r.method = raw.method :=
  verdict_host cfg hr.proceeds

theorem relayViaUpstream_holding (hr : Routing cfg s raw r) (hm : r.method ≠ methodConnect)
    (hb : cfg.bypasses r.host = false) (h : Holding cfg base k s w) :
    WP (relayViaUpstream cfg env r) w fun goesOn w' => ∃ s', RouteReturned cfg base k goesOn w' s' := by
  have herr {s : Lease} : ∀ rerr,
    Moves (Ext (Harmless cfg s)) (writeHTTPError env (upstreamResponseError rerr)) :=
    fun _ => writeHTTPError_moves env fun _ => wrote_harmless
  refine WP.bind_iff.mpr (ask_iff.mpr (WP.bind_iff.mpr (WP.bind_iff.mpr (WP.get_iff.mpr ?_))))
  split
  next c hkept =>
    -- the kept connection is used again
    have hkept : s.kept = some c := h.kept.symm.trans hkept
    have hs : ∀ answer,
      s.Step cfg (.event (.sent c (withVia cfg (forwarded cfg (env.obfuscatedID w.trace) r)) answer)) s :=
      fun answer => .sentAgain (.kept hr.current hkept) hr.raw hr.proceeds hr.token
    have h₁ : Holding cfg base k s { w with proxyConn := some c } :=
      ⟨h.leased, h.since, h.before, hkept.symm, h.conns⟩
    refine WP.pure_iff.mpr (WP.bind_iff.mpr (WP.modify_iff.mpr (WP.bind_iff.mpr ?_)))
    refine (exchangeRequest_holding hs (.kept hr.current hkept) rfl rfl h₁).mono fun x w' h' => ?_
    exact (finishRelay_holding herr h').mono fun _ w'' h'' => ⟨s, h'', hr.current, fun _ => hr.token⟩
  next hnone =>
    have hnone : s.kept = none := h.kept.symm.trans hnone
    refine (dialAndAuthUpstream_holding h hr.current).mono fun o w' ho => ?_
    cases o with
    | none => exact WP.pure_iff.mpr (ho.1 rfl)
    | some x =>
      obtain ⟨c, req⟩ := x
      obtain ⟨token, w₁, rfl, h₁, rfl, rfl⟩ := ho.2 c req rfl
      -- the new connection is kept, and its first request carries the token
      have hdial : (s.got token).Step cfg (.event (.dial s.dialled .upstream)) (s.got token).keeps :=
        .dialKept hr.current hnone (by simp [Lease.got]) hr.raw (hr.same.2 ▸ hm) (hr.same.1 ▸ hb)
      have h₂ : Holding cfg base k (s.got token).keeps { w₁ with
          trace := w₁.trace ++ [.dial s.dialled .upstream], conns := w₁.conns + 1, proxyConn :=
            some s.dialled } :=
        h₁.next rfl hdial rfl (congrArg (· + 1) h₁.conns)
      have hs : ∀ answer,
        (s.got token).keeps.Step cfg (.event (.sent s.dialled (withVia cfg (authorised token
          (forwarded cfg (env.obfuscatedID w.trace) r))) answer)) (s.got token).keeps.spent := fun answer =>
        .sentFirst (.kept hr.current rfl) hr.raw hr.proceeds rfl
      refine WP.bind_iff.mpr (WP.modify_iff.mpr (WP.bind_iff.mpr ?_))
      refine (exchangeRequest_holding hs (.kept hr.current rfl) rfl rfl h₂).mono fun x w' h' => ?_
      exact (finishRelay_holding herr h').mono fun _ w'' h'' => ⟨_, h'', hr.current, fun _ => rfl⟩

end

/-! ## Methods that close what they dial -/

variable {l : Life.State}

theorem part_iff {α : Type} {m : Prog α} {Q : α → Life.State → Prop} :
    WP (deferring.part m) l Q ↔ WP m l.world fun a w =>
      Q a ⟨w, l.log ++ (w.trace.drop l.world.trace.length).map .event⟩ := Iff.rfl

theorem record_iff {e : Entry} {Q : Unit → Life.State → Prop} :
    WP (record e) l Q ↔ Q () { l with log := l.log ++ [e] } := Iff.rfl

/-- The handler holds `s`. -/
structure Has (cfg : Config) (s : Lease) (l : Life.State) : Prop where
  leased : Leased cfg l.log s
  trace : l.log.filterMap performed = l.world.trace
  kept : l.world.proxyConn = s.kept
  conns : l.world.conns = s.dialled

/-- A part of the session starts. -/
theorem Has.enter (h : Has cfg s l) : Holding cfg l.log l.world.trace.length s l.world where
  leased := by rw [List.drop_length, List.map_nil, List.append_nil]; exact h.leased
  since := Nat.le_refl _
  before := by rw [List.take_length]; exact h.trace
  kept := h.kept
  conns := h.conns

/-- It ends. -/
theorem Holding.leave {w' : World} (h : Holding cfg l.log l.world.trace.length s w') :
    Has cfg s ⟨w', l.log ++ (w'.trace.drop l.world.trace.length).map .event⟩ where
  leased := h.leased
  trace := by
    have hevents (es : List Event) : (es.map Entry.event).filterMap performed = es := by
      rw [List.filterMap_map]
      exact List.filterMap_some
    rw [List.filterMap_append, h.before, hevents, List.take_append_drop]
  kept := h.kept
  conns := h.conns

/-- The connection of a method is closed. -/
theorem Has.close {c : ConnId} {t : Target} (h : Has cfg s l) (hc : s.current = some (c, t)) :
    Has cfg s.leaves { l with log := l.log ++ [.closed c] } :=
  ⟨h.leased.snoc (.closeCurrent hc),
    by rw [List.filterMap_append, h.trace]; exact List.append_nil _, h.kept, h.conns⟩

/-- No method is running. -/
structure Rests (cfg : Config) (goesOn : Bool) (l : Life.State) (s : Lease) : Prop where
  has : Has cfg s l
  current : s.current = none
  token : goesOn = true → s.token = none

theorem Has.rests (h : Has cfg s l) (hc : s.current = none) : Rests cfg false l s :=
  ⟨h, hc, fun hg => by cases hg⟩

theorem part_writeHTTPError {pe : ProxyError} (h : Has cfg s l) (hc : s.current = none) :
    WP (part (writeHTTPError env pe)) l fun _ l' => ∃ s', Rests cfg false l' s' :=
  part_iff.mpr ((writeHTTPError_holding h.enter).mono fun _ _ h' => ⟨s, h'.leave.rests hc⟩)

section

variable {raw r : Request}

/-- A direct connection is dialled for the host of the request. -/
theorem Routing.dials (hr : Routing cfg s raw r) (hb : cfg.bypasses r.host = true) (addr : Str) :
    s.Step cfg (.event (.dial s.dialled (.direct r.host addr))) (s.opens (.direct r.host addr)) := by
  obtain ⟨hhost, -⟩ := hr.same
  rw [hhost] at hb ⊢
  exact .dialDirect hr.current hr.raw hb

theorem forwardDirect_rests (n : Nat) (hr : Routing cfg s raw r) (hb : cfg.bypasses r.host = true)
    (h : Has cfg s l) :
    WP (deferring.forwardDirect cfg env n (withVia cfg r)) l fun o l' => ∃ s', Rests cfg o.isSome l' s' ∧
      ∀ req, o = some req → s'.raw = some req := by
  refine WP.bind_iff.mpr (part_iff.mpr ((dial_holding (hr.dials hb _) rfl rfl h.enter).mono fun x w' hx => ?_))
  cases x with
  | error err =>
    refine WP.bind_iff.mpr ((part_writeHTTPError (hx.1 err rfl).leave hr.current).mono fun _ l' h' => ?_)
    obtain ⟨s', hs'⟩ := h'
    exact WP.pure_iff.mpr ⟨s', hs', by simp⟩
  | ok c =>
    obtain ⟨rfl, h₁⟩ := hx.2 c rfl
    have hbound : Bound cfg s.dialled r.host (s.opens (.direct r.host (dialTarget r.host (str "80")))) (withVia cfg r) :=
      ⟨⟨_, rfl⟩, raw, r, hr.raw, hr.proceeds, rfl, by rw [hr.same.1]; exact beq_self_eq_true _⟩
    refine WP.bind_iff.mpr (part_iff.mpr ((directLoop_holding n rfl hbound h₁.leave.enter).mono fun o w'' ho => ?_))
    obtain ⟨s₂, h₂, hcur, hnext⟩ := ho
    refine WP.bind_iff.mpr (record_iff.mpr (WP.pure_iff.mpr ⟨s₂.leaves, ?_, ?_⟩))
    · refine ⟨h₂.leave.close hcur, rfl, fun hsome => ?_⟩
      obtain ⟨req, rfl⟩ := Option.isSome_iff_exists.mp hsome
      exact (hnext req rfl).2
    · exact fun req he => (hnext req he).1

theorem tunnelDirect_rests (hr : Routing cfg s raw r) (hb : cfg.bypasses r.host = true)
    (h : Has cfg s l) :
    WP (deferring.tunnelDirect cfg env r) l fun _ l' => ∃ s', Rests cfg false l' s' := by
  refine WP.bind_iff.mpr (part_iff.mpr ((dial_holding (hr.dials hb _) rfl rfl h.enter).mono fun x w' hx => ?_))
  cases x with
  | error err => exact part_writeHTTPError (hx.1 err rfl).leave hr.current
  | ok c =>
    obtain ⟨rfl, h₁⟩ := hx.2 c rfl
    have hharmless : Moves (Ext (Harmless cfg (s.opens (.direct r.host (dialTarget r.host (str "443"))))))
        (answerTunnel cfg env s.dialled r) := by
      refine (writeClient_moves env fun _ => wrote_harmless).bind fun _ => .ite (fun _ => ?_) fun _ => .pure _
      exact (ask_moves _).bind fun _ => forwardTunnel_harmless (.current rfl) _
    refine WP.bind_iff.mpr (part_iff.mpr ((hharmless _).mono fun _ w'' he => record_iff.mpr ?_))
    exact ⟨_, ((h₁.leave.enter.ext he).leave.close rfl).rests rfl⟩

theorem tunnelViaUpstream_rests (hr : Routing cfg s raw r) (hm : r.method = methodConnect)
    (hb : cfg.bypasses r.host = false) (h : Has cfg s l) :
    WP (deferring.tunnelViaUpstream cfg env r) l fun _ l' => ∃ s', Rests cfg false l' s' := by
  refine WP.bind_iff.mpr (part_iff.mpr (ask_iff.mpr (WP.bind_iff.mpr (part_iff.mpr ?_))))
  refine (dialAndAuthUpstream_holding h.enter.leave.enter hr.current).mono fun o w' ho => ?_
  cases o with
  | none =>
    obtain ⟨s', hi⟩ := ho.1 rfl
    exact WP.pure_iff.mpr ⟨s', hi.holding.leave.rests hi.current⟩
  | some x =>
    obtain ⟨c, req⟩ := x
    obtain ⟨token, w₁, rfl, h₁, rfl, rfl⟩ := ho.2 c req rfl
    have hdial : (s.got token).Step cfg (.event (.dial s.dialled .upstream)) ((s.got token).opens .upstream) :=
      .dialTunnel hr.current (by simp [Lease.got]) hr.raw (hr.same.2 ▸ hm) (hr.same.1 ▸ hb)
    have hs : ∀ answer,
      ((s.got token).opens .upstream).Step cfg (.event (.sent s.dialled (withVia cfg (authorised token
        (forwarded cfg (env.obfuscatedID l.world.trace) r))) answer)) ((s.got token).opens .upstream).spent :=
      fun answer => .sentFirst (.current rfl) hr.raw hr.proceeds rfl
    have h₂ := h₁.dials hdial rfl rfl
    refine WP.bind_iff.mpr (part_iff.mpr (WP.bind_iff.mpr ?_))
    refine (writeRequest_holding hs (.current rfl) rfl rfl h₂.leave.enter).mono fun err w'' h₃ => ?_
    refine WP.ite (fun _ => ?_) fun _ => ?_
    · exact (writeHTTPError_holding h₃).mono fun _ _ h₄ => record_iff.mpr ⟨_, (h₄.leave.close rfl).rests rfl⟩
    · exact (handleConnectTunnel_harmless (.current rfl) w'').mono fun _ _ he =>
        record_iff.mpr ⟨_, ((h₃.ext he).leave.close rfl).rests rfl⟩

/-- After a request was routed, no method is running. -/
theorem routeRequest_rests (n : Nat) (hr : Routing cfg s raw r) (h : Has cfg s l) :
    WP (deferring.routeRequest cfg env n r) l fun x l' => ∃ s', Rests cfg x.2 l' s' ∧
      ∀ req, x.1 = some req → s'.raw = some req := by
  refine WP.ite (fun hb => ?_) fun hb => ?_
  · refine WP.ite (fun hm => ?_) fun hm => ?_
    · refine WP.bind_iff.mpr ((tunnelDirect_rests hr hb h).mono fun _ l' h' => ?_)
      obtain ⟨s', hs'⟩ := h'
      exact WP.pure_iff.mpr ⟨s', hs', by simp⟩
    · exact WP.bind_iff.mpr ((forwardDirect_rests n hr hb h).mono fun o l' h' => WP.pure_iff.mpr h')
  · have hb : cfg.bypasses r.host = false := by simpa using hb
    refine WP.ite (fun hm => ?_) fun hm => ?_
    · refine WP.bind_iff.mpr ((tunnelViaUpstream_rests hr hm hb h).mono fun _ l' h' => ?_)
      obtain ⟨s', hs'⟩ := h'
      exact WP.pure_iff.mpr ⟨s', hs', by simp⟩
    · refine WP.bind_iff.mpr (part_iff.mpr ((relayViaUpstream_holding hr hm hb h.enter).mono fun goesOn w' h' => ?_))
      obtain ⟨s', hi⟩ := h'
      exact WP.pure_iff.mpr ⟨s', ⟨hi.holding.leave, hi.current, hi.token⟩, by simp⟩

end

/-! ## The loop, and the handler -/

theorem readNextRequest_holding (iter : Nat) (h : Holding cfg base k s w) :
    WP (readNextRequest env iter) w fun o w' =>
      (∀ r, o = some r → Holding cfg base k { s with raw := some r, token := none } w') ∧
      (o = none → Holding cfg base k s w') := by
  refine WP.bind_iff.mpr ((readRequest_holding h).mono fun x w' hx => ?_)
  cases x with
  | ok r =>
    refine WP.pure_iff.mpr ⟨fun r' hr => ?_, by simp⟩
    cases hr
    exact hx.1 r rfl
  | error err =>
    have h' := hx.2 err rfl
    refine WP.ite (fun _ => WP.pure_iff.mpr ⟨by simp, fun _ => h'⟩) fun _ => ?_
    refine WP.bind_iff.mpr ((writeHTTPError_holding h').mono fun _ w'' h'' => ?_)
    exact WP.pure_iff.mpr ⟨by simp, fun _ => h''⟩

/-- The request of an iteration is the one read last. -/
theorem takeRequest_holding {pending : Option Request} (iter : Nat) (ht : s.token = none)
    (hp : ∀ req, pending = some req → s.raw = some req) (h : Holding cfg base k s w) :
    WP (takeRequest env pending iter) w fun o w' => ∃ s', Holding cfg base k s' w' ∧ s'.current = s.current ∧
      ∀ r, o = some r → s'.token = none ∧ s'.raw = some r := by
  cases pending with
  | some req =>
    refine WP.pure_iff.mpr ⟨s, h, rfl, fun r hr => ?_⟩
    cases hr
    exact ⟨ht, hp req rfl⟩
  | none =>
    refine (readNextRequest_holding iter h).mono fun o w' ho => ?_
    cases o with
    | none => exact ⟨s, ho.2 rfl, rfl, by simp⟩
    | some r =>
      refine ⟨_, ho.1 r rfl, rfl, fun r' hr => ?_⟩
      cases hr
      exact ⟨rfl, rfl⟩

theorem runLoop_rests (n : Nat) (pending : Option Request) (iter : Nat) (h : Rests cfg true l s)
    (hp : ∀ req, pending = some req → s.raw = some req) :
    WP (deferring.runLoop cfg env n pending iter) l fun _ l' => ∃ s', Rests cfg false l' s' := by
  induction n generalizing pending iter l s with
  | zero => exact WP.pure_iff.mpr ⟨s, h.has.rests h.current⟩
  | succ n ih =>
    refine WP.bind_iff.mpr (part_iff.mpr ((takeRequest_holding iter (h.token rfl) hp h.has.enter).mono fun o w₁ ho => ?_))
    obtain ⟨s₁, h₁, hcur, hserved⟩ := ho
    have hcur : s₁.current = none := hcur.trans h.current
    cases o with
    | none => exact WP.pure_iff.mpr ⟨s₁, h₁.leave.rests hcur⟩
    | some raw =>
      obtain ⟨htoken, hraw⟩ := hserved raw rfl
      refine WP.bind_iff.mpr (part_iff.mpr ((validateRequest_holding h₁.leave.enter).mono fun v w₂ hv => ?_))
      obtain ⟨h₂, hproceed⟩ := hv
      cases v with
      | answered => exact WP.pure_iff.mpr ⟨s₁, h₂.leave.rests hcur⟩
      | reject pe => exact part_writeHTTPError h₂.leave hcur
      | proceed r =>
        have hr : Routing cfg s₁ raw r := ⟨hproceed r rfl, hcur, htoken, hraw⟩
        refine WP.bind_iff.mpr ((routeRequest_rests n hr h₂.leave).mono fun x l' hx => ?_)
        obtain ⟨s₃, h₃, hnext⟩ := hx
        refine WP.ite (fun hc => ?_) fun _ => WP.pure_iff.mpr ⟨s₃, h₃.has.rests h₃.current⟩
        have hc : x.2 = true := hc
        exact ih x.1 (iter + 1) (hc ▸ h₃) hnext

/-- The handler has closed what it dialled. -/
structure Released (cfg : Config) (l : Life.State) (s : Lease) : Prop where
  leased : Leased cfg l.log s
  trace : l.log.filterMap performed = l.world.trace
  current : s.current = none
  kept : s.kept = none

/-- When the session is over, the kept connection is closed too. -/
theorem session_released (n : Nat) (h : Rests cfg true l s) :
    WP (session cfg env n) l fun _ l' => ∃ s', Released cfg l' s' := by
  refine WP.bind_iff.mpr ((runLoop_rests n none 0 h (by simp)).mono fun _ l' h' => ?_)
  obtain ⟨s', hs'⟩ := h'
  refine WP.bind_iff.mpr (WP.get_iff.mpr ?_)
  split
  next c hc =>
    have hkept : s'.kept = some c := hs'.has.kept.symm.trans hc
    refine record_iff.mpr ⟨{ s' with kept := none },
      hs'.has.leased.snoc (.closeKept hs'.current hkept), ?_, hs'.current, rfl⟩
    rw [List.filterMap_append, hs'.has.trace]
    exact List.append_nil _
  next hc =>
    exact WP.pure_iff.mpr ⟨s', hs'.has.leased, hs'.has.trace, hs'.current,
      hs'.has.kept.symm.trans hc⟩

theorem guarded_released (allowedIPs : List IPNet) (n : Nat) :
    WP (guarded cfg env allowedIPs n) {} fun _ l' => ∃ s', Released cfg l' s' := by
  have hstart : Has cfg {} {} := ⟨.start, rfl, rfl, rfl⟩
  refine WP.ite (fun _ => WP.pure_iff.mpr ⟨{}, .start, rfl, rfl, rfl⟩) fun _ => WP.ite (fun _ => ?_) fun _ => ?_
  · refine part_iff.mpr ((writeHTTPError_holding hstart.enter).mono fun _ w' h' => ?_)
    exact ⟨{}, h'.leave.leased, h'.leave.trace, rfl, rfl⟩
  · exact session_released n ⟨hstart, rfl, fun _ => rfl⟩

/-! ## The session under the handler -/

/-- The program does what `p` does, and closes connections besides. -/
def Follows {α : Type} (m : LifeProg α) (p : Prog α) : Prop :=
  ∀ l, WP m l fun a l' => p.run l.world = (a, l'.world)

namespace Follows

variable {α β : Type}

theorem part (p : Prog α) : Follows (Life.part p) p := fun _ => rfl

theorem pure (a : α) : Follows (pure a) (pure a) := fun _ => rfl

theorem bind {m : LifeProg α} {p : Prog α} {f : α → LifeProg β} {g : α → Prog β} (hm : Follows m p)
    (hf : ∀ a, Follows (f a) (g a)) : Follows (m >>= f) (p >>= g) := by
  refine fun l => WP.bind_iff.mpr ((hm l).mono fun a l' h => (hf a l').mono fun b l'' h' => ?_)
  rw [StateT.run_bind, h]
  exact h'

theorem ite {c : Prop} [Decidable c] {m m' : LifeProg α} {p p' : Prog α} (ht : Follows m p)
    (he : Follows m' p') : Follows (if c then m else m') (if c then p else p') := by
  split
  · exact ht
  · exact he

/-- A close changes nothing of the world. -/
theorem closing {m : LifeProg α} {p : Prog α} (e : Entry) (hm : Follows m p) :
    Follows (do let a ← m; record e; return a) p := fun l =>
  WP.bind_iff.mpr ((hm l).mono fun _ _ h => h)

end Follows

section

variable (cfg : Config) (env : Env)

theorem forwardDirect_follows (n : Nat) (req : Request) :
    Follows (deferring.forwardDirect cfg env n req) (Impl.forwardDirect cfg env n req) := by
  refine (Follows.part _).bind fun x => ?_
  cases x with
  | error err => exact (Follows.part _).bind fun _ => .pure _
  | ok c => exact (Follows.part _).closing _

theorem tunnelDirect_follows (req : Request) :
    Follows (deferring.tunnelDirect cfg env req) (Impl.tunnelDirect cfg env req) := by
  refine (Follows.part _).bind fun x => ?_
  cases x with
  | error err => exact .part _
  | ok c => exact (Follows.part _).closing _

theorem tunnelViaUpstream_follows (req : Request) :
    Follows (deferring.tunnelViaUpstream cfg env req) (Impl.tunnelViaUpstream cfg env req) := by
  refine (Follows.part _).bind fun id => (Follows.part _).bind fun x => ?_
  cases x with
  | none => exact .pure _
  | some y => exact (Follows.part _).closing _

theorem routeRequest_follows (n : Nat) (req : Request) :
    Follows (deferring.routeRequest cfg env n req) (Impl.routeRequest cfg env n req) := by
  refine .ite (.ite ?_ ?_) (.ite ?_ ?_)
  · exact (tunnelDirect_follows cfg env req).bind fun _ => .pure _
  · exact (forwardDirect_follows cfg env n _).bind fun _ => .pure _
  · exact (tunnelViaUpstream_follows cfg env req).bind fun _ => .pure _
  · exact (Follows.part _).bind fun _ => .pure _

theorem runLoop_follows (n : Nat) (pending : Option Request) (iter : Nat) :
    Follows (deferring.runLoop cfg env n pending iter) (Impl.runLoop cfg env n pending iter) := by
  induction n generalizing pending iter with
  | zero => exact .pure _
  | succ n ih =>
    refine (Follows.part _).bind fun o => ?_
    cases o with
    | none => exact .pure _
    | some req =>
      refine (Follows.part _).bind fun v => ?_
      cases v with
      | answered => exact .pure _
      | reject pe => exact .part _
      | proceed r => exact (routeRequest_follows cfg env n r).bind fun x => .ite (ih _ _) (.pure _)

/-- The session that is closed in the end is the one of `run`. -/
theorem session_world (n : Nat) :
    WP (session cfg env n) {} fun _ l' => l'.world = run cfg env n := by
  refine WP.bind_iff.mpr ((runLoop_follows cfg env n none 0 {}).mono fun _ l' h => ?_)
  have hworld : l'.world = run cfg env n := (congrArg Prod.snd h).symm
  refine WP.bind_iff.mpr (WP.get_iff.mpr ?_)
  split
  · exact record_iff.mpr hworld
  · exact WP.pure_iff.mpr hworld

end

/-! ## The handler -/

/-- What `handleClientCtx` does. -/
def handled (cfg : Config) (env : Env) (allowedIPs : List IPNet) (n : Nat) : List Entry :=
  ((handleClientCtx cfg env allowedIPs n).run {}).2.log

theorem handled_eq (cfg : Config) (env : Env) (allowedIPs : List IPNet) (n : Nat) :
    handled cfg env allowedIPs n = ((guarded cfg env allowedIPs n).run {}).2.log ++ [.closedWrite,
      .closedClient] :=
  List.append_assoc _ _ _

/-- Every connection to a next hop is dialled once, then used, and its deferred
`Close` comes once after its last use, in whatever way the session ends. At no
time are more than two of them between the two. All these closes come before
the deferred ones of the client's connection. A client that is not admitted
gets at most a response; no request is read from it, and nothing is dialled.
What a failed tunnel or the watcher closes before that is not recorded here. -/
theorem connections_closed_once (cfg : Config) (env : Env) (allowedIPs : List IPNet) (n : Nat) :
    ∃ log, handled cfg env allowedIPs n = log ++ [.closedWrite, .closedClient] ∧
      (∀ e ∈ log, e ≠ .closedWrite ∧ e ≠ .closedClient) ∧
      (∀ c, lifeOf c log = [] ∨ Disposed c (lifeOf c log)) ∧
      (∀ soFar, soFar <+: log → soFar.countP isDial ≤ soFar.countP isClosed + 2) ∧
      (cfg.pseudonym = [] → log = []) ∧
      (cfg.pseudonym ≠ [] → admitsClient allowedIPs cfg.clientAddr = false →
        ∃ err, log = [.event (.wrote (.error errClientDenied) err)]) ∧
      (cfg.pseudonym ≠ [] → admitsClient allowedIPs cfg.clientAddr = true →
        log.filterMap performed = (run cfg env n).trace) := by
  obtain ⟨s, hs⟩ : ∃ s, Released cfg ((guarded cfg env allowedIPs n).run {}).2 s :=
    guarded_released allowedIPs n
  refine ⟨((guarded cfg env allowedIPs n).run {}).2.log, handled_eq .., hs.leased.not_client,
    fun c => ?_,
    fun soFar hp => ?_, fun hps => ?_, fun hps ha => ?_, fun hps ha => ?_⟩
  · by_cases hc : c < s.dialled
    · exact .inr (hs.leased.ledger.ended c hc (by simp [Lease.Open, hs.kept, hs.current]))
    · exact .inl (hs.leased.ledger.fresh c (Nat.not_lt.mp hc))
  · obtain ⟨s₀, hs₀⟩ := hs.leased.prefix hp
    rw [hs₀.ledger.balance]
    exact Nat.add_le_add_left s₀.held_le _
  · rw [guarded, if_pos hps]
    rfl
  · rw [guarded, if_neg hps, if_pos ha]
    exact ⟨_, rfl⟩
  · rw [hs.trace, guarded, if_neg hps, if_neg (by simp [ha])]
    exact congrArg World.trace (session_world cfg env n)

end SP.Proof.Life
