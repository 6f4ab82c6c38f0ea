import SpnegoProxy.Proof.Session.Trace

/-!
# Every request that a session writes out

`Route cfg tr c req` says all there is to say about a request `req` that is
written on the connection `c` after the events `tr`: which request of the
client it is, what the session made of it, and what `c` is. It has three
cases: on a direct connection, first on an upstream connection, and later on
the session's upstream connection. `run_routes`: in every run, every request
written out has a route. What follows for credentials, for the noproxy policy
and for the validation pipeline is read off the cases.
-/

namespace SP.Proof

open SP.Go SP.Impl

/-- The connection that an event dials or writes a request on. -/
def connOf : Event → Option ConnId
  | .dial c _ => some c
  | .sent c _ _ => some c
  | _ => none

/-- An event that neither dials nor writes a request. -/
abbrev Quiet (e : Event) : Prop := connOf e = none

/-- How a request comes to be written on the connection `c` after `tr`:
`r` is a request of the client and `r'` what the validation made of it. -/
inductive Route (cfg : Config) (tr : List Event) (c : ConnId) : Request → Prop where
  | direct {r r' r₀ : Request} {host addr : Str} :
    .read (.ok r) ∈ tr → verdict cfg r = .proceed r' → r'.method ≠ methodConnect →
    .dial c (.direct host addr) ∈ tr → .read (.ok r₀) ∈ tr → r₀.host = host →
      cfg.bypasses host = true →
    sameHost r'.host host (str "80") = true → Route cfg tr c (withVia cfg r')
  | first {r r' : Request} {id token : Str} {p : List Event} :
    .read (.ok r) ∈ tr → verdict cfg r = .proceed r' → cfg.bypasses r'.host = false →
    tr = p ++ [.token (.ok token), .dial c .upstream] → (∀ req answer, .sent c req answer ∉ tr) →
    Route cfg tr c (withVia cfg (authorised token (forwarded cfg id r')))
  | reused {r r' req : Request} {id : Str} {answer : List Wire} :
    .read (.ok r) ∈ tr → verdict cfg r = .proceed r' → cfg.bypasses r'.host = false →
    .dial c .upstream ∈ tr → .sent c req answer ∈ tr →
    Route cfg tr c (withVia cfg (forwarded cfg id r'))

/-- What holds of a session between the parts of its loops. -/
structure Inv (cfg : Config) (w : World) : Prop where
  /-- Every request written out has a route. -/
  sent {p q : List Event} {c : ConnId} {req : Request} {answer : List Wire} :
    w.trace = p ++ .sent c req answer :: q → Route cfg p c req
  /-- Every connection used was dialled before, and only so many were. -/
  fresh {e : Event} {c : ConnId} : e ∈ w.trace → connOf e = some c → c < w.conns
  /-- A connection is dialled once. -/
  once {c : ConnId} {t t' : Target} : .dial c t ∈ w.trace → .dial c t' ∈ w.trace → t = t'
  /-- The kept connection goes to the upstream proxy and is in use. -/
  kept {c : ConnId} : w.proxyConn = some c →
    .dial c .upstream ∈ w.trace ∧ ∃ req answer, .sent c req answer ∈ w.trace

/-- An event in a longer trace that the added events do not contain. -/
theorem mem_of_quiet {tr es : List Event} {e : Event} {c : ConnId} (hq : ∀ e ∈ es, Quiet e)
    (he : e ∈ tr ++ es) (hc : connOf e = some c) : e ∈ tr := by
  rcases List.mem_append.mp he with he | he
  · exact he
  · rw [hq e he] at hc; cases hc

/-- A trace that ends in quiet events splits at an earlier one. -/
theorem split_of_quiet {tr es p q : List Event} {e : Event} {c : ConnId} (hq : ∀ e ∈ es, Quiet e)
    (hc : connOf e = some c) (h : tr ++ es = p ++ e :: q) : ∃ q', tr = p ++ e :: q' := by
  rcases List.append_eq_append_iff.mp h with ⟨as, hp, hq'⟩ | ⟨bs, htr, hq'⟩
  · have : e ∈ es := by rw [hq']; exact List.mem_append_right _ List.mem_cons_self
    rw [hq e this] at hc; cases hc
  · cases bs with
    | nil =>
      have : e ∈ es := by rw [List.nil_append] at hq'; rw [← hq']; exact List.mem_cons_self
      rw [hq e this] at hc; cases hc
    | cons b bs =>
      simp only [List.cons_append, List.cons.injEq] at hq'
      exact ⟨bs, by rw [htr, hq'.1]⟩

/-- A trace with one event at its end splits before it, or at it. -/
theorem split_last {tr p q : List Event} {e e' : Event} (h : tr ++ [e'] = p ++ e :: q) :
    (∃ q', tr = p ++ e :: q') ∨ (p = tr ∧ e = e') := by
  rcases List.eq_nil_or_concat q with rfl | ⟨q', b, rfl⟩
  · obtain ⟨hp, he⟩ := List.append_inj' h rfl
    cases he
    exact .inr ⟨hp.symm, rfl⟩
  · rw [List.concat_eq_append, ← List.cons_append, ← List.append_assoc] at h
    exact .inl ⟨q', (List.append_inj' h rfl).1⟩

/-- Quiet events keep what holds between the parts. -/
theorem Inv.quiet {cfg : Config} {w w' : World} (h : Inv cfg w) (he : Ext Quiet w w') :
    Inv cfg w' := by
  obtain ⟨⟨es, ht, hq⟩, hc, hn⟩ := he
  have hmem : ∀ {e c}, e ∈ w'.trace → connOf e = some c → e ∈ w.trace := by
    intro e c hm hc'
    rw [ht] at hm
    exact mem_of_quiet hq hm hc'
  refine ⟨fun hs => ?_, fun hm hc' => ?_, fun h₁ h₂ => ?_, fun hk => ?_⟩
  · rw [ht] at hs
    obtain ⟨q', hs'⟩ := split_of_quiet hq rfl hs
    exact h.sent hs'
  · rw [hn]; exact h.fresh (hmem hm hc') hc'
  · exact h.once (hmem h₁ rfl) (hmem h₂ rfl)
  · obtain ⟨hd, req, answer, hs⟩ := h.kept (hc.symm.trans hk)
    rw [ht]
    exact ⟨List.mem_append_left _ hd, req, answer, List.mem_append_left _ hs⟩

/-- The world after a dial. -/
theorem Inv.dial {cfg : Config} {w w' : World} (h : Inv cfg w) {t : Target}
    (ht : w'.trace = w.trace ++ [.dial w.conns t]) (hc : w'.proxyConn = w.proxyConn)
    (hn : w'.conns = w.conns + 1) : Inv cfg w' := by
  refine ⟨fun {p q c req answer} hs => ?_, fun {e c} hm hc' => ?_, fun {c t₁ t₂} h₁ h₂ => ?_, fun hk => ?_⟩
  · rw [ht] at hs
    rcases split_last hs with ⟨q', hs'⟩ | ⟨-, he⟩
    · exact h.sent hs'
    · cases he
  · rw [ht] at hm
    rcases List.mem_append.mp hm with hm | hm
    · rw [hn]; exact Nat.lt_succ_of_lt (h.fresh hm hc')
    · rw [List.mem_singleton.mp hm] at hc'
      cases hc'
      rw [hn]; exact Nat.lt_succ_self _
  · rw [ht] at h₁ h₂
    have hold : ∀ {t'}, .dial c t' ∈ w.trace → c < w.conns := fun hm => h.fresh hm rfl
    rcases List.mem_append.mp h₁ with h₁ | h₁ <;> rcases List.mem_append.mp h₂ with h₂ | h₂
    · exact h.once h₁ h₂
    · cases List.mem_singleton.mp h₂
      exact absurd (hold h₁) (Nat.lt_irrefl _)
    · cases List.mem_singleton.mp h₁
      exact absurd (hold h₂) (Nat.lt_irrefl _)
    · cases List.mem_singleton.mp h₁
      cases List.mem_singleton.mp h₂
      rfl
  · obtain ⟨hd, req, answer, hs⟩ := h.kept (hc.symm.trans hk)
    rw [ht]
    exact ⟨List.mem_append_left _ hd, req, answer, List.mem_append_left _ hs⟩

/-- From `w` to `w'` the session wrote `req` on `c`, and nothing else but
quiet events happened. -/
structure Sends (c : ConnId) (req : Request) (w w' : World) : Prop where
  trace : ∃ answer es, w'.trace = w.trace ++ .sent c req answer :: es ∧ ∀ e ∈ es, Quiet e
  proxyConn : w'.proxyConn = w.proxyConn
  conns : w'.conns = w.conns

namespace Sends

variable {c : ConnId} {req : Request} {w w' : World}

theorem ext {w'' : World} (h : Sends c req w w') (h' : Ext Quiet w' w'') : Sends c req w w'' := by
  obtain ⟨⟨answer, es, ht, hq⟩, hc, hn⟩ := h
  obtain ⟨⟨es', ht', hq'⟩, hc', hn'⟩ := h'
  refine ⟨⟨answer, es ++ es', by rw [ht', ht]; simp, fun e he => ?_⟩, hc'.trans hc, hn'.trans hn⟩
  rcases List.mem_append.mp he with he | he
  · exact hq e he
  · exact hq' e he

theorem mem (h : Sends c req w w') {e : Event} (he : e ∈ w.trace) : e ∈ w'.trace := by
  obtain ⟨⟨answer, es, ht, -⟩, -, -⟩ := h
  rw [ht]; exact List.mem_append_left _ he

theorem sent (h : Sends c req w w') : ∃ req answer, .sent c req answer ∈ w'.trace := by
  obtain ⟨⟨answer, es, ht, -⟩, -, -⟩ := h
  exact ⟨req, answer, by rw [ht]; exact List.mem_append_right _ List.mem_cons_self⟩

end Sends

/-- The world after a request with a route was written. Between `w` and `w₀`
the session may have kept the connection `c`. -/
theorem Inv.sending {cfg : Config} {w w₀ w' : World} (h : Inv cfg w) {c : ConnId} {req : Request}
    (hr : Route cfg w.trace c req) (hl : c < w.conns) (hs : Sends c req w₀ w')
    (ht₀ : w₀.trace = w.trace) (hn₀ : w₀.conns = w.conns)
    (hk : ∀ c', w₀.proxyConn = some c' → (c' = c ∧ .dial c .upstream ∈ w.trace) ∨ w.proxyConn = some c') :
    Inv cfg w' := by
  obtain ⟨⟨answer, es, ht, hq⟩, hc, hn⟩ := hs
  have ht' : w'.trace = (w.trace ++ [.sent c req answer]) ++ es := by rw [ht, ht₀]; simp
  have hmem : ∀ {e c'}, e ∈ w'.trace → connOf e = some c' → e ∈ w.trace ∨ e = .sent c req answer := by
    intro e c' hm hc'
    rw [ht'] at hm
    simpa using mem_of_quiet hq hm hc'
  have hsub : ∀ {e}, e ∈ w.trace → e ∈ w'.trace := by
    intro e he
    rw [ht']; exact List.mem_append_left _ (List.mem_append_left _ he)
  refine ⟨fun {p q c' req' answer'} hs => ?_, fun {e c'} hm hc' => ?_, fun {c' t₁ t₂} h₁ h₂ => ?_, fun hk' => ?_⟩
  · rw [ht'] at hs
    obtain ⟨q', hs'⟩ := split_of_quiet hq rfl hs
    rcases split_last hs' with ⟨q'', hs''⟩ | ⟨hp, he⟩
    · exact h.sent hs''
    · cases he
      rw [hp]; exact hr
  · rw [hn, hn₀]
    rcases hmem hm hc' with hm | rfl
    · exact h.fresh hm hc'
    · cases hc'
      exact hl
  · rcases hmem h₁ rfl with h₁ | h₁ <;> [skip; cases h₁]
    rcases hmem h₂ rfl with h₂ | h₂ <;> [skip; cases h₂]
    exact h.once h₁ h₂
  · rcases hk _ (hc.symm.trans hk') with ⟨rfl, hd⟩ | hk
    · refine ⟨hsub hd, req, answer, ?_⟩
      rw [ht]; exact List.mem_append_right _ List.mem_cons_self
    · obtain ⟨hd, req, answer, hs⟩ := h.kept hk
      exact ⟨hsub hd, req, answer, hsub hs⟩

section

variable (cfg : Config) (env : Env)

/-- A dial fails, or names a new connection. -/
theorem dial_ok {P : Event → Prop} {t : Target} (hf : P (.dialFailed t)) (w : World) :
    WP (dial env t) w fun r w' => (∀ err, r = .error err → Ext P w w') ∧
    ∀ c, r = .ok c → c = w.conns ∧
      w' = { w with trace := w.trace ++ [.dial c t], conns := w.conns + 1 } := by
  refine WP.bind_iff.mpr (ask_iff.mpr ?_)
  cases env.dial t w.trace with
  | some err =>
    have hm : Moves (Ext P) (emit (.dialFailed t)) := emit_moves hf
    exact ⟨fun _ _ => hm w, fun _ h => by cases h⟩
  | none =>
    refine ⟨fun _ h => (nomatch h), fun _ h => ?_⟩
    cases h
    exact ⟨rfl, rfl⟩

theorem writeRequest_ok (c : ConnId) (req : Request) (w : World) :
    WP (writeRequest env c req) w fun _ w' => Sends c req w w' := by
  refine WP.bind_iff.mpr (ask_iff.mpr (WP.bind_iff.mpr (ask_iff.mpr (WP.bind_iff.mpr (ask_iff.mpr ?_)))))
  refine WP.bind_iff.mpr (WP.modify_iff.mpr (WP.bind_iff.mpr (emit_iff.mpr ?_)))
  have hs : ∀ answer inbox, Sends c req w
      { w with inbox := inbox, trace := w.trace ++ [.sent c req answer] } :=
    fun answer _ => ⟨⟨answer, [], rfl, by simp⟩, rfl, rfl⟩
  refine WP.ite (fun _ => ?_) fun _ => hs _ _
  have hp : ∀ bs, Moves (Ext Quiet) (emit (.payload c bs)) := fun bs => emit_moves rfl
  exact (hs _ _).ext (hp _ _)

theorem writeHTTPError_quiet (pe : ProxyError) : Moves (Ext Quiet) (writeHTTPError env pe) :=
  writeHTTPError_moves env fun _ => emit_moves rfl

/-- The reads of responses are quiet. -/
theorem readFinal_quiet (c : ConnId) (req : Request)
    (reader : List Wire → Except RespErr Response × List Wire) :
    Moves (Ext Quiet) (readFinal env c req reader) :=
  readFinal_moves env (fun _ _ => emit_moves rfl) setInbox_moves (fun _ _ => emit_moves rfl) c req reader

theorem exchangeRequest_ok (c : ConnId) (req : Request)
    (reader : List Wire → Except RespErr Response × List Wire) (w : World) :
    WP (exchangeRequest env c req reader) w fun _ w' => Sends c req w w' := by
  refine WP.ite (fun _ => ?_) fun _ => ?_
  · refine WP.bind_iff.mpr ((writeRequest_ok env c req w).mono fun err w' hs => ?_)
    cases err with
    | some werr => exact hs
    | none => exact WP.bind_iff.mpr ((readFinal_quiet env c req reader w').mono fun _ _ h => hs.ext h)
  · refine WP.bind_iff.mpr ((writeRequest_ok env c req w).mono fun _ w' hs => ?_)
    exact WP.bind_iff.mpr ((readFinal_quiet env c req reader w').mono fun _ _ h => hs.ext h)

/-- `relayDirect` and the tail of `relayViaUpstream`. -/
theorem relay_ok (c : ConnId) (req : Request)
    (reader : List Wire → Except RespErr Response × List Wire) {onErr : RespErr → Prog Unit}
    (he : ∀ e, Moves (Ext Quiet) (onErr e)) (w : World) :
    WP (exchangeRequest env c req reader >>= fun x => finishRelay env c req x onErr) w
      fun _ w' => Sends c req w w' :=
  WP.bind_iff.mpr ((exchangeRequest_ok env c req reader w).mono fun x w' hs =>
    (finishRelay_moves env (fun _ _ => emit_moves rfl) setInbox_moves c req x he w').mono fun _ _ h => hs.ext h)

/-- `dialAndAuthUpstream` fails with a message to the client, or acquires a token, dials and adds
the token to the request. -/
theorem dialAndAuthUpstream_ok {P : Event → Prop} (ht : ∀ r, P (.token r))
    (hf : P (.dialFailed .upstream))
    (hw : ∀ pe err, P (.wrote (.error pe) err)) (req : Request) (w : World) :
    WP (dialAndAuthUpstream env req) w fun o w' =>
      (o = none → Ext P w w') ∧
      ∀ c r, o = some (c, r) → c = w.conns ∧ ∃ token, r = authorised token req ∧
        w' = { w with trace := w.trace ++ [.token (.ok token), .dial c .upstream],
                      conns := w.conns + 1 } := by
  refine WP.bind_iff.mpr (ask_iff.mpr (WP.bind_iff.mpr (emit_iff.mpr ?_)))
  have htoken : ∀ r, Moves (Ext P) (emit (.token r)) := fun r => emit_moves (ht r)
  have herr : ∀ pe, Moves (Ext P) (writeHTTPError env pe) := fun pe =>
    writeHTTPError_moves env fun _ => emit_moves (hw pe _)
  cases hr : env.getToken w.trace with
  | error terr =>
    refine WP.bind_iff.mpr ((herr _ _).mono fun _ w' h => ?_)
    exact ⟨fun _ => (htoken _ w).trans h, fun _ _ h => by cases h⟩
  | ok token =>
    refine WP.bind_iff.mpr ((dial_ok env hf _).mono fun r w' h => ?_)
    cases r with
    | error derr =>
      refine WP.bind_iff.mpr ((herr _ w').mono fun _ w'' h' => ?_)
      exact ⟨fun _ => ((htoken _ w).trans (h.1 derr rfl)).trans h', fun _ _ h => by cases h⟩
    | ok c =>
      obtain ⟨hc, hw'⟩ := h.2 c rfl
      refine WP.pure_iff.mpr ⟨fun h => (nomatch h), fun _ _ h => ?_⟩
      cases h
      exact ⟨hc, token, rfl, by rw [hw']; simp⟩

/-! ## The relays and the loops -/

/-- `applyMaxForwards` changes the header only. -/
theorem applyMaxForwards_frame {req r : Request} (h : applyMaxForwards req = some r) :
    ∃ header, r = { req with header } := by
  simp only [applyMaxForwards] at h
  split_ifs at h with h₁ h₂
  · cases h; exact ⟨_, rfl⟩
  · cases h; exact ⟨_, rfl⟩
  · split at h
    · cases h; exact ⟨_, rfl⟩
    · split_ifs at h
      cases h; exact ⟨_, rfl⟩

/-- The validation changes the header and the trailer of a request only. -/
theorem verdict_frame {req r : Request} (h : verdict cfg req = .proceed r) :
    ∃ header, r = { req with header, trailer := none } := by
  obtain ⟨r', hr', rfl⟩ := verdict_proceed cfg h
  obtain ⟨header, rfl⟩ := applyMaxForwards_frame hr'
  exact ⟨_, rfl⟩

/-- The validation keeps a request's host and method. -/
theorem verdict_host {req r : Request} (h : verdict cfg req = .proceed r) :
    r.host = req.host ∧ r.method = req.method := by
  obtain ⟨header, rfl⟩ := verdict_frame cfg h
  exact ⟨rfl, rfl⟩

/-- A request that a direct connection for `host` may carry next. -/
def Ready (host : Str) (w : World) (req : Request) : Prop :=
  ∃ r r', .read (.ok r) ∈ w.trace ∧ verdict cfg r = .proceed r' ∧ r'.method ≠ methodConnect ∧
    sameHost r'.host host (str "80") = true ∧ req = withVia cfg r'

theorem nextDirectRequest_ok (host : Str) (w : World) :
    WP (nextDirectRequest cfg env host) w fun x w' =>
      Ext Quiet w w' ∧ (∀ r, x = .reroute r → .read (.ok r) ∈ w'.trace) ∧
        ∀ r, x = .relay r → Ready cfg host w' r := by
  have herr := writeHTTPError_quiet env
  have hread : Moves (Ext Quiet) (readRequest env) := readRequest_moves env fun _ => emit_moves rfl
  have hmem : WP (readRequest env) w fun r w' => .read r ∈ w'.trace :=
    List.mem_append_right _ (List.mem_singleton_self _)
  refine WP.bind_iff.mpr (((hread w).and hmem).mono fun r w₁ ⟨h₁, hin⟩ => ?_)
  cases r with
  | error err => exact ⟨h₁, fun _ h => (nomatch h), fun _ h => nomatch h⟩
  | ok req =>
    refine WP.ite (fun _ => ?_) fun hs => ?_
    · refine ⟨h₁, fun _ h => ?_, fun _ h => nomatch h⟩
      cases h; exact hin
    have hval := validateRequest_ok cfg env (R := Ext Quiet) (fun _ _ => emit_moves rfl) req w₁
    refine WP.bind_iff.mpr (hval.mono fun v w₂ ⟨h₁₂, hv⟩ => ?_)
    have h₂ := h₁.trans h₁₂
    cases v with
    | answered => exact ⟨h₂, fun _ h => (nomatch h), fun _ h => nomatch h⟩
    | reject pe =>
      refine WP.bind_iff.mpr ((herr pe w₂).mono fun _ w₃ h₃ => ?_)
      exact ⟨h₂.trans h₃, fun _ h => (nomatch h), fun _ h => nomatch h⟩
    | proceed r' =>
      refine WP.ite (fun _ => ?_) fun hm => ?_
      · refine WP.bind_iff.mpr ((herr _ w₂).mono fun _ w₃ h₃ => ?_)
        exact ⟨h₂.trans h₃, fun _ h => (nomatch h), fun _ h => nomatch h⟩
      · refine ⟨h₂, fun _ h => (nomatch h), fun _ h => ?_⟩
        cases h
        obtain ⟨hh, -⟩ := verdict_host cfg (hv r' rfl)
        refine ⟨req, r', h₁₂.mem hin, hv r' rfl, hm, ?_, rfl⟩
        rw [hh]; exact eq_true_of_ne_false hs

/-- The direct loop: every request it writes is one that its connection's
host may carry; what it hands back was read from the client. -/
theorem directLoop_ok {c : ConnId} {host addr : Str} {r₀ : Request} (hh : r₀.host = host)
    (hb : cfg.bypasses host = true) (n : Nat) (req : Request) (w : World) (hi : Inv cfg w)
    (hd : .dial c (.direct host addr) ∈ w.trace) (h₀ : .read (.ok r₀) ∈ w.trace)
    (hr : Ready cfg host w req) :
    WP (directLoop cfg env c host n req) w fun o w' =>
      Inv cfg w' ∧ ∀ r, o = some r → .read (.ok r) ∈ w'.trace := by
  induction n generalizing req w with
  | zero => exact ⟨hi, fun _ h => nomatch h⟩
  | succ n ih =>
    obtain ⟨r, r', hin, hcl, hm, hs, rfl⟩ := hr
    have hroute : Route cfg w.trace c (withVia cfg r') := .direct hin hcl hm hd h₀ hh hb hs
    have hquiet : ∀ _ : RespErr, Moves (Ext Quiet) (pure () : Prog Unit) := fun _ => .pure _
    refine WP.bind_iff.mpr ((relay_ok env c _ _ hquiet w).mono fun ok w₁ hsend => ?_)
    have hi₁ : Inv cfg w₁ := hi.sending hroute (hi.fresh hd rfl) hsend rfl rfl fun _ => .inr
    have hd₁ := hsend.mem hd
    cases ok with
    | false => exact ⟨hi₁, fun _ h => nomatch h⟩
    | true =>
      refine WP.bind_iff.mpr ((nextDirectRequest_ok cfg env host w₁).mono fun x w₂ ⟨h₂, hre, hnx⟩ => ?_)
      have hi₂ := hi₁.quiet h₂
      cases x with
      | stop => exact ⟨hi₂, fun _ h => nomatch h⟩
      | reroute req => exact ⟨hi₂, fun _ h => by cases h; exact hre _ rfl⟩
      | relay req => exact ih req w₂ hi₂ (h₂.mem hd₁) (h₂.mem (hsend.mem h₀)) (hnx req rfl)

/-- A request that the validation passed, and where it came from. -/
def Passed (w : World) (req : Request) : Prop :=
  ∃ r, .read (.ok r) ∈ w.trace ∧ verdict cfg r = .proceed req

theorem forwardDirect_ok (n : Nat) {req : Request} {w : World} (hi : Inv cfg w)
    (hp : Passed cfg w req) (hb : cfg.bypasses req.host = true) (hm : req.method ≠ methodConnect) :
    WP (forwardDirect cfg env n (withVia cfg req)) w fun o w' =>
      Inv cfg w' ∧ ∀ r, o = some r → .read (.ok r) ∈ w'.trace := by
  refine WP.bind_iff.mpr ((dial_ok env (P := Quiet) rfl w).mono fun r w₁ ⟨hf, hd⟩ => ?_)
  cases r with
  | error err =>
    have herr := writeHTTPError_quiet env (dialError err) w₁
    refine WP.bind_iff.mpr (herr.mono fun _ w₂ h₂ => ?_)
    exact ⟨hi.quiet ((hf err rfl).trans h₂), fun _ h => nomatch h⟩
  | ok c =>
    obtain ⟨rfl, rfl⟩ := hd c rfl
    obtain ⟨r, hin, hcl⟩ := hp
    have hh : r.host = req.host := (verdict_host cfg hcl).1.symm
    refine directLoop_ok cfg env hh hb n _ _ (hi.dial rfl rfl rfl)
      (List.mem_append_right _ (List.mem_singleton_self _)) (List.mem_append_left _ hin) ?_
    exact ⟨r, req, List.mem_append_left _ hin, hcl, hm, by simp [sameHost], rfl⟩

variable {cfg} in
/-- The world after a token was acquired and the upstream proxy dialled. -/
theorem Inv.auth {w : World} (hi : Inv cfg w) {token : Str} :
    Inv cfg { w with trace := w.trace ++ [.token (.ok token), .dial w.conns .upstream],
                     conns := w.conns + 1 } := by
  have htoken : Moves (Ext Quiet) (emit (.token (.ok token))) := emit_moves rfl
  have hi₁ : Inv cfg { w with trace := w.trace ++ [.token (.ok token)] } := hi.quiet (htoken w)
  exact hi₁.dial (t := .upstream) (by simp) rfl rfl

variable {cfg} in
/-- The route of the request that follows the dial. -/
theorem Inv.first {w : World} (hi : Inv cfg w) {r r' : Request} {id token : Str}
    (hin : .read (.ok r) ∈ w.trace) (hcl : verdict cfg r = .proceed r')
    (hb : cfg.bypasses r'.host = false) :
    Route cfg (w.trace ++ [.token (.ok token), .dial w.conns .upstream]) w.conns
      (withVia cfg (authorised token (forwarded cfg id r'))) := by
  refine .first (List.mem_append_left _ hin) hcl hb rfl fun req answer hs => ?_
  have hs : .sent w.conns req answer ∈ w.trace := by simpa using hs
  exact absurd (hi.fresh hs rfl) (Nat.lt_irrefl _)

/-- A request on the session's upstream connection, dialled now or before. -/
theorem relayViaUpstream_ok {req : Request} {w : World} (hi : Inv cfg w) (hp : Passed cfg w req)
    (hb : cfg.bypasses req.host = false) :
    WP (relayViaUpstream cfg env req) w fun _ w' => Inv cfg w' := by
  obtain ⟨r, hin, hcl⟩ := hp
  let fwd := forwarded cfg (env.obfuscatedID w.trace) req
  have herr := fun e => writeHTTPError_quiet env (upstreamResponseError e)
  refine WP.bind_iff.mpr (ask_iff.mpr (WP.bind_iff.mpr (WP.bind_iff.mpr (WP.get_iff.mpr ?_))))
  cases hk : w.proxyConn with
  | some c =>
    obtain ⟨hd, sent, answer, hsent⟩ := hi.kept hk
    refine WP.pure_iff.mpr (WP.bind_iff.mpr (WP.modify_iff.mpr ?_))
    refine (relay_ok env c (withVia cfg fwd) _ herr _).mono fun _ w' hs => ?_
    refine hi.sending (.reused hin hcl hb hd hsent) (hi.fresh hd rfl) hs rfl rfl fun c' hc' => ?_
    cases hc'
    exact .inl ⟨rfl, hd⟩
  | none =>
    refine (dialAndAuthUpstream_ok env (P := Quiet) (fun _ => rfl) rfl (fun _ _ => rfl) _ w).mono fun o w₁ ⟨hf, hd⟩ => ?_
    cases o with
    | none => exact hi.quiet (hf rfl)
    | some x =>
      obtain ⟨c, req₁⟩ := x
      obtain ⟨rfl, token, rfl, rfl⟩ := hd c req₁ rfl
      refine WP.bind_iff.mpr (WP.modify_iff.mpr ?_)
      refine (relay_ok env _ (withVia cfg (authorised token fwd)) _ herr _).mono fun _ w' hs => ?_
      refine hi.auth.sending (hi.first hin hcl hb) (Nat.lt_succ_self _) hs rfl rfl fun c' hc' => ?_
      cases hc'
      exact .inl ⟨rfl, by simp⟩

/-- A `CONNECT` request on an upstream connection of its own. -/
theorem tunnelViaUpstream_ok {req : Request} {w : World} (hi : Inv cfg w) (hp : Passed cfg w req)
    (hb : cfg.bypasses req.host = false) :
    WP (tunnelViaUpstream cfg env req) w fun _ w' => Inv cfg w' := by
  obtain ⟨r, hin, hcl⟩ := hp
  refine WP.bind_iff.mpr (ask_iff.mpr (WP.bind_iff.mpr ?_))
  refine (dialAndAuthUpstream_ok env (P := Quiet) (fun _ => rfl) rfl (fun _ _ => rfl) _ w).mono fun o w₁ ⟨hf, hd⟩ => ?_
  cases o with
  | none => exact hi.quiet (hf rfl)
  | some x =>
    obtain ⟨c, req₁⟩ := x
    obtain ⟨rfl, token, rfl, rfl⟩ := hd c req₁ rfl
    let fwd := forwarded cfg (env.obfuscatedID w.trace) req
    refine WP.bind_iff.mpr (WP.bind_iff.mpr ?_)
    refine (writeRequest_ok env _ (withVia cfg (authorised token fwd)) _).mono fun err w₂ hs => ?_
    have hi₂ : Inv cfg w₂ :=
      hi.auth.sending (hi.first hin hcl hb) (Nat.lt_succ_self _) hs rfl rfl fun _ => .inr
    refine WP.ite (fun _ => ?_) fun _ => ?_
    · exact (writeHTTPError_quiet env _ w₂).mono fun _ _ h => hi₂.quiet h
    · exact (handleConnectTunnel_moves cfg env (R := Ext Quiet) (fun _ _ => emit_moves rfl) setInbox_moves
        (fun _ _ => emit_moves rfl) (fun _ _ => emit_moves rfl) _ _ w₂).mono fun _ _ h => hi₂.quiet h

/-- A direct tunnel writes no request. -/
theorem tunnelDirect_ok {req : Request} {w : World} (hi : Inv cfg w) :
    WP (tunnelDirect cfg env req) w fun _ w' => Inv cfg w' := by
  refine WP.bind_iff.mpr ((dial_ok env (P := Quiet) rfl w).mono fun r w₁ ⟨hf, hd⟩ => ?_)
  cases r with
  | error err =>
    have herr := writeHTTPError_quiet env (dialError err) w₁
    exact herr.mono fun _ _ h => hi.quiet ((hf err rfl).trans h)
  | ok c =>
    obtain ⟨rfl, hw₁⟩ := hd c rfl
    have hi₁ : Inv cfg w₁ := hi.dial (by rw [hw₁]) (by rw [hw₁]) (by rw [hw₁])
    have hok : ∀ m, Moves (Ext Quiet) (writeClient env m) := fun m =>
      writeClient_moves env fun _ => emit_moves rfl
    refine WP.bind_iff.mpr (WP.bind_iff.mpr ((hok _ _).mono fun _ w₂ h₂ => ?_))
    refine WP.ite (fun _ => ?_) fun _ => hi₁.quiet h₂
    refine WP.bind_iff.mpr (ask_iff.mpr ?_)
    exact (forwardTunnel_moves env (R := Ext Quiet) (fun _ => emit_moves rfl) (fun _ _ => emit_moves rfl) _ w₂).mono
      fun _ _ h => hi₁.quiet (h₂.trans h)

theorem routeRequest_ok (n : Nat) {req : Request} {w : World} (hi : Inv cfg w)
    (hp : Passed cfg w req) : WP (routeRequest cfg env n req) w fun x w' =>
      Inv cfg w' ∧ ∀ r, x.1 = some r → .read (.ok r) ∈ w'.trace := by
  refine WP.ite (fun hb => ?_) fun hb => ?_
  · refine WP.ite (fun _ => ?_) fun hm => ?_
    · exact WP.bind_iff.mpr ((tunnelDirect_ok cfg env hi).mono fun _ _ h => ⟨h, fun _ h => nomatch h⟩)
    · exact WP.bind_iff.mpr ((forwardDirect_ok cfg env n hi hp hb hm).mono fun _ _ h => h)
  · have hb := eq_false_of_ne_true hb
    refine WP.ite (fun _ => ?_) fun _ => ?_
    · exact WP.bind_iff.mpr ((tunnelViaUpstream_ok cfg env hi hp hb).mono fun _ _ h =>
        ⟨h, fun _ h => nomatch h⟩)
    · exact WP.bind_iff.mpr ((relayViaUpstream_ok cfg env hi hp hb).mono fun _ _ h =>
        ⟨h, fun _ h => nomatch h⟩)

theorem takeRequest_ok (pending : Option Request) (iter : Nat) (w : World)
    (hp : ∀ r, pending = some r → .read (.ok r) ∈ w.trace) :
    WP (takeRequest env pending iter) w fun o w' =>
      Ext Quiet w w' ∧ ∀ r, o = some r → .read (.ok r) ∈ w'.trace := by
  cases pending with
  | some req => exact ⟨Ext.rfl' w, fun r h => hp r h⟩
  | none => exact readNextRequest_ok env (fun _ => emit_moves rfl) (fun _ _ => emit_moves rfl) iter w

theorem runLoop_ok (n : Nat) (pending : Option Request) (iter : Nat) (w : World) (hi : Inv cfg w)
    (hp : ∀ r, pending = some r → .read (.ok r) ∈ w.trace) :
    WP (runLoop cfg env n pending iter) w fun _ w' => Inv cfg w' := by
  induction n generalizing pending iter w with
  | zero => exact hi
  | succ n ih =>
    refine WP.bind_iff.mpr ((takeRequest_ok env pending iter w hp).mono fun o w₁ ⟨h₁, hin⟩ => ?_)
    cases o with
    | none => exact hi.quiet h₁
    | some req =>
      have hval := validateRequest_ok cfg env (R := Ext Quiet) (fun _ _ => emit_moves rfl) req w₁
      refine WP.bind_iff.mpr (hval.mono fun v w₂ ⟨h₁₂, hv⟩ => ?_)
      have hi₂ := hi.quiet (h₁.trans h₁₂)
      cases v with
      | answered => exact hi₂
      | reject pe =>
        exact (writeHTTPError_quiet env pe w₂).mono fun _ _ h => hi₂.quiet h
      | proceed r =>
        have hpass : Passed cfg w₂ r := ⟨req, h₁₂.mem (hin req rfl), hv r rfl⟩
        refine WP.bind_iff.mpr ((routeRequest_ok cfg env n hi₂ hpass).mono fun x w₃ ⟨hi₃, hx⟩ => ?_)
        exact WP.ite (fun _ => ih x.1 (iter + 1) w₃ hi₃ hx) fun _ => hi₃

theorem Inv.init : Inv cfg World.init := by
  refine ⟨fun {p q c req answer} h => ?_, fun h => (nomatch h), fun h => (nomatch h), fun h => nomatch h⟩
  cases p <;> cases h

/-- In every run, what holds between the parts of a session holds of all it did. -/
theorem run_inv (n : Nat) : Inv cfg (run cfg env n) :=
  runLoop_ok cfg env n none 0 World.init (Inv.init cfg) fun _ h => nomatch h

/-- In every run, every request written out has a route. -/
theorem run_routes (n : Nat) {p q : List Event} {c : ConnId} {req : Request} {answer : List Wire}
    (h : (run cfg env n).trace = p ++ .sent c req answer :: q) : Route cfg p c req :=
  (run_inv cfg env n).sent h

end

end SP.Proof
