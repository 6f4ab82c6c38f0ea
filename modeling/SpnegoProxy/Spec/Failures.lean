import SpnegoProxy.Framework.Wp
import SpnegoProxy.Impl.Session

/-!
# Attempts that fail, and the error response

`Fails` says, of what the network and the next hop do, that an attempt of a
request gets no final response, and how: the dial fails, the upload fails, or
no final response can be read. `Answers` is what the client may then expect:
one error response of the proxy, for an error of a server.
-/

namespace SP.Spec

open SP.Go SP.Impl

/-- Every write to the client succeeds. -/
def Writable (env : Env) : Prop := ∀ m tr, env.clientWrite m tr = none

/-- What `reader` reads off `ws` leads to a final response. -/
inductive Delivers (reader : List Wire → Except RespErr Response × List Wire) :
    List Wire → Prop where
  | final {ws rest resp} : reader ws = (.ok resp, rest) → isInterimResponse resp = false →
    Delivers reader ws
  | interim {ws rest resp} : reader ws = (.ok resp, rest) → isInterimResponse resp = true →
    validateResponseHeaderBytes resp = true → Delivers reader rest → Delivers reader ws

/-- How an attempt fails. -/
inductive Failure where
  | dial
  | upload
  | response
  deriving DecidableEq

/-- What `exchangeRequest` waits for before it reads. -/
abbrev WritesFirst (req : Request) : Prop := req.body = .noBody ∨ expectsContinue req = false

section

variable (env : Env) (reader : List Wire → Except RespErr Response × List Wire) (c : ConnId) (req : Request) (w : World)

/-- All that the next hop has sent on `c`, and not been read, when `req` is written. -/
def queued : List Wire := w.inbox c ++ env.answer c req w.trace

/-- What has happened when the reads for `req` are over. -/
def afterReads : List Event :=
  ((do let _ ← writeRequest env c req
       readFinal env c req reader : Prog ReadResult).run w).2.trace

/-- The exchange of `req` on `c` fails. An upload that runs beside the reads
fails an exchange if its error is there when they are over. -/
inductive ExchangeFails : Failure → Prop where
  | write {werr} : WritesFirst req → env.writeRequest c req w.trace = some werr →
    ExchangeFails .upload
  | read : WritesFirst req → env.writeRequest c req w.trace = none →
    ¬ Delivers reader (queued env c req w) →
    ExchangeFails .response
  | writeBeside {werr} : ¬ WritesFirst req → ¬ Delivers reader (queued env c req w) →
    env.upload (afterReads env reader c req w) = .done (some werr) → ExchangeFails .upload
  | readBeside : ¬ WritesFirst req → ¬ Delivers reader (queued env c req w) →
    (∀ werr, env.upload (afterReads env reader c req w) ≠ .done (some werr)) →
    ExchangeFails .response

end

/-- Who attempts a request: `routeRequest`, with which a direct connection
serves at most `n + 1` requests, or the loop bound to the direct connection `c`. -/
inductive Hop where
  | routed (n : Nat)
  | bound (c : ConnId)

section

variable (cfg : Config) (env : Env)

/-- One attempt; it returns whether the session goes on. -/
def attempt (r : Request) : Hop → Prog Bool
  | .routed n => do return (← routeRequest cfg env (n + 1) r).2
  | .bound c => relayDirect cfg env c (withVia cfg r)

/-- The attempt goes to the upstream proxy. -/
def Hop.Upstream (r : Request) : Hop → Prop
  | .routed _ => cfg.bypasses r.host = false
  | .bound _ => False

/-- The world after a dial to `t`. -/
def dialled (t : Target) (w : World) : World :=
  { w with trace := w.trace ++ [.dial w.conns t], conns := w.conns + 1 }

/-- `r` as `relayViaUpstream` sends it. -/
abbrev relayed (r : Request) (w : World) : Request := forwarded cfg (env.obfuscatedID w.trace) r

/-- The target of a direct connection for the host of `r`. -/
abbrev directTarget (r : Request) : Target := .direct r.host (dialTarget r.host (str "80"))

/-- The attempt of `r` fails. -/
inductive Fails (r : Request) (w : World) : Hop → Failure → Prop where
  | upstreamDial {n token derr} : cfg.bypasses r.host = false → w.proxyConn = none →
    env.getToken w.trace = .ok token →
      env.dial .upstream (w.trace ++ [.token (.ok token)]) = some derr →
    Fails r w (.routed n) .dial
  | upstreamFirst {n token k} : cfg.bypasses r.host = false → w.proxyConn = none →
    env.getToken w.trace = .ok token → env.dial .upstream (w.trace ++ [.token (.ok token)]) = none →
    ExchangeFails env (readUpstreamResponse cfg.pseudonym) w.conns
      (withVia cfg (authorised token (relayed cfg env r w)))
      { dialled .upstream { w with trace := w.trace ++ [.token (.ok token)] } with proxyConn := some w.conns } k →
    Fails r w (.routed n) k
  | upstreamReused {n c k} : cfg.bypasses r.host = false → w.proxyConn = some c →
    ExchangeFails env (readUpstreamResponse cfg.pseudonym) c (withVia cfg (relayed cfg env r w)) w k →
    Fails r w (.routed n) k
  | directDial {n derr} : cfg.bypasses r.host = true →
    env.dial (directTarget r) w.trace = some derr →
    Fails r w (.routed n) .dial
  | directFirst {n k} : cfg.bypasses r.host = true → env.dial (directTarget r) w.trace = none →
    ExchangeFails env (readDirectResponse cfg.pseudonym) w.conns (withVia cfg r) (dialled (directTarget r) w) k →
    Fails r w (.routed n) k
  | bound {c k} : ExchangeFails env (readDirectResponse cfg.pseudonym) c (withVia cfg r) w k →
    Fails r w (.bound c) k

end

/-! ## Error responses -/

/-- The error response that an event writes. -/
def errorOf : Event → Option ProxyError
  | .wrote (.error pe) _ => some pe
  | _ => none

/-- From `w` to `w'` the session wrote the error responses `pes`. -/
def Adds (pes : List ProxyError) (w w' : World) : Prop :=
  ∃ es, w'.trace = w.trace ++ es ∧ es.filterMap errorOf = pes

/-- The session wrote exactly one error response, for an error of a server. -/
def AnsweredByError (w w' : World) : Prop :=
  ∃ pe, Adds [pe] w w' ∧ 500 ≤ pe.statusCode ∧ pe.statusCode < 600

/-- The attempt ends the session, with exactly one error response. -/
def Answers (m : Prog Bool) (w : World) : Prop :=
  WP m w fun b w' => b = false ∧ AnsweredByError w w'

namespace Adds

variable {pes pes' : List ProxyError} {w w' w'' : World}

theorem rfl' (w : World) : Adds [] w w := ⟨[], (List.append_nil _).symm, rfl⟩

theorem of_event {e : Event} (ht : w'.trace = w.trace ++ [e]) (he : errorOf e = none) :
    Adds [] w w' :=
  ⟨[e], ht, by simp [he]⟩

theorem trans (h : Adds pes w w') (h' : Adds pes' w' w'') : Adds (pes ++ pes') w w'' := by
  obtain ⟨es, ht, he⟩ := h
  obtain ⟨es', ht', he'⟩ := h'
  exact ⟨es ++ es', by rw [ht', ht, List.append_assoc], by rw [List.filterMap_append, he, he']⟩

theorem unique (h : Adds pes w w') (h' : Adds pes' w w') : pes = pes' := by
  obtain ⟨es, ht, rfl⟩ := h
  obtain ⟨es', ht', rfl⟩ := h'
  rw [List.append_cancel_left (ht.symm.trans ht')]

theorem not_answered (h : Adds [] w w') : ¬ AnsweredByError w w' :=
  fun ⟨_, h', _⟩ => (nomatch h.unique h')

end Adds

theorem AnsweredByError.of_adds {w w' w'' : World} (ha : Adds [] w w')
    (h : AnsweredByError w' w'') : AnsweredByError w w'' := by
  obtain ⟨pe, h, hs⟩ := h
  exact ⟨pe, ha.trans h, hs⟩

end SP.Spec
