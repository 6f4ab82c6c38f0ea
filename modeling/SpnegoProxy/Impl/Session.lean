import SpnegoProxy.Impl.NoProxy
import SpnegoProxy.Impl.Response

/-!
# The client session: `forward.go`, `direct.go`, `connect.go`

The methods of `ClientSession`, as programs over a `World`: what the session
has done so far (`trace`), what the next hops have sent and the session not
yet read (`inbox`), and the session's own upstream connection (`proxyConn`).

What the client, the next hops, the network, the token provider and the
shutdown of the process do is an `Env`: each of its fields answers one kind
of call, and may look at all that happened before. A run is the program with
some `Env`; loops take the number of iterations they may make, so that a run
that never ends is seen through all its beginnings.
-/

namespace SP.Impl

open SP.Go

/-- `Config`, and the client's address. -/
structure Config where
  pseudonym : Str
  clientAddr : Str
  connectPorts : List Str
  noProxy : Option NoProxyMatcher
  forwarding : ForwardingConfig

/-- The name of a connection that the session dialled. -/
abbrev ConnId := Nat

/-- What a connection was dialled to: the upstream proxy, or for the request
host `host` the address `addr`. -/
inductive Target where
  | upstream
  | direct (host addr : Str)
  deriving DecidableEq

/-- A message that the session writes to the client. -/
inductive ClientMsg where
  | interim (resp : Response)
  | final (resp : Response) (body : Str)
  /-- `writeHTTPError`. -/
  | error (pe : ProxyError)
  /-- `writeMaxForwardsResponse` for a method. -/
  | maxForwards (method : Str)
  /-- `writeConnectOK`. -/
  | connectOK (resp : Response)
  /-- Bytes of a tunnel. -/
  | data (bs : Str)
  deriving DecidableEq

/-- What a session does, as seen from outside. -/
inductive Event where
  /-- `readRequest` returned. -/
  | read (r : Except ReadErr Request)
  /-- `GetToken` returned. -/
  | token (r : Except GoError Str)
  /-- A dial succeeded. -/
  | dial (c : ConnId) (t : Target)
  | dialFailed (t : Target)
  /-- A request was written on `c`; `answer` is what the next hop sends for it. -/
  | sent (c : ConnId) (req : Request) (answer : List Wire)
  /-- Bytes the client sent after a request's head, written on `c`. -/
  | payload (c : ConnId) (bs : Str)
  /-- A response was read from `c` and accepted. -/
  | recv (c : ConnId) (resp : Response)
  | wrote (m : ClientMsg) (err : Option Str)

/-- When the upload of an `Expect: 100-continue` request ends, as
`exchangeRequest` sees it after the response: its result is there at the
`select`, or comes only after the deadlines are set. -/
inductive Upload where
  | done (err : Option Str)
  | late (err : Option Str)
  deriving DecidableEq

/-- A step of an established tunnel, in either direction. -/
inductive TunnelStep where
  | up (bs : Str)
  | down (bs : Str)
  deriving DecidableEq

/-- Everything the session does not decide, given what happened before. -/
structure Env where
  readRequest : List Event → Except ReadErr Request
  getToken : List Event → Except GoError Str
  dial : Target → List Event → Option DialErr
  /-- The error of `WriteProxy` or `Write`, if any. -/
  writeRequest : ConnId → Request → List Event → Option Str
  /-- The bytes of a request's body that the client sends. -/
  body : Request → List Event → Str
  /-- What the next hop sends for a request. -/
  answer : ConnId → Request → List Event → List Wire
  upload : List Event → Upload
  /-- The error of a write to the client, if any. -/
  clientWrite : ClientMsg → List Event → Option Str
  /-- Whether `ctx` is done. -/
  ctxDone : List Event → Bool
  /-- `generateObfuscatedID`. -/
  obfuscatedID : List Event → Str
  tunnel : List Event → List TunnelStep

structure World where
  trace : List Event
  inbox : ConnId → List Wire
  proxyConn : Option ConnId
  /-- The number of connections dialled. -/
  conns : Nat

/-- A program over the world. -/
abbrev Prog := StateM World

def emit (e : Event) : Prog Unit := modify fun w => { w with trace := w.trace ++ [e] }

/-- The environment's answer at this point. -/
def ask {α : Type} (f : List Event → α) : Prog α := do return f (← get).trace

/-! ## What is made of a request for the next hop -/

/-- `req` with this proxy's `Via` entry. -/
def withVia (cfg : Config) (req : Request) : Request :=
  { req with header := injectVia req.header req.proto cfg.pseudonym }

/-- `req` with the forwarding headers, for some obfuscated identifier. -/
def forwarded (cfg : Config) (id : Str) (req : Request) : Request :=
  injectForwardingHeaders req cfg.clientAddr cfg.forwarding id

/-- `req` with a token. -/
def authorised (token : Str) (req : Request) : Request :=
  { req with header := req.header.set headerProxyAuthorization (negotiateScheme ++ token) }

section

variable (cfg : Config) (env : Env)

/-! ## Writing to the client -/

def writeClient (m : ClientMsg) : Prog (Option Str) := do
  let err ← ask (env.clientWrite m)
  emit (.wrote m err)
  return err

/-- `writeHTTPError`: a failed write is ignored. -/
def writeHTTPError (pe : ProxyError) : Prog Unit := do
  let _ ← writeClient env (.error pe)

/-- `relayInterimResponse`. -/
def relayInterimResponse (req : Request) (resp : Response) : Prog (Option Str) :=
  if clientCannotParseInterim req then return none
  else writeClient env (.interim resp)

/-- `writeResponse`: `Response.Write` reads the body to its end. Returns the
response too, whose `Close` it may have set. -/
def writeResponse (c : ConnId) (resp : Response) : Prog (Option Str × Response) := do
  let resp := if ← ask env.ctxDone then { resp with close := true } else resp
  let (body, rest) := readBody ((← get).inbox c)
  modify fun w => { w with inbox := Function.update w.inbox c rest }
  let err ← writeClient env (.final resp body)
  return (err, resp)

/-! ## Reading and validating requests -/

/-- `readRequest`. -/
def readRequest : Prog (Except ReadErr Request) := do
  let r ← ask env.readRequest
  emit (.read r)
  return r

/-- `readNextRequest`. -/
def readNextRequest (iter : Nat) : Prog (Option Request) := do
  match ← readRequest env with
  | .ok req => return some req
  | .error err =>
    if err = .shutdown ∨ 0 < iter ∨ isExpectedCloseError err then return none
    else
      writeHTTPError env errHTTPRequestError
      return none

/-- What `applyMaxForwards` decides: the request to forward, or that it is
answered here. -/
def applyMaxForwards (req : Request) : Option Request :=
  if req.method ≠ methodTrace ∧ req.method ≠ methodOptions then some req
  else
    let mf := req.header.get headerMaxForwards
    if mf = [] then some req
    else match atoi mf with
      | none => some req
      | some n =>
        if n ≤ 0 then none
        else some { req with header := req.header.set headerMaxForwards (itoa (n - 1)) }

/-- `connectPortAllowed`. -/
def connectPortAllowed (port : Str) (allowedPorts : List Str) : Bool :=
  allowedPorts = [] || allowedPorts.any fun p => p = str "*" || p = port

/-- The port that `validateRequest` checks of a `CONNECT` request. -/
def connectPort (host : Str) : Str :=
  match splitHostPort host with
  | .ok (_, port) => port
  | .error _ => str "443"

/-- What `validateRequest` decides. -/
inductive Verdict where
  | proceed (req : Request)
  /-- A local response was written. -/
  | answered
  | reject (pe : ProxyError)

/-- `validateRequest`, without the local response it writes. -/
def verdict (req : Request) : Verdict :=
  if req.header.get headerVia ≠ [] ∧ contains (req.header.get headerVia) cfg.pseudonym then
    .reject errProxyLoopDetected
  else if req.method = methodConnect ∧ cfg.connectPorts ≠ [] ∧
      connectPortAllowed (connectPort req.host) cfg.connectPorts = false then
    .reject errForbiddenPort
  else
    match applyMaxForwards req with
    | none => .answered
    | some req => .proceed (sanitizeHopByHop req)

/-- `validateRequest`. -/
def validateRequest (req : Request) : Prog Verdict := do
  match verdict cfg req with
  | .answered =>
    let _ ← writeClient env (.maxForwards req.method)
    return .answered
  | v => return v

/-! ## Dialling and writing requests -/

/-- A dial: the new connection, or the error. -/
def dial (t : Target) : Prog (Except DialErr ConnId) := do
  match ← ask (env.dial t) with
  | some err =>
    emit (.dialFailed t)
    return .error err
  | none =>
    let c := (← get).conns
    modify fun w => { w with conns := w.conns + 1 }
    emit (.dial c t)
    return .ok c

/-- The body of a request, as `WriteProxy` and `Write` read it off the client
connection: at most the announced length. -/
def bodyBytes (b : Body) (bs : Str) : Str :=
  match b with
  | .noBody => []
  | .length n => bs.take n
  | .chunked => bs

/-- `WriteProxy` or `Write`: the head of the request, then its body. The next
hop queues its answer. -/
def writeRequest (c : ConnId) (req : Request) : Prog (Option Str) := do
  let err ← ask (env.writeRequest c req)
  let answer ← ask (env.answer c req)
  let bs := bodyBytes req.body (← ask (env.body req))
  modify fun w => { w with inbox := Function.update w.inbox c (w.inbox c ++ answer) }
  emit (.sent c req answer)
  if bs ≠ [] then emit (.payload c bs)
  return err

/-- `dialAndAuthUpstream`: the connection, and the request with the token. -/
def dialAndAuthUpstream (req : Request) : Prog (Option (ConnId × Request)) := do
  let r ← ask env.getToken
  emit (.token r)
  match r with
  | .error terr =>
    writeHTTPError env (tokenErrorToProxyError terr)
    return none
  | .ok token =>
    let req := authorised token req
    match ← dial env .upstream with
    | .error derr =>
      writeHTTPError env (dialError derr)
      return none
    | .ok c => return some (c, req)

/-! ## Responses -/

/-- A reader of responses, applied to the connection `c`. -/
def readOne (c : ConnId) (reader : List Wire → Except RespErr Response × List Wire) :
    Prog (Except RespErr Response) := do
  let (r, rest) := reader ((← get).inbox c)
  modify fun w => { w with inbox := Function.update w.inbox c rest }
  match r with
  | .ok resp =>
    emit (.recv c resp)
    return .ok resp
  | .error err => return .error err

/-- The results of `readThroughInterim`: `resp`, `clientWriteErr` and `err`. -/
structure ReadResult where
  resp : Option Response
  clientErr : Option Str
  err : Option RespErr

/-- `readThroughInterim`, for at most `n` responses. -/
def readThroughInterim (req : Request) (one : Prog (Except RespErr Response)) :
    Nat → Prog ReadResult
  | 0 => return ⟨none, none, some (.other (str "unexpected EOF"))⟩
  | n + 1 => do
    match ← one with
    | .error err => return ⟨none, none, some err⟩
    | .ok resp =>
      if isInterimResponse resp = false then return ⟨some resp, none, none⟩
      else if validateResponseHeaderBytes resp = false then return ⟨none, none, some .malformedResponse⟩
      else match ← relayInterimResponse env req resp with
        | some werr => return ⟨none, some werr, none⟩
        | none => readThroughInterim req one n

/-- `readThroughInterim` on the connection `c`: each response takes something
off what is queued there, so the bound is never met. -/
def readFinal (c : ConnId) (req : Request)
    (reader : List Wire → Except RespErr Response × List Wire) : Prog ReadResult := do
  readThroughInterim env req (readOne c reader) (((← get).inbox c).length + 1)

/-- The results of `exchangeRequest`. -/
structure Exchange where
  resp : Option Response
  requestErr : Option Str
  clientErr : Option Str
  err : Option RespErr

/-- What `exchangeRequest` makes of the response and the upload's end. -/
def joinUpload (r : ReadResult) : Upload → Exchange
  | .done none => ⟨r.resp, none, r.clientErr, r.err⟩
  | .late none => ⟨r.resp.map fun resp => { resp with close := true }, none, r.clientErr, r.err⟩
  | .done (some werr) =>
    match r.resp with
    | some resp => ⟨some { resp with close := true }, none, r.clientErr, r.err⟩
    | none => ⟨none, some werr, r.clientErr, r.err⟩
  | .late (some _) => ⟨r.resp.map fun resp => { resp with close := true }, none, r.clientErr, r.err⟩

/-- `exchangeRequest`. -/
def exchangeRequest (c : ConnId) (req : Request)
    (reader : List Wire → Except RespErr Response × List Wire) : Prog Exchange := do
  if req.body = .noBody ∨ expectsContinue req = false then
    match ← writeRequest env c req with
    | some werr => return ⟨none, some werr, none, none⟩
    | none =>
      let r ← readFinal env c req reader
      return ⟨r.resp, none, r.clientErr, r.err⟩
  else
    -- the upload runs beside the reads: its error is part of how it ends
    let _ ← writeRequest env c req
    let r ← readFinal env c req reader
    return joinUpload r (← ask env.upload)

/-! ## Relaying -/

/-- The end of `relayViaUpstream` and `relayDirect`, after the exchange. -/
def finishRelay (c : ConnId) (req : Request) (x : Exchange) (onErr : RespErr → Prog Unit) :
    Prog Bool := do
  if x.requestErr ≠ none then
    writeHTTPError env errConnectionTerminated
    return false
  if x.clientErr ≠ none then return false
  match x.err, x.resp with
  | some rerr, _ =>
    onErr rerr
    return false
  | none, none => return false
  | none, some resp =>
    let (err, resp) ← writeResponse env c resp
    if err ≠ none then return false
    return !connectionWillClose req resp

/-- The connection for `relayViaUpstream`: the session's own, or a new one. -/
def upstreamConn (req : Request) : Prog (Option (ConnId × Request)) := do
  match (← get).proxyConn with
  | some c => return some (c, req)
  | none => dialAndAuthUpstream env req

/-- `relayViaUpstream`. -/
def relayViaUpstream (req : Request) : Prog Bool := do
  let req := forwarded cfg (← ask env.obfuscatedID) req
  match ← upstreamConn env req with
  | none => return false
  | some (c, req) =>
    modify fun w => { w with proxyConn := some c }
    let req := withVia cfg req
    let x ← exchangeRequest env c req (readUpstreamResponse cfg.pseudonym)
    finishRelay env c req x fun rerr => writeHTTPError env (upstreamResponseError rerr)

/-- `relayDirect`: a response that cannot be read is only logged. -/
def relayDirect (c : ConnId) (req : Request) : Prog Bool := do
  let x ← exchangeRequest env c req (readDirectResponse cfg.pseudonym)
  finishRelay env c req x fun _ => return ()

/-! ## Tunnels -/

/-- `forwardTunnel`, as the bytes it passes on. -/
def forwardTunnel (c : ConnId) : List TunnelStep → Prog Unit
  | [] => return ()
  | .up bs :: steps => do
    emit (.payload c bs)
    forwardTunnel c steps
  | .down bs :: steps => do
    let _ ← writeClient env (.data bs)
    forwardTunnel c steps

/-- `handleConnectTunnel`. -/
def handleConnectTunnel (c : ConnId) (req : Request) : Prog Unit := do
  let r ← readFinal env c req (readUpstreamResponse cfg.pseudonym)
  if r.clientErr ≠ none then return ()
  match r.err, r.resp with
  | some err, _ => writeHTTPError env (upstreamResponseError err)
  | none, none => return ()
  | none, some resp =>
    if resp.statusCode < 200 ∨ 300 ≤ resp.statusCode then
      let _ ← writeClient env (.final resp (readBody ((← get).inbox c)).1)
    else if (← writeClient env (.connectOK resp)) = none then
      forwardTunnel env c (← ask env.tunnel)

/-- What `tunnelViaUpstream` does on a connection. -/
def requestTunnel (c : ConnId) (req : Request) : Prog Unit := do
  if (← writeRequest env c req) ≠ none then writeHTTPError env errConnectionTerminated
  else handleConnectTunnel cfg env c req

/-- The response that `tunnelDirect` writes. -/
def directOK (req : Request) : Response where
  status := []
  statusCode := 200
  proto := []
  protoMajor := 1
  protoMinor := 1
  header := injectVia ⟨∅⟩ req.proto cfg.pseudonym
  close := false
  transferEncoding := []
  contentLength := 0

/-- What `tunnelDirect` does on a connection. -/
def answerTunnel (c : ConnId) (req : Request) : Prog Unit := do
  if (← writeClient env (.connectOK (directOK cfg req))) = none then
    forwardTunnel env c (← ask env.tunnel)

/-! ## Requests on a direct connection -/

/-- What `nextDirectRequest` returns. -/
inductive Next where
  | stop
  /-- A request for another host, to be routed again. -/
  | reroute (req : Request)
  | relay (req : Request)

/-- `nextDirectRequest`. -/
def nextDirectRequest (boundHost : Str) : Prog Next := do
  match ← readRequest env with
  | .error _ => return .stop
  | .ok req =>
    if sameHost req.host boundHost (str "80") = false then return .reroute req
    match ← validateRequest cfg env req with
    | .answered => return .stop
    | .reject pe =>
      writeHTTPError env pe
      return .stop
    | .proceed req =>
      if req.method = methodConnect then
        writeHTTPError env errMismatchedTarget
        return .stop
      return .relay (withVia cfg req)

/-- The loop of `forwardDirect`, for at most `n` requests. Returns the
request to route again, if any: without one the session ends. -/
def directLoop (c : ConnId) (boundHost : Str) : Nat → Request → Prog (Option Request)
  | 0, _ => return none
  | n + 1, req => do
    if !(← relayDirect cfg env c req) then return none
    match ← nextDirectRequest cfg env boundHost with
    | .stop => return none
    | .reroute req => return some req
    | .relay req => directLoop c boundHost n req

/-- `noproxy` covers the host. -/
def Config.bypasses (cfg : Config) (host : Str) : Bool :=
  match cfg.noProxy with
  | some m => m.covers host
  | none => false

/-- The request of an iteration of `run`: the one to route again, or the next
one the client sends. -/
def takeRequest (pending : Option Request) (iter : Nat) : Prog (Option Request) :=
  match pending with
  | some req => return some req
  | none => readNextRequest env iter

end

/-! ## The routes and the loop

`forwardDirect`, `tunnelDirect` and `tunnelViaUpstream` close the connection
they dialled when they return. Where the closes are to be seen, the routes run
in a monad that sees them. -/

/-- How a part of the session runs that closes nothing, and how a connection
is closed. -/
structure Runtime (m : Type → Type) where
  part : {α : Type} → Prog α → m α
  close : ConnId → m Unit

namespace Runtime

variable {m : Type → Type} [Monad m] (rt : Runtime m) (cfg : Config) (env : Env)

/-- `forwardDirect`. -/
def forwardDirect (n : Nat) (req : Request) : m (Option Request) := do
  match ← rt.part (dial env (.direct req.host (dialTarget req.host (str "80")))) with
  | .error err =>
    rt.part (writeHTTPError env (dialError err))
    return none
  | .ok c =>
    let next ← rt.part (directLoop cfg env c req.host n req)
    rt.close c
    return next

/-- `tunnelDirect`. -/
def tunnelDirect (req : Request) : m Unit := do
  match ← rt.part (dial env (.direct req.host (dialTarget req.host (str "443")))) with
  | .error err => rt.part (writeHTTPError env (dialError err))
  | .ok c =>
    rt.part (answerTunnel cfg env c req)
    rt.close c

/-- `tunnelViaUpstream`: on a connection of its own, which the session does
not keep. -/
def tunnelViaUpstream (req : Request) : m Unit := do
  let req := forwarded cfg (← rt.part (ask env.obfuscatedID)) req
  match ← rt.part (dialAndAuthUpstream env req) with
  | none => return ()
  | some (c, req) =>
    rt.part (requestTunnel cfg env c (withVia cfg req))
    rt.close c

/-- `routeRequest`: the request to route again, and whether the session goes on. -/
def routeRequest (n : Nat) (req : Request) : m (Option Request × Bool) := do
  if cfg.bypasses req.host then
    if req.method = methodConnect then
      rt.tunnelDirect cfg env req
      return (none, false)
    else
      let next ← rt.forwardDirect cfg env n (withVia cfg req)
      return (next, next.isSome)
  else if req.method = methodConnect then
    rt.tunnelViaUpstream cfg env req
    return (none, false)
  else return (none, ← rt.part (relayViaUpstream cfg env req))

/-- The loop of `run`, for at most `n` requests. -/
def runLoop : Nat → Option Request → Nat → m Unit
  | 0, _, _ => return ()
  | n + 1, pending, iter => do
    match ← rt.part (takeRequest env pending iter) with
    | none => return ()
    | some req =>
      match ← rt.part (validateRequest cfg env req) with
      | .answered => return ()
      | .reject pe => rt.part (writeHTTPError env pe)
      | .proceed req =>
        let (next, cont) ← rt.routeRequest cfg env n req
        if cont then runLoop n next (iter + 1)

end Runtime

/-- The session, without its closes. -/
abbrev unclosed : Runtime Prog := ⟨fun p => p, fun _ => pure ()⟩

section

variable (cfg : Config) (env : Env)

/-- `forwardDirect`, without the close. -/
def forwardDirect (n : Nat) (req : Request) : Prog (Option Request) :=
  unclosed.forwardDirect cfg env n req

/-- `tunnelDirect`, without the close. -/
def tunnelDirect (req : Request) : Prog Unit := unclosed.tunnelDirect cfg env req

/-- `tunnelViaUpstream`, without the close. -/
def tunnelViaUpstream (req : Request) : Prog Unit := unclosed.tunnelViaUpstream cfg env req

/-- `routeRequest`, without the closes. -/
def routeRequest (n : Nat) (req : Request) : Prog (Option Request × Bool) :=
  unclosed.routeRequest cfg env n req

/-- The loop of `run`, without the closes. -/
def runLoop (n : Nat) (pending : Option Request) (iter : Nat) : Prog Unit :=
  unclosed.runLoop cfg env n pending iter

/-- The world when a session starts. -/
def World.init : World := ⟨[], fun _ => [], none, 0⟩

/-- `ClientSession.run`, for at most `n` requests on each of its loops. -/
def run (n : Nat) : World := (runLoop cfg env n none 0 World.init).2

end

end SP.Impl
