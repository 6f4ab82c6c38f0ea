import SpnegoProxy.Spec.Headers
import SpnegoProxy.Spec.Pairing

/-!
# Messages on their way through the proxy

`Transparent` says what of a request is left when it is handed to
`Request.Write` or `Request.WriteProxy`.

What a next hop is to send on a connection is the list `queueOn`, in the heads
and bodies that `net/http` makes of the bytes; what the session has accepted of
it is `receivedOn`. `Came` says where a message to the client comes from: it is
the response that was received last, which is the next one in the queue of its
connection. Nothing else is assumed of the next hop. Where a body ends is for
`net/http` to find, so nothing is said of bodies. `Preserves` says what of a
response is the next hop's.
-/

namespace SP.Spec

open SP.Go SP.Impl

/-! ## Requests -/

/-- The field is not for the next hop. -/
def Withheld (raw : Request) (k : Str) : Prop :=
  HopByHop raw k ∨ (k = canonicalKey headerContentLength ∧ DropsLength raw)

/-- `req` is `raw` without what is not for the next hop, and perhaps with
other values of the fields `names`. -/
structure Transparent (names : List Str) (raw req : Request) : Prop where
  method : req.method = raw.method
  host : req.host = raw.host
  proto : (req.proto, req.protoMajor, req.protoMinor) = (raw.proto, raw.protoMajor, raw.protoMinor)
  close : req.close = raw.close
  framing : req.transferEncoding = raw.transferEncoding
  body : req.body = raw.body
  trailer : req.trailer = none
  /-- No field is lost that is for the next hop. -/
  kept : ∀ k, canonicalKey k = k → k.all isTokenByte = true → k ∉ names.map canonicalKey →
    ¬ Withheld raw k →
    req.header.entry k = raw.header.entry k
  /-- No other field reaches it. -/
  withheld : ∀ k, canonicalKey k = k → k.all isTokenByte = true → k ∉ names.map canonicalKey →
    Withheld raw k →
    req.header.entry k = none

/-- The field that is counted down on the way of two methods. -/
def countedDown (raw : Request) : List Str :=
  if raw.method = methodTrace ∨ raw.method = methodOptions then [headerMaxForwards] else []

/-- The fields that the proxy changes on the way to `t`. -/
def rewritten (raw : Request) : Target → List Str
  | .direct _ _ => countedDown raw ++ [headerVia]
  | .upstream => countedDown raw ++ forwardingHeaders ++ [headerProxyAuthorization] ++ [headerVia]

/-! ## Responses -/

/-- What the next hop is to send for a request that the event writes on `c`. -/
def answerOn (c : ConnId) : Event → List Wire
  | .sent c' _ answer => if c' = c then answer else []
  | _ => []

/-- The response that the event receives from `c`. -/
def recvOn (c : ConnId) : Event → Option Response
  | .recv c' r => if c' = c then some r else none
  | _ => none

/-- What the next hop is to send on `c`, for all requests. -/
def queueOn (c : ConnId) (tr : List Event) : List Wire := tr.flatMap (answerOn c)

/-- The responses that were received from `c`. -/
def receivedOn (c : ConnId) (tr : List Event) : List Response := tr.filterMap (recvOn c)

/-- The response head on a connection. -/
def wireHead : Wire → Option Response
  | .head r => some r
  | _ => none

/-- The responses among `ws` that the proxy accepts, as it rewrites them. -/
def accepted (cfg : Config) (t : Target) (ws : List Wire) : List Response :=
  (ws.filterMap wireHead).filterMap fun r => (rewrite cfg t r).toOption

/-- What of a response `r` is left in the `r'` that is relayed. The line of
`Via` is the first one of the next hop, with the proxy's own entry. -/
structure Preserves (cfg : Config) (t : Target) (r r' : Response) : Prop where
  status : r'.status = r.status ∧ r'.statusCode = r.statusCode
  proto : r'.proto = r.proto ∧ r'.protoMajor = r.protoMajor ∧ r'.protoMinor = r.protoMinor
  framing : r'.transferEncoding = r.transferEncoding ∧ r'.close = r.close
  other : ∀ k, k ∉ [headerVia, headerProxyAuthenticate, headerContentLength] →
    r'.header.entry k = r.header.entry k
  via : r'.header.entry headerVia = some [if r.header.get headerVia ≠ [] then
    r.header.get headerVia ++ str ", " ++ (r.proto ++ str " " ++ cfg.pseudonym) else r.proto ++ str " " ++ cfg.pseudonym]
  /-- A challenge of the upstream proxy is not for the client. -/
  challenge : r'.header.entry headerProxyAuthenticate =
    if t = .upstream then none else r.header.entry headerProxyAuthenticate
  /-- A length beside a transfer coding is taken out. -/
  length : if t = .upstream ∧ r.transferEncoding ≠ [] ∧ r.header.get headerContentLength ≠ [] then
      r'.header.entry headerContentLength = none ∧ r'.contentLength = -1
    else r'.header.entry headerContentLength = r.header.entry headerContentLength ∧
      r'.contentLength = r.contentLength

/-- After `p`, the next response on `c` is `r`, all before it were dealt with,
and it is relayed as `r'`; `rest` follows it. -/
structure Took (cfg : Config) (p : List Event) (c : ConnId) (t : Target) (r r' : Response)
    (rest : List Wire) : Prop where
  dialled : .dial c t ∈ p
  next : ∃ ws, queueOn c p = ws ++ .head r :: rest ∧ receivedOn c p = accepted cfg t ws
  rewritten : rewrite cfg t r = .ok r'
  preserves : Preserves cfg t r r'

/-- Where a message that is written to the client after `tr` comes from. -/
inductive Came (cfg : Config) (tr : List Event) : ClientMsg → Prop where
  | interim {p : List Event} {c : ConnId} {t : Target} {r r' : Response} {rest : List Wire} :
    tr = p ++ [.recv c r'] → Took cfg p c t r r' rest → isInterimResponse r = true →
      Came cfg tr (.interim r')
  | final {p : List Event} {c : ConnId} {t : Target} {r r' : Response} {rest : List Wire} {close : Bool} {body : Str} :
    tr = p ++ [.recv c r'] → Took cfg p c t r r' rest → isInterimResponse r = false →
    Came cfg tr (.final { r' with close := r'.close || close } body)
  | connectOK {p : List Event} {c : ConnId} {r r' : Response} {rest : List Wire} :
    tr = p ++ [.recv c r'] → Took cfg p c .upstream r r' rest → 200 ≤ r.statusCode →
      r.statusCode < 300 →
    Came cfg tr (.connectOK r')
  /-- A direct tunnel: the proxy is the one that has dialled. -/
  | directOK {p : List Event} {c : ConnId} {req : Request} {host addr : Str} :
    tr = p ++ [.dial c (.direct host addr)] → Came cfg tr (.connectOK (directOK cfg req))

/-- A message that is a response of a next hop, or the `200` of a tunnel. -/
def isRelayed : ClientMsg → Bool
  | .interim _ | .final _ _ | .connectOK _ => true
  | _ => false

end SP.Spec
