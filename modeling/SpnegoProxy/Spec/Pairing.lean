import SpnegoProxy.Impl.Session

/-!
# Requests and the responses they get

A next hop that keeps to the protocol answers a request by a `Reply`: some
interim responses, then one final response and its body. `relays` reads off
a session's trace the requests it wrote out, each with the responses it
wrote to the client before the next one. `Whole` and `Begun` say what these
must be for a reply: all of it, or interim responses from its beginning.
-/

namespace SP.Spec

open SP.Go SP.Impl

/-- What a next hop sends for one request. -/
structure Reply where
  interims : List Response
  final : Response
  /-- The body of the final response, in the pieces it arrives in. -/
  chunks : List Str
  interims_interim : ∀ r ∈ interims, isInterimResponse r = true
  final_final : isInterimResponse final = false

/-- A reply on the connection. -/
def Reply.wire (r : Reply) : List Wire :=
  r.interims.map .head ++ .head r.final :: r.chunks.map .data

/-- The body of the final response. -/
def Reply.body (r : Reply) : Str := r.chunks.flatten

/-- The response has two framings, of which the length is not the one to use. -/
abbrev DoublyFramed (r : Response) : Prop :=
  r.transferEncoding ≠ [] ∧ r.header.get headerContentLength ≠ []

/-- What is left of a response of the upstream proxy: all of it, but for a
length beside a transfer coding and the challenge, which is not for the client;
and `Via` has one more entry. -/
def cleaned (cfg : Config) (r : Response) : Response :=
  { r with
    header := injectVia ((if DoublyFramed r then r.header.del headerContentLength else r.header).del
      headerProxyAuthenticate) r.proto cfg.pseudonym
    contentLength := if DoublyFramed r then -1 else r.contentLength }

/-- What the proxy makes of a response from a connection dialled to `t`. On a
direct connection only `Via` is added. A response of the upstream proxy is
rejected if its lengths disagree or a field is malformed, and cleaned otherwise. -/
def rewrite (cfg : Config) : Target → Response → Except RespErr Response
  | .upstream, r =>
    if validateResponseContentLength r = false then .error .contentLengthInvalid
    else if validateResponseHeaderBytes r = false then .error .malformedResponse
    else .ok (cleaned cfg r)
  | .direct _ _, r => .ok { r with header := injectVia r.header r.proto cfg.pseudonym }

/-- A request that was written out on `conn`, what the next hop answered, and
the responses that were written to the client before the next request. -/
structure Relay where
  conn : ConnId
  req : Request
  answer : List Wire
  msgs : List ClientMsg

/-- A message that is a response of the next hop. -/
def isResponse : ClientMsg → Bool
  | .interim _ => true
  | .final _ _ => true
  | _ => false

/-- The event `e` after the requests `xs`. -/
def relaysStep (xs : List Relay) (e : Event) : List Relay :=
  match e with
  | .sent c req answer => xs ++ [⟨c, req, answer, []⟩]
  | .wrote m _ => if isResponse m then xs.modifyLast fun x => { x with msgs := x.msgs ++ [m] } else xs
  | _ => xs

/-- The requests of a trace, in order, each with the responses written for it. -/
def relays (tr : List Event) : List Relay := tr.foldl relaysStep []

/-- The interim responses `rs` as a client gets them that sent `req`: one that
speaks HTTP/1.0 gets none. -/
def interimMsgs (req : Request) (rs : List Response) : List ClientMsg :=
  if req.protoAtLeast 1 1 then rs.map .interim else []

/-- `rs` is what the proxy makes of the responses `is`. -/
abbrev Rewrites (cfg : Config) (t : Target) (is rs : List Response) : Prop :=
  List.Forall₂ (fun i r => rewrite cfg t i = .ok r) is rs

/-- The client got the whole reply, in order: its interim responses, then its
final response. The proxy may announce the end of the connection in it. -/
def Whole (cfg : Config) (t : Target) (reply : Reply) (x : Relay) : Prop :=
  ∃ rs r close, Rewrites cfg t reply.interims rs ∧ rewrite cfg t reply.final = .ok r ∧
    x.msgs = interimMsgs x.req rs ++ [.final { r with close := r.close || close } reply.body]

/-- The client got interim responses from the beginning of the reply, and no
final response. -/
def Begun (cfg : Config) (t : Target) (reply : Reply) (x : Relay) : Prop :=
  ∃ k rs, Rewrites cfg t (reply.interims.take k) rs ∧ x.msgs = interimMsgs x.req rs

/-- In the trace, every request got the responses of its own reply: all of
them, or for the last request a beginning. -/
def Paired (cfg : Config) (tr : List Event) : Prop :=
  ∀ k x, (relays tr)[k]? = some x → ∃ t reply, .dial x.conn t ∈ tr ∧ x.answer = reply.wire ∧
    (Whole cfg t reply x ∨ (k + 1 = (relays tr).length ∧ Begun cfg t reply x))

/-- The next hops keep to the protocol. -/
def Conforming (env : Env) : Prop := ∀ c req tr, ∃ reply : Reply, env.answer c req tr = reply.wire

end SP.Spec
