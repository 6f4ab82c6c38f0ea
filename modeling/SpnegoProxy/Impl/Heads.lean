import SpnegoProxy.Impl.Response
import SpnegoProxy.Impl.Go.Message

/-!
# Response heads on the wire: `response.go`, `headers.go`, `connect.go`

What the upstream route prints for a response that it has accepted.
-/

namespace SP.Impl

open SP.Go

/-- What `http.ReadResponse` makes of a stream. -/
def wireOf (lib : Library) (bs : Str) : Wire :=
  match readResponseHead lib bs with
  | .ok p => .head p.resp
  | .error err => .bad err

/-- What `relayInterimResponse` writes. -/
def interimHead (resp : Response) : Str :=
  headBytes ([resp.proto ++ str " " ++ resp.status] ++
    resp.header.writeSubset [headerContentLength, str "Transfer-Encoding", headerTrailer])

/-- `http.StatusText`, of the codes of success. -/
def statusText : Nat → Str
  | 200 => str "OK"
  | 201 => str "Created"
  | 202 => str "Accepted"
  | 203 => str "Non-Authoritative Information"
  | 204 => str "No Content"
  | 205 => str "Reset Content"
  | 206 => str "Partial Content"
  | 207 => str "Multi-Status"
  | 208 => str "Already Reported"
  | 226 => str "IM Used"
  | _ => []

/-- What `writeConnectOK` writes. -/
def connectOKHead (resp : Response) : Str :=
  let via := resp.header.get headerVia
  headBytes ([str "HTTP/" ++ itoa resp.protoMajor ++ str "." ++ itoa resp.protoMinor ++ str " " ++
      itoa resp.statusCode ++ str " " ++ statusText resp.statusCode] ++
    (if via ≠ [] then [str "Via: " ++ via] else []))

/-- The head that the client gets for an accepted response; `closing` is
whether its `Close` is set before it is written. -/
def relayedHead (req : Request) (closing : Bool) (resp : Response) (trailer : List Str) :
    Option Str :=
  if isInterimResponse resp then
    if clientCannotParseInterim req then none else some (interimHead resp)
  else if req.method = methodConnect ∧ 200 ≤ resp.statusCode ∧ resp.statusCode < 300 then some (connectOKHead resp)
  else some ({ resp with close := resp.close || closing }.writeHead req.method trailer)

end SP.Impl
