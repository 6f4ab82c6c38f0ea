import SpnegoProxy.Impl.Session
import SpnegoProxy.Impl.Heads

/-!
# Local responses on the wire: `errors_proxy.go`, `headers.go`

What `writeHTTPError` and `writeMaxForwardsResponse` write to the client.
-/

namespace SP.Impl

open SP.Go

def headerContentType : Str := str "Content-Type"
def headerAllow : Str := str "Allow"
def headerProxyStatus : Str := str "Proxy-Status"

def connectionClose : Str := str "close"
def contentTypeTextUTF8 : Str := str "text/plain; charset=utf-8"
def proxyStatusPre : Str := str "spnego-proxy; error="
def allowMethods : Str := str "GET, HEAD, POST, PUT, DELETE, PATCH, OPTIONS, TRACE, CONNECT"

/-- The predefined errors. -/
def proxyErrors : List ProxyError :=
  [errConnectionTimeout, errConnectionRefused, errTokenAcquisition, errCredentialFailure,
    errNegotiationFailure,
    errCircuitBreakerOpen, errHTTPRequestError, errConnectionTerminated, errProxyLoopDetected,
    errInvalidContentLength, errMalformedResponseHeader, errForbiddenPort, errUnparseableResponse,
      errClientDenied,
    errMismatchedTarget]

/-- `http.StatusText`, of the codes of local responses. -/
def localStatusText : Nat → Str
  | 200 => str "OK"
  | 400 => str "Bad Request"
  | 403 => str "Forbidden"
  | 502 => str "Bad Gateway"
  | 504 => str "Gateway Timeout"
  | _ => []

/-- The text that `Response.Write` prints for an empty `Status`. -/
def writtenText (code : Nat) : Str :=
  if localStatusText code ≠ [] then localStatusText code else str "status code " ++ itoa code

/-- What `Response.Write` writes for a response with an empty `Status`, no
`Request`, and the body `body`. -/
def writeLocal (r : Response) (body : Str) : Str :=
  { r with status := writtenText r.statusCode }.writeHead [] [] ++ body

/-- The response of `writeHTTPError`. -/
def errorResponse (pe : ProxyError) : Response where
  status := []
  statusCode := pe.statusCode
  proto := []
  protoMajor := 1
  protoMinor := 1
  header := ⟨((AList.insert headerContentType [contentTypeTextUTF8] ∅).insert headerConnection
    [connectionClose]).insert headerProxyStatus [proxyStatusPre ++ str pe.errorType]⟩
  close := false
  transferEncoding := []
  contentLength := (str pe.body).length

/-- The response of `writeMaxForwardsResponse`, to a request of the method. -/
def maxForwardsResponse (method : Str) : Response where
  status := []
  statusCode := 200
  proto := []
  protoMajor := 1
  protoMinor := 1
  header :=
    let header : Header :=
      ⟨(AList.insert headerContentType [contentTypeTextUTF8] ∅).insert headerConnection [connectionClose]⟩
    if method = methodOptions then header.set headerAllow allowMethods else header
  close := false
  transferEncoding := []
  contentLength := 0

/-- The bytes of a message that the proxy makes itself. -/
def localBytes : ClientMsg → Option Str
  | .error pe => some (writeLocal (errorResponse pe) (str pe.body))
  | .maxForwards method => some (writeLocal (maxForwardsResponse method) [])
  | _ => none

end SP.Impl
