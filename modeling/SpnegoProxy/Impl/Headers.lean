import SpnegoProxy.Impl.Go.Http
import SpnegoProxy.Impl.Go.Net

/-!
# Headers: `headers_const.go`, `headers.go`
-/

namespace SP.Impl

open SP.Go

def headerForwarded : Str := str "Forwarded"
def headerXForwardedFor : Str := str "X-Forwarded-For"
def headerXForwardedProto : Str := str "X-Forwarded-Proto"
def headerXForwardedHost : Str := str "X-Forwarded-Host"
def headerVia : Str := str "Via"
def headerConnection : Str := str "Connection"
def headerKeepAlive : Str := str "Keep-Alive"
def headerProxyConnection : Str := str "Proxy-Connection"
def headerTE : Str := str "TE"
def headerTrailer : Str := str "Trailer"
def headerUpgrade : Str := str "Upgrade"
def headerProxyAuthorization : Str := str "Proxy-Authorization"
def headerProxyAuthenticate : Str := str "Proxy-Authenticate"
def headerContentLength : Str := str "Content-Length"
def headerMaxForwards : Str := str "Max-Forwards"

/-- The auth-scheme, with the space before the token. -/
def negotiateScheme : Str := str "Negotiate "

def schemeHTTP : Str := str "http"

def methodConnect : Str := str "CONNECT"
def methodTrace : Str := str "TRACE"
def methodOptions : Str := str "OPTIONS"

/-- `ForwardingConfig`. -/
structure ForwardingConfig where
  forwardedEnabled : Bool
  xForwardedForEnabled : Bool
  deriving DecidableEq, Repr

/-- `extractHost`. -/
def extractHost (addr : Str) : Str :=
  match splitHostPort addr with
  | .ok (h, _) => h
  | .error _ => addr

/-- `appendHeaderValue`. -/
def appendHeaderValue (header : Header) (key value : Str) : Header :=
  if header.get key ≠ [] then header.set key (header.get key ++ str ", " ++ value)
  else header.set key value

/-- `injectVia`. -/
def injectVia (header : Header) (proto pseudonym : Str) : Header :=
  appendHeaderValue header headerVia (proto ++ str " " ++ pseudonym)

/-- `Set` of a field that has no value yet. -/
def setIfEmpty (header : Header) (key value : Str) : Header :=
  if header.get key = [] then header.set key value else header

/-- `injectForwardingHeaders`; `obfID` is what `generateObfuscatedID` returns. -/
def injectForwardingHeaders (req : Request) (clientAddr : Str) (fwdCfg : ForwardingConfig)
    (obfID : Str) : Request :=
  let header := if fwdCfg.forwardedEnabled then
      appendHeaderValue req.header headerForwarded (str "for=" ++ obfID ++ str ";proto=http")
    else req.header
  let header := if fwdCfg.xForwardedForEnabled then
      let header := appendHeaderValue header headerXForwardedFor (extractHost clientAddr)
      let header := setIfEmpty header headerXForwardedProto schemeHTTP
      setIfEmpty header headerXForwardedHost req.host
    else header
  { req with header }

/-- The members of a list that is given in lines: the trimmed parts between
the commas, without the empty ones. `sanitizeHopByHop` reads `Connection` so. -/
def listMembers (lines : List Str) : List Str :=
  (lines.flatMap fun line => (splitComma line).map trimSpace).filter (· ≠ [])

/-- The hop-by-hop fields that are removed whatever `Connection` lists. -/
def hopByHopHeaders : List Str :=
  [headerConnection, headerKeepAlive, headerProxyConnection, headerTE, headerTrailer, headerUpgrade,
    headerProxyAuthorization]

/-- `sanitizeHopByHop`. -/
def sanitizeHopByHop (req : Request) : Request :=
  let named := listMembers ((req.header.entry headerConnection).getD [])
  let header := named.foldl Header.del req.header
  let header := hopByHopHeaders.foldl Header.del header
  let header := if req.transferEncoding ≠ [] ∧ header.get headerContentLength ≠ [] then
      header.del headerContentLength
    else header
  { req with header, trailer := none }

end SP.Impl
