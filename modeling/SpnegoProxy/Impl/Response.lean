import SpnegoProxy.Impl.Errors
import SpnegoProxy.Impl.Headers
import SpnegoProxy.Impl.Go.Strconv

/-!
# Responses of the next hop: `response.go`
-/

namespace SP.Impl

open SP.Go

/-- `isValidFieldName`. -/
def isValidFieldName (name : Str) : Bool := name ≠ [] && name.all isTokenByte

/-- `hasForbiddenFieldValueByte`. -/
def hasForbiddenFieldValueByte (v : Str) : Bool :=
  v.any fun c => c != 0x09 && (c < 0x20 || c == 0x7F)

/-- `validateResponseHeaderBytes`: whether it finds nothing to reject. -/
def validateResponseHeaderBytes (resp : Response) : Bool :=
  resp.header.fields.entries.all fun f => isValidFieldName f.1 && !f.2.any hasForbiddenFieldValueByte

/-- The loop of `validateResponseContentLength` over the parts of all lines;
`first` is the first length seen. -/
def sameLengths : Option Nat → List Str → Bool
  | _, [] => true
  | first, part :: parts =>
    match parseUint part with
    | none => false
    | some n =>
      match first with
      | none => sameLengths (some n) parts
      | some m => n == m && sameLengths first parts

/-- `validateResponseContentLength`: whether it finds nothing to reject. -/
def validateResponseContentLength (resp : Response) : Bool :=
  let lines := (resp.header.entry headerContentLength).getD []
  sameLengths none ((lines.flatMap fun v => (splitComma v).map trimSpace).filter (· ≠ []))

/-- What `readUpstreamResponse` does with a response that `http.ReadResponse`
has parsed. -/
def acceptUpstreamResponse (pseudonym : Str) (resp : Response) : Except RespErr Response :=
  if !validateResponseContentLength resp then .error .contentLengthInvalid
  else if !validateResponseHeaderBytes resp then .error .malformedResponse
  else
    let resp := if resp.transferEncoding ≠ [] ∧ resp.header.get headerContentLength ≠ [] then
        { resp with header := resp.header.del headerContentLength, contentLength := -1 }
      else resp
    let header := resp.header.del headerProxyAuthenticate
    .ok { resp with header := injectVia header resp.proto pseudonym }

/-- `readUpstreamResponse`. -/
def readUpstreamResponse (pseudonym : Str) (ws : List Wire) : Except RespErr Response × List Wire :=
  match readResponse ws with
  | (.error err, ws) =>
    (.error (if contains err headerContentLength then .contentLengthInvalid else .other err), ws)
  | (.ok resp, ws) => (acceptUpstreamResponse pseudonym resp, ws)

/-- The reader that `relayDirect` passes to `exchangeRequest`. -/
def readDirectResponse (pseudonym : Str) (ws : List Wire) : Except RespErr Response × List Wire :=
  match readResponse ws with
  | (.error err, ws) => (.error (.other err), ws)
  | (.ok resp, ws) => (.ok { resp with header := injectVia resp.header resp.proto pseudonym }, ws)

/-- `isInterimResponse`. -/
def isInterimResponse (resp : Response) : Bool :=
  100 ≤ resp.statusCode && resp.statusCode < 200 && resp.statusCode != 101

/-- `clientCannotParseInterim`. -/
def clientCannotParseInterim (req : Request) : Bool := !req.protoAtLeast 1 1

/-- `connectionWillClose`. -/
def connectionWillClose (req : Request) (resp : Response) : Bool :=
  (req.protoMajor == 1 && req.protoMinor == 0) || req.close || resp.close

/-- Whether `exchangeRequest` finds `100-continue` among the `Expect` tokens. -/
def expectsContinue (req : Request) : Bool :=
  (req.header.values (str "Expect")).any fun value =>
    (splitComma value).any fun token => equalFold (trimSpace token) (str "100-continue")

end SP.Impl
