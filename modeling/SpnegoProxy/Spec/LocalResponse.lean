import SpnegoProxy.Impl.LocalResponse
import SpnegoProxy.Spec.Response

/-!
# Local responses as a client reads them

A client reads the length of the body in the head and then the body. A client
that knows the proxy reads the error in the body and in `Proxy-Status`.
-/

namespace SP.Spec

open SP.Go SP.Impl

/-- The response ends where its `Content-Length` says, and the connection after it. -/
structure Delimited (head : Head) : Prop where
  length : ∃ s, head.values headerContentLength = [s] ∧ Denotes s head.rest.length
  coding : head.values (str "Transfer-Encoding") = []
  close : head.values headerConnection = [connectionClose]

/-- `s` without `pre`, which it begins with. -/
def cutPre (pre s : Str) : Option Str := if hasPre s pre then some (s.drop pre.length) else none

/-- An error as a client knows it. -/
structure ErrorReport where
  statusCode : Nat
  errorType : Str
  message : Str
  action : Str
  deriving DecidableEq

def ErrorReport.ofError (pe : ProxyError) : ErrorReport :=
  ⟨pe.statusCode, str pe.errorType, str pe.message, str pe.action⟩

/-- The code of a status line. -/
def readCode (line : Str) : Option Nat := do
  let (_, rest) ← cutFirst 0x20 line
  let (code, _) ← cutFirst 0x20 rest
  parseDigits code

/-- The message and the action of a body whose first line names the type. -/
def readReport (errorType body : Str) : Option (Str × Str) := do
  match body.splitOn 0x0A with
  | [first, [], message,
    []] => if first = str "spnego-proxy error: " ++ errorType then some (message, []) else none
  | [first, [], message, [], last, []] =>
    let action ← cutPre (str "Suggested action: ") last
    if first = str "spnego-proxy error: " ++ errorType then some (message, action) else none
  | _ => none

/-- The error that a response reports. -/
def readError (head : Head) : Option ErrorReport := do
  let code ← readCode head.statusLine
  match head.values headerProxyStatus with
  | [status] =>
    let errorType ← cutPre proxyStatusPre status
    let (message, action) ← readReport errorType head.rest
    some ⟨code, errorType, message, action⟩
  | _ => none

end SP.Spec
