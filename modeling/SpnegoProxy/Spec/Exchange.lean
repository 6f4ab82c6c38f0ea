import SpnegoProxy.Framework.Machine
import SpnegoProxy.Impl.Exchange
import SpnegoProxy.Spec.Failures

/-!
# What is expected of an exchange and its upload

The upload of a request body and the reads of the response run beside each
other. `NoReuse`, `TellsOfUpload` and `LeavesNothing` say what
`exchangeRequest` may return, in terms of the order in which the two went.
-/

namespace SP.Spec

open SP.Go SP.Impl

/-- The machine of the two goroutines. -/
def exchange : Machine ExchangeState ExchangeAct := ⟨ExchangeState.init, exchangeStep⟩

/-! ## The parts of an interleaving -/

def isReadDone : ExchangeAct → Bool
  | .readDone _ => true
  | _ => false

def isSelect : ExchangeAct → Bool
  | .select => true
  | _ => false

/-- The result of `readThroughInterim` in a step. -/
def readOf : ExchangeAct → Option ReadResult
  | .readDone r => some r
  | _ => none

/-- The result of the upload in a step. -/
def endOf : ExchangeAct → Option (Option Str)
  | .uploadEnds err => some err
  | _ => none

/-- The steps before the final response was read. -/
def beforeRead (as : List ExchangeAct) : List ExchangeAct := as.takeWhile fun a => !isReadDone a

/-- The steps between the read of the final response and the `select`. -/
def beforeSelect (as : List ExchangeAct) : List ExchangeAct :=
  ((as.dropWhile fun a => !isReadDone a).drop 1).takeWhile fun a => !isSelect a

/-- The upload ends without an error, and reports it, between the two. -/
def Raced (as : List ExchangeAct) : Prop :=
  .uploadEnds none ∈ beforeSelect as ∧ .send ∈ beforeSelect as

/-- The next hop's final response does not close the connection by itself. -/
def KeepsOpen (as : List ExchangeAct) : Prop :=
  ∃ r resp, as.findSome? readOf = some r ∧ r.resp = some resp ∧ resp.close = false

/-- A response that is returned without `Close` had the upload end before it
was read, without an error. -/
def NoReuse (as : List ExchangeAct) (x : Exchange) : Prop :=
  ∀ resp, x.resp = some resp → resp.close = false → .uploadEnds none ∈ beforeRead as

/-- The upload's report comes before the `select`. -/
def ReportedInTime (as : List ExchangeAct) : Prop := .send ∈ beforeRead as ++ beforeSelect as

/-- `readThroughInterim` returns, without a final response. -/
def NoFinal (as : List ExchangeAct) : Prop := ∃ r, as.findSome? readOf = some r ∧ r.resp = none

/-- The exchange `x` tells of an upload that failed with `werr`: as where no
goroutine is used, and so that the client is told of it. -/
structure TellsOfUpload (werr : Str) (x : Exchange) : Prop where
  requestErr : x.requestErr = some werr
  synchronous {env : Env} {c : ConnId} {req : Request} {w : World}
    (reader : List Wire → Except RespErr Response × List Wire) :
    WritesFirst req → env.writeRequest c req w.trace = some werr →
    WP (exchangeRequest env c req reader) w fun y _ => x.requestErr = y.requestErr
  told (env : Env) (c : ConnId) (req : Request) (onErr : RespErr → Prog Unit) (w : World) :
    WP (finishRelay env c req x onErr) w fun _ w' => Adds [errConnectionTerminated] w w'

/-- The state in which `exchangeRequest` returns `x` for the request `req`. -/
structure LeavesNothing (req : Request) (s : ExchangeState) (x : Exchange) : Prop where
  uploadOver : s.upload = .done
  bodyReadable : x.resp ≠ none → s.upstreamRead = false
  noRequestErr : x.resp ≠ none → x.requestErr = none
  reusable {resp : Response} : x.resp = some resp → connectionWillClose req resp = false →
    s.clientRead = false ∧ s.upstreamRead = false ∧ s.upstreamWrite = false

end SP.Spec
