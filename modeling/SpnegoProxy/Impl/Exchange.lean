import SpnegoProxy.Impl.Session

/-!
# The two goroutines of `exchangeRequest`

An `Expect: 100-continue` request with a body is written by a goroutine of
its own while `exchangeRequest` reads responses. Here each of the two takes
its steps one by one, in any order the scheduler picks; what a read or a
write returns is part of the step.
-/

namespace SP.Impl

open SP.Go

/-- Where the main goroutine is. `r` is what `readThroughInterim` returned. -/
inductive MainPc where
  /-- In `readThroughInterim`. -/
  | reading
  /-- Before the `select`. -/
  | selecting (r : ReadResult)
  /-- In the `default` case, before `client.SetReadDeadline`. -/
  | cancelClient (r : ReadResult)
  /-- Before `upstream.SetWriteDeadline`. -/
  | cancelUpstream (r : ReadResult)
  /-- Waiting for the upload in the `default` case. -/
  | joining (r : ReadResult)
  /-- After the `select`, with the results so far. -/
  | leaving (x : Exchange)
  | returned (x : Exchange)

/-- Where the upload goroutine is. -/
inductive UploadPc where
  /-- In `writeRequest`. -/
  | writing
  /-- The write failed, before `upstream.SetReadDeadline`. -/
  | waking (err : Str)
  /-- Before the send on `written`. -/
  | sending (err : Option Str)
  | done

/-- The goroutines, the channel `written` and the deadlines in force. -/
structure ExchangeState where
  main : MainPc
  upload : UploadPc
  written : Option (Option Str)
  clientRead : Bool
  upstreamRead : Bool
  upstreamWrite : Bool

/-- A step of either goroutine. -/
inductive ExchangeAct where
  /-- `readThroughInterim` relays or drops an interim response and reads on. -/
  | readInterim
  /-- `readThroughInterim` returns: with the final response it just read, or
  with an error. -/
  | readDone (r : ReadResult)
  | select
  | setClientRead
  | setUpstreamWrite
  | join
  /-- The end of `exchangeRequest`. -/
  | leave
  /-- `writeRequest` returns. -/
  | uploadEnds (err : Option Str)
  | wakeRead
  | send

/-- A received upload result in the first case of the `select`. -/
def selected (r : ReadResult) (err : Option Str) : Exchange := ⟨r.resp, err, r.clientErr, r.err⟩

/-- A received upload result in the `default` case: a response that beat the
upload closes its connection, and without a response the upload's error gives
way to the one that caused the cancellation. -/
def joined (r : ReadResult) (err : Option Str) : Exchange :=
  match err, r.resp with
  | none, resp => ⟨resp.map fun resp => { resp with close := true }, none, r.clientErr, r.err⟩
  | some _, none => ⟨none, none, r.clientErr, r.err⟩
  | some werr, some resp => ⟨some resp, some werr, r.clientErr, r.err⟩

/-- The last `if` of `exchangeRequest`. -/
def keepEarly (x : Exchange) : Exchange :=
  match x.resp, x.requestErr with
  | some resp, some _ => { x with resp := some { resp with close := true }, requestErr := none }
  | _, _ => x

/-- The steps, where the goroutine that takes one is at it. -/
def exchangeStep (s : ExchangeState) : ExchangeAct → Option ExchangeState
  | .readInterim => match s.main with
    | .reading => some s
    | _ => none
  | .readDone r => match s.main with
    | .reading => some { s with main := .selecting r }
    | _ => none
  | .select => match s.main, s.written with
    | .selecting r, some err => some { s with main := .leaving (selected r err), written := none }
    | .selecting r, none => some { s with main := .cancelClient r }
    | _, _ => none
  | .setClientRead => match s.main with
    | .cancelClient r => some { s with main := .cancelUpstream r, clientRead := true }
    | _ => none
  | .setUpstreamWrite => match s.main with
    | .cancelUpstream r => some { s with main := .joining r, upstreamWrite := true }
    | _ => none
  | .join => match s.main, s.written with
    | .joining r, some none =>
      some { s with main := .leaving (joined r none), written := none, clientRead := false,
                    upstreamWrite := false }
    | .joining r, some (some werr) =>
      some { s with main := .leaving (joined r (some werr)), written := none }
    | _, _ => none
  | .leave => match s.main with
    | .leaving x => some { s with main := .returned (keepEarly x), upstreamRead := false }
    | _ => none
  | .uploadEnds err => match s.upload, err with
    | .writing, none => some { s with upload := .sending none }
    | .writing, some werr => some { s with upload := .waking werr }
    | _, _ => none
  | .wakeRead => match s.upload with
    | .waking werr => some { s with upload := .sending (some werr), upstreamRead := true }
    | _ => none
  | .send => match s.upload with
    | .sending err => some { s with upload := .done, written := some err }
    | _ => none

/-- Both goroutines at their start. -/
def ExchangeState.init : ExchangeState := ⟨.reading, .writing, none, false, false, false⟩

end SP.Impl
