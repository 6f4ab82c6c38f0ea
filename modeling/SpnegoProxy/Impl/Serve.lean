import Mathlib.Logic.Function.Basic

/-!
# Serving: `server.go`

The accept loop, the handlers of the connections it accepted, and the drain.
Each goroutine takes its steps one by one, in any order the scheduler picks.
What `Accept` returns is part of the step: also after the context is done, and
after the listener is closed, it may return a connection. Times are in
nanoseconds.
-/

namespace SP.Impl

/-! ## The retry schedule -/

def acceptBackoffInitial : Int := 5000000

def acceptBackoffMax : Int := 1000000000

/-- `acceptBackoff.next`: the wait after one of `delay`. -/
def acceptBackoffNext (delay : Int) : Int :=
  if delay = 0 then acceptBackoffInitial
  else if acceptBackoffMax < delay * 2 then acceptBackoffMax
  else delay * 2

/-! ## The goroutines -/

/-- Where the accept loop is. -/
inductive LoopPc where
  /-- In `l.Accept()`. -/
  | accepting
  /-- `Accept` failed, before the look at `ctx.Done()`. -/
  | failed
  /-- Before `backoff.next()`. -/
  | backingOff
  /-- Waiting until the timer fires. -/
  | sleeping (wake : Int)
  /-- Before `wg.Go`, with the `i`-th connection. -/
  | accepted (i : Nat)
  /-- Before `close(acceptDone)`. -/
  | leaving
  | ended
  deriving DecidableEq

/-- Where the handler of a connection is. -/
inductive HandlerPc where
  /-- `wg.Go` was not called. -/
  | absent
  | spawned
  /-- In `handleClientCtx`. -/
  | running
  /-- Before `wg.Done()`. -/
  | returning
  | finished
  deriving DecidableEq

/-- Where the goroutine that waits for the handlers is. -/
inductive WaiterPc where
  | absent
  | spawned
  /-- In `wg.Wait()`. -/
  | waiting
  /-- Before `close(done)`. -/
  | closing
  | ended
  deriving DecidableEq

/-- How `Serve` returned. -/
inductive ServeEnd where
  | drained
  /-- The timer of `drainTimeout` that was set at `since` fired. -/
  | forced (since now : Int)
  deriving DecidableEq

/-- Where `Serve` is. -/
inductive ServePc where
  /-- At `<-ctx.Done()`. -/
  | serving
  /-- Before `l.Close()`. -/
  | closing
  /-- At `<-acceptDone`. -/
  | joining
  /-- Before the goroutine that waits is started. -/
  | starting
  /-- Before `time.After(drainTimeout)`. -/
  | arming
  /-- At the last `select`. -/
  | selecting (since : Int)
  | returned (how : ServeEnd)
  deriving DecidableEq

/-- What can be seen of the server. -/
inductive ServeEvent where
  /-- `Accept` returned the `i`-th connection. -/
  | accepted (i : Nat)
  /-- `wg.Go` was called for it. -/
  | started (i : Nat)
  /-- `wg.Wait` was called. -/
  | waiting
  deriving DecidableEq

structure ServeState where
  ctxDone : Bool := false
  listenerClosed : Bool := false
  acceptDone : Bool := false
  /-- The channel `done` is closed. -/
  done : Bool := false
  /-- The counter of `wg`. -/
  wg : Nat := 0
  /-- How many connections `Accept` returned. -/
  conns : Nat := 0
  /-- `backoff.delay`. -/
  delay : Int := 0
  /-- The latest time read. -/
  now : Int := 0
  loop : LoopPc := .accepting
  handler : Nat → HandlerPc := fun _ => .absent
  waiter : WaiterPc := .absent
  main : ServePc := .serving
  trace : List ServeEvent := []

inductive ServeAct where
  | cancel
  | acceptConn
  | acceptErr
  /-- A step of the accept loop that the state decides. -/
  | loop
  /-- `backoff.next()` and `time.NewTimer`, at a time. -/
  | backoff (now : Int)
  /-- The accept loop's timer fires. -/
  | timer (now : Int)
  /-- The accept loop's wait ends with the context. -/
  | interrupt
  | handler (i : Nat)
  | waiter
  /-- A step of `Serve` that the state decides; at the `select`, the case of `done`. -/
  | main
  /-- `time.After(drainTimeout)`, at a time. -/
  | arm (now : Int)
  /-- The case of `time.After`. -/
  | timeout (now : Int)
  deriving DecidableEq

def loopStep (s : ServeState) : Option ServeState :=
  match s.loop with
  | .failed => some { s with loop := if s.ctxDone then .leaving else .backingOff }
  | .accepted i =>
    some { s with
      loop := .accepting
      delay := 0
      wg := s.wg + 1
      handler := Function.update s.handler i .spawned
      trace := s.trace ++ [.started i] }
  | .leaving => some { s with loop := .ended, acceptDone := true }
  | _ => none

/-- The goroutine of `wg.Go`. -/
def handlerStep (s : ServeState) (i : Nat) : Option ServeState :=
  match s.handler i with
  | .spawned => some { s with handler := Function.update s.handler i .running }
  | .running => some { s with handler := Function.update s.handler i .returning }
  | .returning => some { s with handler := Function.update s.handler i .finished, wg := s.wg - 1 }
  | _ => none

def waiterStep (s : ServeState) : Option ServeState :=
  match s.waiter with
  | .spawned => some { s with waiter := .waiting, trace := s.trace ++ [.waiting] }
  | .waiting => if s.wg = 0 then some { s with waiter := .closing } else none
  | .closing => some { s with waiter := .ended, done := true }
  | _ => none

def mainStep (s : ServeState) : Option ServeState :=
  match s.main with
  | .serving => if s.ctxDone then some { s with main := .closing } else none
  | .closing => some { s with main := .joining, listenerClosed := true }
  | .joining => if s.acceptDone then some { s with main := .starting } else none
  | .starting => some { s with main := .arming, waiter := .spawned }
  | .selecting _ => if s.done then some { s with main := .returned .drained } else none
  | _ => none

/-- The steps of `Serve` and its goroutines, with a clock that does not go back. -/
def serveStep (drainTimeout : Int) (s : ServeState) : ServeAct → Option ServeState
  | .cancel => some { s with ctxDone := true }
  | .acceptConn =>
    match s.loop with
    | .accepting =>
      some { s with loop := .accepted s.conns, conns := s.conns + 1, trace := s.trace ++ [.accepted s.conns] }
    | _ => none
  | .acceptErr =>
    match s.loop with
    | .accepting => some { s with loop := .failed }
    | _ => none
  | .loop => loopStep s
  | .backoff now =>
    match s.loop with
    | .backingOff =>
      if s.now ≤ now then
        let delay := acceptBackoffNext s.delay
        some { s with loop := .sleeping (now + delay), delay := delay, now := now }
      else none
    | _ => none
  | .timer now =>
    match s.loop with
    | .sleeping wake => if s.now ≤ now ∧ wake ≤ now then some { s with loop := .accepting, now := now } else none
    | _ => none
  | .interrupt =>
    match s.loop with
    | .sleeping _ => if s.ctxDone then some { s with loop := .leaving } else none
    | _ => none
  | .handler i => handlerStep s i
  | .waiter => waiterStep s
  | .main => mainStep s
  | .arm now =>
    match s.main with
    | .arming => if s.now ≤ now then some { s with main := .selecting now, now := now } else none
    | _ => none
  | .timeout now =>
    match s.main with
    | .selecting since =>
      if s.now ≤ now ∧ since + drainTimeout ≤ now then
        some { s with main := .returned (.forced since now), now := now }
      else none
    | _ => none

end SP.Impl
