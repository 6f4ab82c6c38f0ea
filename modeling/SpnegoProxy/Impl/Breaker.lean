import Mathlib.Logic.Function.Basic
import SpnegoProxy.Impl.Errors

/-!
# The circuit breaker: `circuit_breaker.go`

The part of `gobreaker` that `CircuitBreakerTokenProvider` uses, and any
number of concurrent calls of its `GetToken`. Each call takes its steps one
by one, in any order the scheduler picks; `beforeRequest` and `afterRequest`
are one step each, since `gobreaker` runs them under a mutex of its own. A
step that reads the clock carries the time it read.
-/

namespace SP.Impl

open SP.Go

/-! ## `gobreaker` -/

/-- `gobreaker.State`. -/
inductive BreakerState where
  | stateClosed
  | stateHalfOpen
  | stateOpen
  deriving DecidableEq, Repr

/-- `gobreaker.Counts`. -/
structure Counts where
  requests : Nat := 0
  consecutiveSuccesses : Nat := 0
  consecutiveFailures : Nat := 0
  deriving DecidableEq, Repr

def Counts.onRequest (c : Counts) : Counts := { c with requests := c.requests + 1 }

def Counts.onSuccess (c : Counts) : Counts :=
  { c with consecutiveSuccesses := c.consecutiveSuccesses + 1, consecutiveFailures := 0 }

def Counts.onFailure (c : Counts) : Counts :=
  { c with consecutiveFailures := c.consecutiveFailures + 1, consecutiveSuccesses := 0 }

/-- `gobreaker.Settings`. `Interval` is zero: the counts of a closed breaker
are never cleared for their age. -/
structure Settings where
  maxRequests : Nat
  timeout : Int
  readyToTrip : Counts → Bool

/-- `defaultTimeout`: a minute, in nanoseconds. -/
def defaultTimeout : Int := 60000000000

/-- The settings as `NewCircuitBreaker` takes them. -/
def Settings.withDefaults (st : Settings) : Settings :=
  { st with
    maxRequests := if st.maxRequests = 0 then 1 else st.maxRequests
    timeout := if st.timeout ≤ 0 then defaultTimeout else st.timeout }

structure CircuitBreaker where
  state : BreakerState := .stateClosed
  generation : Nat := 1
  counts : Counts := {}
  /-- When an open breaker lets a probe through. -/
  expiry : Int := 0
  deriving DecidableEq, Repr

/-- A state change, as `OnStateChange` is told of it. -/
structure StateChange where
  src : BreakerState
  dst : BreakerState
  deriving DecidableEq, Repr

def toNewGeneration (st : Settings) (now : Int) (cb : CircuitBreaker) : CircuitBreaker :=
  { cb with
    generation := cb.generation + 1
    counts := {}
    expiry := if cb.state = .stateOpen then now + st.timeout else 0 }

def setState (st : Settings) (state : BreakerState) (now : Int) (cb : CircuitBreaker) :
    CircuitBreaker × List StateChange :=
  if cb.state = state then (cb, [])
  else (toNewGeneration st now { cb with state := state }, [⟨cb.state, state⟩])

def currentState (st : Settings) (now : Int) (cb : CircuitBreaker) :
    CircuitBreaker × List StateChange :=
  if cb.state = .stateOpen ∧ cb.expiry < now then setState st .stateHalfOpen now cb else (cb, [])

/-- `gobreaker.ErrOpenState`. -/
def errOpenState : GoError := ⟨[.openState], rfl⟩

/-- `gobreaker.ErrTooManyRequests`. -/
def errTooManyRequests : GoError := ⟨[.tooManyRequests], rfl⟩

/-- `beforeRequest`: the generation of the request, or why it is rejected. -/
def beforeRequest (st : Settings) (now : Int) (cb : CircuitBreaker) :
    Except GoError Nat × CircuitBreaker × List StateChange :=
  let (cb, changes) := currentState st now cb
  if cb.state = .stateOpen then (.error errOpenState, cb, changes)
  else if cb.state = .stateHalfOpen ∧ st.maxRequests ≤ cb.counts.requests then
    (.error errTooManyRequests, cb, changes)
  else (.ok cb.generation, { cb with counts := cb.counts.onRequest }, changes)

def onSuccess (st : Settings) (now : Int) (cb : CircuitBreaker) :
    CircuitBreaker × List StateChange :=
  let counted := { cb with counts := cb.counts.onSuccess }
  match cb.state with
  | .stateClosed => (counted, [])
  | .stateHalfOpen =>
    if st.maxRequests ≤ counted.counts.consecutiveSuccesses then setState st .stateClosed now counted
    else (counted, [])
  | .stateOpen => (cb, [])

def onFailure (st : Settings) (now : Int) (cb : CircuitBreaker) :
    CircuitBreaker × List StateChange :=
  match cb.state with
  | .stateClosed =>
    let counted := { cb with counts := cb.counts.onFailure }
    if st.readyToTrip counted.counts then setState st .stateOpen now counted else (counted, [])
  | .stateHalfOpen => setState st .stateOpen now cb
  | .stateOpen => (cb, [])

/-- `afterRequest` for a request of the generation `before`. -/
def afterRequest (st : Settings) (before : Nat) (success : Bool) (now : Int) (cb : CircuitBreaker) :
    CircuitBreaker × List StateChange :=
  let (cb, changes) := currentState st now cb
  if cb.generation ≠ before then (cb, changes)
  else
    let (cb, more) := if success then onSuccess st now cb else onFailure st now cb
    (cb, changes ++ more)

/-! ## The provider -/

/-- How a call of `GetToken` ended. -/
inductive CallResult where
  | token (token : Str)
  | error (err : GoError)
  /-- It panicked. -/
  | panicked
  deriving DecidableEq

/-- What `Execute` records of a call. -/
def CallResult.success : CallResult → Bool
  | .token _ => true
  | _ => false

/-- Whether the caller gets a `*CircuitBreakerError`, by `errors.As`. -/
def CallResult.rejection : CallResult → Bool
  | .error e => e.as ErrNode.isCircuitBreaker
  | _ => false

/-- `NewCircuitBreakerTokenProvider`: the settings of its breaker. -/
def providerSettings (threshold : Nat) (timeout : Int) : Settings :=
  Settings.withDefaults
    { maxRequests := 1
      timeout := timeout
      readyToTrip := fun counts => threshold ≤ counts.consecutiveFailures }

def openMessage (threshold : Nat) : String :=
  s!"circuit breaker open: token acquisition disabled after {threshold} consecutive failures"

def halfOpenMessage : String :=
  "circuit breaker half-open: probe in progress, rejecting concurrent request"

/-- `&CircuitBreakerError{authError{msg: msg, cause: err}}`, for an `err` that
wraps a sentinel. -/
def circuitBreakerError (msg : String) (err : GoError)
    (h : err.chain.any ErrNode.isSentinel = true) : GoError where
  chain := .circuitBreaker msg :: err.chain
  wraps := by simp [ErrNode.wrapsSentinel, ErrNode.isCircuitBreaker, h, err.wraps]

/-- What `GetToken` makes of the result of `Execute`. -/
def tokenResult (threshold : Nat) : CallResult → CallResult
  | .error err =>
    if h : err.is .openState = true then
      .error (circuitBreakerError (openMessage threshold) err
        (List.any_eq_true.mpr ⟨.openState, by simpa [GoError.is] using h, rfl⟩))
    else if h : err.is .tooManyRequests = true then
      .error (circuitBreakerError halfOpenMessage err
        (List.any_eq_true.mpr ⟨.tooManyRequests, by simpa [GoError.is] using h, rfl⟩))
    else .error err
  | r => r

/-! ## Concurrent calls of `GetToken` -/

/-- Where a call of `GetToken` is. -/
inductive CallPc where
  /-- Before `p.mu.Lock()`. -/
  | calling
  /-- Before `beforeRequest`. -/
  | locked
  /-- Before `p.inner.GetToken()`, as a request of a generation. -/
  | accepted (generation : Nat)
  /-- In `p.inner.GetToken()`, since `start`. -/
  | inner (generation : Nat) (start : Int)
  /-- Before `afterRequest`. -/
  | ended (generation : Nat) (r : CallResult)
  /-- `Execute` is left, and `p.mu` is still held. -/
  | executed (r : CallResult)
  | returned (r : CallResult)
  deriving DecidableEq

/-- A call of the wrapped provider. -/
structure InnerCall where
  caller : Nat
  start : Int
  finish : Int
  result : CallResult
  deriving DecidableEq

/-- What can be seen of the provider. -/
inductive TokenEvent where
  /-- The wrapped provider is called. -/
  | started (caller : Nat) (start : Int)
  /-- The wrapped provider returns. -/
  | ended (call : InnerCall)
  /-- `OnStateChange` logs a change. -/
  | changed (change : StateChange)
  /-- `GetToken` returns. -/
  | returned (caller : Nat) (r : CallResult)
  deriving DecidableEq

structure TokenState where
  /-- The call that holds `p.mu`. -/
  mu : Option Nat := none
  cb : CircuitBreaker := {}
  pc : Nat → CallPc := fun _ => .calling
  /-- The latest time read. -/
  clock : Int := 0
  trace : List TokenEvent := []

/-- A step of the call `i`. -/
inductive TokenAct where
  | lock (i : Nat)
  | beforeRequest (i : Nat) (now : Int)
  | callInner (i : Nat) (now : Int)
  | innerReturns (i : Nat) (now : Int) (r : CallResult)
  | afterRequest (i : Nat) (now : Int)
  /-- The deferred `p.mu.Unlock()`, and the return. -/
  | unlock (i : Nat)
  deriving DecidableEq

/-- The call `i` goes on at `pc`, and `events` are seen. -/
def TokenState.goto (s : TokenState) (i : Nat) (pc : CallPc) (events : List TokenEvent) :
    TokenState :=
  { s with pc := Function.update s.pc i pc, trace := s.trace ++ events }

/-- `Execute` is left without a call when `beforeRequest` fails. -/
def afterBefore : Except GoError Nat → CallPc
  | .error err => .executed (.error err)
  | .ok generation => .accepted generation

/-- A step of one of the calls, with a clock that does not go back. -/
def tokenStep (threshold : Nat) (timeout : Int) (s : TokenState) : TokenAct → Option TokenState
  | .lock i =>
    match s.pc i, s.mu with
    | .calling, none => some { s.goto i .locked [] with mu := some i }
    | _, _ => none
  | .beforeRequest i now =>
    match s.pc i with
    | .locked =>
      if s.clock ≤ now then
        let (r, cb, changes) := beforeRequest (providerSettings threshold timeout) now s.cb
        some { s.goto i (afterBefore r) (changes.map .changed) with cb := cb, clock := now }
      else none
    | _ => none
  | .callInner i now =>
    match s.pc i with
    | .accepted generation =>
      if s.clock ≤ now then some { s.goto i (.inner generation now) [.started i now] with clock := now }
      else none
    | _ => none
  | .innerReturns i now r =>
    match s.pc i with
    | .inner generation start =>
      if s.clock ≤ now then
        some { s.goto i (.ended generation r) [.ended ⟨i, start, now, r⟩] with clock := now }
      else none
    | _ => none
  | .afterRequest i now =>
    match s.pc i with
    | .ended generation r =>
      if s.clock ≤ now then
        let (cb, changes) :=
          afterRequest (providerSettings threshold timeout) generation r.success now s.cb
        some { s.goto i (.executed r) (changes.map .changed) with cb := cb, clock := now }
      else none
    | _ => none
  | .unlock i =>
    match s.pc i with
    | .executed r =>
      some { s.goto i (.returned (tokenResult threshold r)) [.returned i (tokenResult threshold r)] with
        mu := none }
    | _ => none

end SP.Impl
