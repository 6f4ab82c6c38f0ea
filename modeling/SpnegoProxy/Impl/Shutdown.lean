import SpnegoProxy.Impl.Session

/-!
# Session shutdown: `readRequest`, `beginShutdown`

A session and the goroutine that watches for the end of its context. Both
take their steps one by one, in any order the scheduler picks, and the
context is cancelled at any time. What `http.ReadRequest` returns and
whether a relay leaves the connections usable is part of the step: a read may
return a request that was buffered before the connection was closed.
-/

namespace SP.Impl

open SP.Go

/-- The loop that reads the next request. -/
inductive ReadLoop where
  | run
  /-- `forwardDirect`, on a connection for a host. -/
  | direct (boundHost : Str)
  deriving DecidableEq

/-- How a request is served. -/
inductive Serving where
  /-- `tunnelDirect` or `tunnelViaUpstream`. -/
  | tunnel
  /-- `relayDirect` on a connection for a host. -/
  | direct (boundHost : Str)
  | upstream
  deriving DecidableEq

/-- The route that `routeRequest` takes. -/
def routeOf (cfg : Config) (req : Request) : Serving :=
  if req.method = methodConnect then .tunnel
  else if cfg.bypasses req.host then .direct req.host
  else .upstream

/-- Where the session is. `n` numbers the reads of requests. -/
inductive SessionPc where
  /-- In `readRequest`, before the first `s.mu.Lock()`. -/
  | locking (l : ReadLoop)
  /-- Before the first look at `ctx.Done()`. -/
  | checking (l : ReadLoop)
  /-- Before `s.idle = true`. -/
  | marking (l : ReadLoop)
  /-- Before `s.mu.Unlock()`, idle. -/
  | releasing (l : ReadLoop)
  /-- Before `s.mu.Unlock()`, with the context done. -/
  | refusing
  /-- In `http.ReadRequest`. -/
  | reading (l : ReadLoop)
  /-- Before the second `s.mu.Lock()`. -/
  | relocking (l : ReadLoop) (n : Nat) (r : Except ReadErr Request)
  /-- Before `s.idle = false`. -/
  | unmarking (l : ReadLoop) (n : Nat) (r : Except ReadErr Request)
  /-- Before `s.mu.Unlock()`, busy. -/
  | unlocking (l : ReadLoop) (n : Nat) (r : Except ReadErr Request)
  /-- Before the second look at `ctx.Done()`. -/
  | rechecking (l : ReadLoop) (n : Nat) (r : Except ReadErr Request)
  /-- In `run`, with a request that was read or is routed again. -/
  | validating (n : Nat) (req : Request)
  /-- In `nextDirectRequest`, with a request that was read. -/
  | rebinding (boundHost : Str) (n : Nat) (req : Request)
  /-- From the route's beginning to the end of the relay. -/
  | serving (how : Serving) (n : Nat)
  /-- `run` is left. -/
  | leaving
  /-- `stopWatch` is closed, the connection is not yet. -/
  | stopped
  | ended

/-- Where the watcher is. -/
inductive WatcherPc where
  /-- At the `select`. -/
  | waiting
  /-- In `beginShutdown`, before `s.mu.Lock()`. -/
  | locking
  | checking
  /-- Before `s.conn.Close()`. -/
  | closing
  | unlocking
  | finished
  deriving DecidableEq

inductive Thread where
  | session
  | watcher
  deriving DecidableEq

/-- What can be seen of a session. -/
inductive SessionEvent where
  | cancelled
  /-- `http.ReadRequest` returned for the `n`-th time. -/
  | read (n : Nat)
  /-- The request of the `n`-th read is handed to a route. -/
  | routed (n : Nat)
  /-- Its route has returned. -/
  | relayed (n : Nat)
  /-- The watcher closed the client connection. -/
  | closed
  deriving DecidableEq

structure ShutdownState where
  ctxDone : Bool := false
  mu : Option Thread := none
  idle : Bool := false
  stopWatch : Bool := false
  /-- The proxy has closed the client connection. -/
  connClosed : Bool := false
  session : SessionPc := .locking .run
  watcher : WatcherPc := .waiting
  reads : Nat := 0
  trace : List SessionEvent := []

inductive ShutdownAct where
  | cancel
  /-- A step of the session whose outcome the state decides. -/
  | session
  | readReturns (r : Except ReadErr Request)
  /-- The relay ends, and both connections can be used again or not. -/
  | relayReturns (reuse : Bool)
  /-- A step of the watcher; at the `select`, the case of `ctx.Done()`. -/
  | watcher
  /-- The case of `stopWatch`. -/
  | stop

/-- The session goes on at `pc`, and `events` are seen. -/
def ShutdownState.goto (s : ShutdownState) (pc : SessionPc) (events : List SessionEvent) :
    ShutdownState :=
  { s with session := pc, trace := s.trace ++ events }

/-- A request that validation lets pass is served, any other ends the session. -/
def ShutdownState.serve (s : ShutdownState) (n : Nat) : Option Serving → ShutdownState
  | some how => s.goto (.serving how n) [.routed n]
  | none => s.goto .leaving []

/-- How `run` serves a request. -/
def runServes (cfg : Config) (req : Request) : Option Serving :=
  match verdict cfg req with
  | .proceed req => some (routeOf cfg req)
  | _ => none

/-- How `forwardDirect` serves a request for the host it is bound to. -/
def directServes (cfg : Config) (boundHost : Str) (req : Request) : Option Serving :=
  match verdict cfg req with
  | .proceed req => if req.method = methodConnect then none else some (.direct boundHost)
  | _ => none

def sessionStep (cfg : Config) (s : ShutdownState) : Option ShutdownState :=
  match s.session with
  | .locking l => if s.mu = none then some { s.goto (.checking l) [] with mu := some .session } else none
  | .checking l => some (s.goto (if s.ctxDone then .refusing else .marking l) [])
  | .marking l => some { s.goto (.releasing l) [] with idle := true }
  | .releasing l => some { s.goto (.reading l) [] with mu := none }
  | .refusing => some { s.goto .leaving [] with mu := none }
  | .reading _ => none
  | .relocking l n r => if s.mu = none then some { s.goto (.unmarking l n r) [] with mu := some .session } else none
  | .unmarking l n r => some { s.goto (.unlocking l n r) [] with idle := false }
  | .unlocking l n r => some { s.goto (.rechecking l n r) [] with mu := none }
  | .rechecking l n r =>
    if s.ctxDone then some (s.goto .leaving [])
    else match l, r with
      | _, .error _ => some (s.goto .leaving [])
      | .run, .ok req => some (s.goto (.validating n req) [])
      | .direct boundHost, .ok req => some (s.goto (.rebinding boundHost n req) [])
  | .validating n req => some (s.serve n (runServes cfg req))
  | .rebinding boundHost n req =>
    if sameHost req.host boundHost (str "80") = false then some (s.goto (.validating n req) [])
    else some (s.serve n (directServes cfg boundHost req))
  | .serving _ _ => none
  | .leaving => some { s.goto .stopped [] with stopWatch := true }
  | .stopped => some { s.goto .ended [] with connClosed := true }
  | .ended => none

/-- Where a session goes on after a relay. -/
def afterRelay (reuse : Bool) : Serving → SessionPc
  | .tunnel => .leaving
  | .direct boundHost => if reuse then .locking (.direct boundHost) else .leaving
  | .upstream => if reuse then .locking .run else .leaving

def watcherStep (s : ShutdownState) : Option ShutdownState :=
  match s.watcher with
  | .waiting => if s.ctxDone then some { s with watcher := .locking } else none
  | .locking => if s.mu = none then some { s with watcher := .checking, mu := some .watcher } else none
  | .checking => some { s with watcher := if s.idle then .closing else .unlocking }
  | .closing => some { s with watcher := .unlocking, connClosed := true, trace := s.trace ++ [.closed] }
  | .unlocking => some { s with watcher := .finished, mu := none }
  | .finished => none

def shutdownStep (cfg : Config) (s : ShutdownState) : ShutdownAct → Option ShutdownState
  | .cancel => some { s with ctxDone := true, trace := s.trace ++ [.cancelled] }
  | .session => sessionStep cfg s
  | .readReturns r =>
    match s.session with
    | .reading l => some { s.goto (.relocking l s.reads r) [.read s.reads] with reads := s.reads + 1 }
    | _ => none
  | .relayReturns reuse =>
    match s.session with
    | .serving how n => some (s.goto (afterRelay reuse how) [.relayed n])
    | _ => none
  | .watcher => watcherStep s
  | .stop =>
    match s.watcher with
    | .waiting => if s.stopWatch then some { s with watcher := .finished } else none
    | _ => none

end SP.Impl
