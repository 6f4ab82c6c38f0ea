import SpnegoProxy.Impl.AllowList
import SpnegoProxy.Impl.Serve
import SpnegoProxy.Impl.Shutdown

/-!
# The whole server: `main.go`, `server.go`, `handleClientCtx`

`Serve` on the listener that `main` gives it, with a session for each
connection that passes the guards of `handleClientCtx`. One context ends them
all.

The listener is not part of the program: `main` takes it from `net`, and with
`-max-conns` it puts a `netutil.LimitListener` around it. What its `Accept` may
return is a parameter, and depends on what was done with the listener and with
the connections it returned. The client connection is closed by the watcher of
its session, by a tunnel of which a half fails, and when its handler returns;
each `Close` here is one step, and only the first of a connection is told to
the listener.
-/

namespace SP.Impl

open SP.Go

/-- What was done with the listener. -/
inductive ListenerEvent where
  /-- `Accept` returned the `i`-th connection. -/
  | accepted (i : Nat)
  /-- `Accept` returned an error. -/
  | failed
  /-- `Close` was called on the `i`-th connection. -/
  | connClosed (i : Nat)
  /-- `l.Close()`. -/
  | closed
  deriving DecidableEq

/-- What `Accept` may return, after all that was done before. -/
structure Listener where
  mayAccept : List ListenerEvent → Bool
  mayFail : List ListenerEvent → Bool

/-- What `main` starts `Serve` with. -/
structure Setup where
  /-- The configuration of the sessions, but for the client's address. -/
  cfg : Config
  allowedIPs : List IPNet
  listener : Listener
  drainTimeout : Int
  /-- The address of the `i`-th client. -/
  addr : Nat → Str

/-- The configuration of the `i`-th session. -/
def Setup.client (su : Setup) (i : Nat) : Config := { su.cfg with clientAddr := su.addr i }

/-- The guards of `handleClientCtx`. -/
def Setup.admits (su : Setup) (i : Nat) : Bool :=
  su.cfg.pseudonym ≠ [] && admitsClient su.allowedIPs (su.addr i)

structure ServerState where
  serve : ServeState := {}
  listened : List ListenerEvent := []
  session : Nat → ShutdownState := fun _ => {}
  /-- The `i`-th client got its refusal, and what it sends is read. -/
  denied : Nat → Bool := fun _ => false

inductive ServerAct where
  | cancel
  /-- A step of `Serve`, outside of `Accept`. -/
  | serve (a : ServeAct)
  /-- `Accept` returns a connection. -/
  | accept
  /-- `Accept` returns an error. -/
  | acceptErr
  /-- A step of the `i`-th session or its watcher. -/
  | session (i : Nat) (a : ShutdownAct)
  /-- The `i`-th client is refused. -/
  | deny (i : Nat)
  /-- The `i`-th client was refused, and has closed its side. -/
  | deniedEOF (i : Nat)
  /-- The deadline of one second for the reads of a refused client. -/
  | deniedDeadline (i : Nat)
  /-- A half of the `i`-th session's tunnel has failed. -/
  | tunnelCloses (i : Nat)

def ShutdownAct.isCancel : ShutdownAct → Bool
  | .cancel => true
  | _ => false

/-- `handleClientCtx` was called. -/
def HandlerPc.begun : HandlerPc → Bool
  | .absent | .spawned => false
  | _ => true

/-- A `CONNECT` request is being served. -/
def SessionPc.tunnels : SessionPc → Bool
  | .serving .tunnel _ => true
  | _ => false

def SessionPc.isEnded : SessionPc → Bool
  | .ended => true
  | _ => false

/-- The proxy has closed the `i`-th client connection. -/
def ServerState.closed (s : ServerState) (i : Nat) : Bool := s.listened.contains (.connClosed i)

/-- `Close` of the `i`-th client connection. -/
def ServerState.close (s : ServerState) (i : Nat) : ServerState :=
  if s.closed i then s else { s with listened := s.listened ++ [.connClosed i] }

/-- What a step of the `i`-th session does to the server. -/
def ServerState.withSession (s : ServerState) (i : Nat) (t : ShutdownState) : ServerState :=
  { (if t.connClosed then s.close i else s) with session := Function.update s.session i t }

/-- What a step of `Serve` does with the listener. -/
def ServeState.tells (s : ServeState) (a : ServeAct) : List ListenerEvent :=
  if a = .main ∧ s.main = .closing then [.closed] else []

section

variable (su : Setup)

/-- `handleClientCtx` has returned for the `i`-th connection. -/
def ServerState.hasReturned (s : ServerState) (i : Nat) : Bool :=
  if su.admits i then (s.session i).session.isEnded else s.closed i

/-- The steps of `Serve` that are not in `Accept`; a handler returns when
`handleClientCtx` does. -/
def ServerState.mayStep (s : ServerState) : ServeAct → Bool
  | .cancel | .acceptConn | .acceptErr => false
  | .handler i => s.serve.handler i ≠ .running || s.hasReturned su i
  | _ => true

/-- The handler of the `i`-th connection is past the guards, which do not admit
the client. -/
def ServerState.refuses (s : ServerState) (i : Nat) : Bool :=
  s.serve.handler i = .running && !su.admits i && !s.closed i

def serverStep (s : ServerState) : ServerAct → Option ServerState
  | .cancel =>
    if s.serve.ctxDone then none
    else some { s with
      serve := { s.serve with ctxDone := true }
      session := fun i => { s.session i with ctxDone := true, trace := (s.session i).trace ++ [.cancelled] } }
  | .serve a =>
    if s.mayStep su a then
      (serveStep su.drainTimeout s.serve a).map fun t =>
        { s with serve := t, listened := s.listened ++ s.serve.tells a }
    else none
  | .accept =>
    if su.listener.mayAccept s.listened then
      (serveStep su.drainTimeout s.serve .acceptConn).map fun t =>
        { s with serve := t, listened := s.listened ++ [.accepted s.serve.conns] }
    else none
  | .acceptErr =>
    if su.listener.mayFail s.listened then
      (serveStep su.drainTimeout s.serve .acceptErr).map fun t =>
        { s with serve := t, listened := s.listened ++ [.failed] }
    else none
  | .session i a =>
    if (s.serve.handler i).begun ∧ su.admits i ∧ a.isCancel = false then
      (shutdownStep (su.client i) (s.session i) a).map fun t => s.withSession i t
    else none
  | .deny i =>
    if s.refuses su i && !s.denied i then
      -- without a pseudonym nothing is written, and nothing read
      if su.cfg.pseudonym = [] then some (s.close i) else some { s with denied := Function.update s.denied i true }
    else none
  | .deniedEOF i | .deniedDeadline i => if s.refuses su i && s.denied i then some (s.close i) else none
  | .tunnelCloses i =>
    if s.serve.handler i = .running ∧ su.admits i ∧ (s.session i).session.tunnels ∧ s.closed i = false then
      some (s.close i)
    else none

end

end SP.Impl
