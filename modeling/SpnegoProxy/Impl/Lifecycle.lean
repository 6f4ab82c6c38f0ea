import SpnegoProxy.Impl.AllowList
import SpnegoProxy.Impl.Session

/-!
# A client connection from start to end: `handleClientCtx`

The session, with the guards in front of it and the deferred closes of its
connections. `forwardDirect`, `tunnelDirect` and `tunnelViaUpstream` close
the connection they dialled when they return; the kept upstream connection
and the client's are closed by `handleClientCtx`.

Only these deferred closes are recorded. A tunnel of which a half fails closes
both of its connections before, and the watcher closes an idle client when the
context is done; these are part of the models of the tunnel and of the
shutdown.
-/

namespace SP.Impl.Life

open SP.Go

/-- What the handler of a client does. -/
inductive Entry where
  /-- What its session does. -/
  | event (e : Event)
  /-- The deferred `Close` of a connection that was dialled. -/
  | closed (c : ConnId)
  /-- The deferred `closeWrite` of the client connection. -/
  | closedWrite
  /-- The deferred `Close` of the client connection. -/
  | closedClient

structure State where
  world : World := World.init
  log : List Entry := []

abbrev LifeProg := StateM State

/-- A part of the session that closes nothing. -/
def part {α : Type} (m : Prog α) : LifeProg α := fun s =>
  let (a, w) := m s.world
  (a, ⟨w, s.log ++ (w.trace.drop s.world.trace.length).map .event⟩)

def record (e : Entry) : LifeProg Unit := modify fun s => { s with log := s.log ++ [e] }

/-- The session with the deferred closes of its connections. -/
abbrev deferring : Runtime LifeProg := ⟨part, fun c => record (.closed c)⟩

section

variable (cfg : Config) (env : Env)

/-- `run`, and the deferred close of the kept upstream connection. -/
def session (n : Nat) : LifeProg Unit := do
  deferring.runLoop cfg env n none 0
  match (← get).world.proxyConn with
  | some c => record (.closed c)
  | none => return ()

/-- The body of `handleClientCtx`. The bytes that a denied client still sends
are read and dropped. -/
def guarded (allowedIPs : List IPNet) (n : Nat) : LifeProg Unit := do
  if cfg.pseudonym = [] then return ()
  else if admitsClient allowedIPs cfg.clientAddr = false then part (writeHTTPError env errClientDenied)
  else session cfg env n

/-- `handleClientCtx`: the client connection is closed in two steps, whatever
happened before. -/
def handleClientCtx (allowedIPs : List IPNet) (n : Nat) : LifeProg Unit := do
  guarded cfg env allowedIPs n
  record .closedWrite
  record .closedClient

end

end SP.Impl.Life
