import Mathlib.Data.Finset.Filter
import Mathlib.Data.Finset.Range
import SpnegoProxy.Impl.Server

/-!
# What the server and its listener owe each other

`Limits` and `Unblocks` are what is expected of a listener: that it returns a
connection only while fewer than `n` of those it returned are open, as a
`netutil.LimitListener` does, and that `Accept` fails when the listener is
closed, as every `net.Listener` does. `Unaided` are the steps of the server
that wait for no client.
-/

namespace SP.Spec

open SP.Go SP.Impl

/-- The connection that `Accept` returned. -/
def returned : ListenerEvent → Option Nat
  | .accepted i => some i
  | _ => none

/-- The connections that `Accept` has returned and that are open. -/
def openIn (es : List ListenerEvent) : List Nat :=
  (es.filterMap returned).filter fun i => !es.contains (.connClosed i)

/-- `Accept` returns a connection only if fewer than `n` are open, and then it
can, until the listener is closed. -/
structure Limits (l : Listener) (n : Nat) : Prop where
  bounded : ∀ es, l.mayAccept es = true → (openIn es).length < n
  serves : ∀ es, .closed ∉ es → (openIn es).length < n → l.mayAccept es = true

/-- The handlers that are spawned or in `handleClientCtx`. -/
def busyHandlers (s : ServerState) : Finset Nat :=
  (Finset.range s.serve.conns).filter fun i => s.serve.handler i = .spawned ∨ s.serve.handler i = .running

end SP.Spec
