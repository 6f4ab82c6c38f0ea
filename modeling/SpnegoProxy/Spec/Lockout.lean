import SpnegoProxy.Impl.Breaker
import SpnegoProxy.Framework.Machine

/-!
# What the circuit breaker is for

An account is locked out by failed logins in a row. The policy lets logins
run one at a time, and after `threshold` failures in a row only once an open
period has elapsed since the last one ended. It is a machine whose actions
are what can be seen of the provider, so a trace keeps the policy if it is a
run of the machine.
-/

namespace SP.Spec

open SP.Impl

/-- What the policy remembers of a trace. -/
structure Lockout where
  /-- The login that runs: its caller, and when it began. -/
  running : Option (Nat × Int) := none
  /-- Failed logins since the last success. -/
  fails : Nat := 0
  /-- When the last login ended. -/
  last : Int := 0
  /-- An open period has elapsed since then. -/
  elapsed : Bool := false

/-- The change that ends an open period. -/
def elapses (c : StateChange) : Bool := c = ⟨.stateOpen, .stateHalfOpen⟩

def lockoutStep (threshold : Nat) (timeout : Int) (p : Lockout) : TokenEvent → Option Lockout
  | .started i t =>
    if p.running = none ∧ (p.fails < threshold ∨ p.elapsed = true ∧ p.last + timeout ≤ t) then
      some { p with running := some (i, t) }
    else none
  | .ended c =>
    if p.running = some (c.caller, c.start) then
      some { running := none, fails := if c.result.success then 0 else p.fails + 1, last := c.finish, elapsed := false }
    else none
  | .changed c => some { p with elapsed := p.elapsed || elapses c }
  | .returned _ _ => some p

def lockout (threshold : Nat) (timeout : Int) : Machine Lockout TokenEvent :=
  ⟨{}, lockoutStep threshold timeout⟩

/-! ## What a part of a trace holds -/

def endedCall : TokenEvent → Option InnerCall
  | .ended c => some c
  | _ => none

/-- The logins that ended, in order. -/
def calls (tr : List TokenEvent) : List InnerCall := tr.filterMap endedCall

def elapsesEvent : TokenEvent → Bool
  | .changed c => elapses c
  | _ => false

/-- How many open periods elapsed. -/
def elapsed (tr : List TokenEvent) : Nat := tr.countP elapsesEvent

/-- From the `threshold`-th on, each login ends `timeout` before the next begins. -/
def Spaced (threshold : Nat) (timeout : Int) (cs : List InnerCall) : Prop :=
  ∀ k c c', threshold ≤ k + 1 → cs[k]? = some c → cs[k + 1]? = some c' →
    c.finish + timeout ≤ c'.start

end SP.Spec
