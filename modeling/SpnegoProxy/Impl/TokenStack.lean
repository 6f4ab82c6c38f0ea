import SpnegoProxy.Impl.Breaker
import SpnegoProxy.Impl.Gokrb5

/-!
# The password provider behind the breaker: `buildProvider`

With `-user`, the sessions' token provider is a `CircuitBreakerTokenProvider`
around a `Gokrb5TokenProvider`. Any number of calls of the outer `GetToken`
take their steps in any order; the wrapped `GetToken` runs where a call is in
`p.inner.GetToken()`, under the mutex of the wrapped provider. The goroutine
that repeats the warnings and `Close`, which takes no lock of the breaker's,
come in between at any time.
-/

namespace SP.Impl

open SP.Go

structure TokenStack where
  outer : TokenState := {}
  inner : Krb

inductive StackAct where
  /-- A step of a call of the outer `GetToken`, outside the wrapped one. -/
  | outer (a : TokenAct)
  /-- The wrapped `GetToken`, called by the call `i`; it returns at `now`. -/
  | call (i : Nat) (x : Call) (now : Int)
  /-- What the goroutine does, or a call of `Close`. -/
  | inner (a : KrbAct)
  deriving DecidableEq

/-- How `Execute` finds the wrapped call ended. -/
def callResult : Except GoError Str → CallResult
  | .ok token => .token token
  | .error err => .error err

/-- A step of the two providers. Their clocks are one clock: the wrapped call
reads it after its caller began, and its caller after it. A call that
panicked would be no step. -/
def stackStep (mac : Str → Str → Str) (threshold : Nat) (timeout : Int) (s : TokenStack) :
    StackAct → Option TokenStack
  | .outer (.innerReturns _ _ _) => none
  | .outer a => (tokenStep threshold timeout s.outer a).map fun outer => { s with outer := outer }
  | .call i x now =>
    if s.inner.canTake (.getToken x) ∧ s.outer.clock ≤ x.now ∧ x.later ≤ now then
      match (getToken mac x).run { s.inner with clock := x.now } with
      | .error _ => none
      | .ok (r, inner) =>
        (tokenStep threshold timeout s.outer (.innerReturns i now (callResult r))).map fun outer =>
          ⟨outer, { inner.emit (.returned r) with clock := x.later }⟩
    else none
  | .inner (.getToken _) => none
  | .inner a =>
    if s.inner.canTake a then ((a.program mac).run s.inner).toOption.map fun r => { s with inner := r.2 } else none

end SP.Impl
