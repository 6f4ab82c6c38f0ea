import SpnegoProxy.Impl.Session
import SpnegoProxy.Spec.Decimal

/-!
# What a `Max-Forwards` count is for

A chain of proxies passes a counted request on; `BoundsHops` says that each of
them takes one off the count, and that there are no more of them than it says.
-/

namespace SP.Spec

open SP.Go SP.Impl

/-- A `TRACE` or `OPTIONS` request with the count `n`. -/
structure Counts (req : Request) (n : Nat) : Prop where
  method : req.method = methodTrace ∨ req.method = methodOptions
  value : ∃ v, req.header.values headerMaxForwards = [v] ∧ Denotes v n

/-- What the next proxy reads of a request that `applyMaxForwards` lets pass:
the method and the count are those that were forwarded. -/
def PassesOn (req next : Request) : Prop :=
  ∃ r, applyMaxForwards req = some r ∧ next.method = r.method ∧
    next.header.values headerMaxForwards = r.header.values headerMaxForwards

/-- A request that is passed on `k` times. -/
inductive Hops : Nat → Request → Request → Prop where
  | zero {req} : Hops 0 req req
  | succ {k req next last} : PassesOn req next → Hops k next last → Hops (k + 1) req last

/-- The count `n` of a request bounds its hops. -/
structure BoundsHops (req : Request) (n : Nat) : Prop where
  stops : n = 0 → applyMaxForwards req = none
  forwards : n ≠ 0 → ∃ v, Denotes v (n - 1) ∧
    applyMaxForwards req = some { req with header := req.header.set headerMaxForwards v }
  hops {k : Nat} {last : Request} : Hops k req last → k ≤ n

end SP.Spec
