import Mathlib.Order.Bounds.Defs
import SpnegoProxy.Framework.Machine
import SpnegoProxy.Impl.TunnelClock

/-!
# The clock of a tunnel as one register

What the goroutines of a tunnel may rely on, whatever the order of their
steps: the clock holds the greatest of the touched times, and what
`quietForSince` returns was true at a moment of the call.
-/

namespace SP.Spec

open SP.Impl

variable {ι : Type} [DecidableEq ι]

/-- A new clock, and any number of goroutines that use it. -/
def tunnelClock (ι : Type) [DecidableEq ι] : Machine (ClockState ι) (ClockAct ι) :=
  ⟨newTunnelClock ι, clockStep⟩

/-- The time that the event reads for the goroutine `i`, and what `last` held then. -/
def sampleOf (i : ι) : ClockEvent ι → Option (Int × Int)
  | .sampled j elapsed last => if j = i then some (elapsed, last) else none
  | _ => none

/-- The last sample of a goroutine. -/
def lastSample (i : ι) (tr : List (ClockEvent ι)) : Option (Int × Int) :=
  (tr.filterMap (sampleOf i)).getLast?

/-- `touchAt(t)` was called. -/
def Touched (tr : List (ClockEvent ι)) (t : Int) : Prop := ∃ i, .touched i t ∈ tr

/-- No time was published before it had come. -/
def PublishedInTime (tr : List (ClockEvent ι)) : Prop :=
  ∀ i t now, .published i t now ∈ tr → t ≤ now

/-- Every result of `quietForSince` is the time it sampled, less a value that
`last` held then. -/
def QuietsSampled (tr : List (ClockEvent ι)) : Prop :=
  ∀ pre post i v, tr = pre ++ .quiet i v :: post → ∃ el ℓ, lastSample i pre = some (el, ℓ) ∧
    v = el - ℓ

/-- The goroutine is in `touchAt(t)`. -/
def TouchesAt (t : Int) : ClockPc → Prop
  | .touch (.load now) => now = t
  | .touch (.swap now _) => now = t
  | _ => False

/-- The clock after the run that led to `s`. -/
structure Linearised (s : ClockState ι) : Prop where
  /-- `last` never decreases. -/
  grows : ∀ bs s', (tunnelClock ι).execFrom s bs = some s' → s.last ≤ s'.last
  /-- When all calls of `touchAt` have returned, `last` is the greatest of its
  first value and the touched times. -/
  greatest : (∀ i t, ¬ TouchesAt t (s.pc i)) →
    IsGreatest (insert (tunnelClock ι).init.last {t | Touched s.trace t}) s.last
  sampled : QuietsSampled s.trace
  nonneg : PublishedInTime s.trace → ∀ i v, .quiet i v ∈ s.trace → 0 ≤ v

end SP.Spec
