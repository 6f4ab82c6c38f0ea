import SpnegoProxy.Impl.Tunnel

/-!
# The clock of a tunnel: `tunnelClock` of `connect.go`

Any number of goroutines that call `touch`, `touchAt` and `quietForSince` on
one clock, one call after another. A load or a swap of `last` and a reading
of the time is a step of its own, and the scheduler picks who takes the next
one. Times count from the clock's origin.
-/

namespace SP.Impl

/-- Where a goroutine is. -/
inductive ClockPc where
  /-- In no call on the clock. -/
  | outside
  | touch (t : TouchPc)
  | quiet (q : QuietPc)
  deriving DecidableEq

/-- What can be seen of a clock. -/
inductive ClockEvent (ι : Type) where
  /-- `touchAt(elapsed)` is called. -/
  | touched (i : ι) (elapsed : Int)
  /-- A swap stores `elapsed` at the time `now`. -/
  | published (i : ι) (elapsed now : Int)
  /-- `quietForSince` reads the time; `last` is what the clock holds then. -/
  | sampled (i : ι) (elapsed last : Int)
  /-- `quietForSince` returns. -/
  | quiet (i : ι) (quiet : Int)
  deriving DecidableEq

structure ClockState (ι : Type) where
  last : Int
  now : Int
  pc : ι → ClockPc
  trace : List (ClockEvent ι)

/-- `newTunnelClock`. -/
def newTunnelClock (ι : Type) : ClockState ι := ⟨0, 0, fun _ => .outside, []⟩

inductive ClockAct (ι : Type) where
  /-- Time passes. -/
  | tick (now : Int)
  | touch (i : ι)
  | touchAt (i : ι) (elapsed : Int)
  | quietForSince (i : ι)
  /-- The goroutine's next load, swap or reading of the time. -/
  | step (i : ι)
  deriving DecidableEq

variable {ι : Type} [DecidableEq ι]

def ClockState.goto (s : ClockState ι) (i : ι) (pc : ClockPc) (events : List (ClockEvent ι)) :
    ClockState ι :=
  { s with pc := Function.update s.pc i pc, trace := s.trace ++ events }

/-- A goroutine that is in no call makes one. -/
def ClockState.call (s : ClockState ι) (i : ι) (pc : ClockPc) (events : List (ClockEvent ι)) :
    Option (ClockState ι) :=
  if s.pc i = .outside then some (s.goto i pc events) else none

def clockStep (s : ClockState ι) : ClockAct ι → Option (ClockState ι)
  | .tick now => if s.now ≤ now then some { s with now := now } else none
  | .touch i => s.call i (.touch .sample) []
  | .touchAt i elapsed => s.call i (.touch (.load elapsed)) [.touched i elapsed]
  | .quietForSince i => s.call i (.quiet .load) []
  | .step i =>
    match s.pc i with
    | .outside => none
    -- `c.touchAt(time.Since(c.origin))`
    | .touch .sample => some (s.goto i (.touch (.load s.now)) [.touched i s.now])
    | .touch (.load now) =>
      if s.last < now then some (s.goto i (.touch (.swap now s.last)) []) else some (s.goto i .outside [])
    | .touch (.swap now last) =>
      if s.last = last then some { s.goto i .outside [.published i now s.now] with last := now }
      else some (s.goto i (.touch (.load now)) [])
    | .quiet .load => some (s.goto i (.quiet (.sample s.last)) [])
    | .quiet (.sample last) => some (s.goto i (.quiet (.reload last s.now)) [.sampled i s.now s.last])
    | .quiet (.reload last elapsed) =>
      if s.last = last then some (s.goto i .outside [.quiet i (elapsed - last)])
      else some (s.goto i (.quiet .load) [])

end SP.Impl
