import Mathlib.Algebra.Group.Int.Defs
import Mathlib.Order.Defs.LinearOrder
import SpnegoProxy.Impl.Go.Strconv

/-!
# Go's `time` package: instants and durations

An instant is the number of nanoseconds since the Unix epoch. A duration is
the number of nanoseconds in an `int64`.
-/

namespace SP.Go

/-- The least duration, which is also `time.Time.Sub`'s lower bound. -/
def minDuration : Int := -(2 ^ 63)

/-- The greatest duration. -/
def maxDuration : Int := 2 ^ 63 - 1

/-- `time.Time{}`: the start of the year 1. -/
def zeroTime : Int := -62135596800000000000

/-- `t.Sub(u)`: a difference outside `int64` gives the nearest duration. -/
def timeSub (t u : Int) : Int := max minDuration (min maxDuration (t - u))

/-- `-d`: the least duration is its own negative. -/
def negDuration (d : Int) : Int := if d = minDuration then d else -d

/-- `time.Second`. -/
def second : Int := 1000000000

/-- `fmtFrac`: the last `prec` digits of `v` as a fraction in front of `w`,
without trailing zeros, and the rest of `v`. -/
def fmtFrac (v : Nat) (print : Bool) (w : Str) : Nat → Str × Nat
  | 0 => (if print then 0x2E :: w else w, v)
  | prec + 1 =>
    let digit := v % 10
    let print := print || digit ≠ 0
    fmtFrac (v / 10) print (if print then UInt8.ofNat (0x30 + digit) :: w else w) prec

/-- `Duration.String`. -/
def durationString (d : Int) : Str :=
  let u := d.natAbs
  let w :=
    if u = 0 then str "0s"
    else if u < 1000000000 then
      let (unit, prec) :=
        if u < 1000 then (str "ns", 0) else if u < 1000000 then (str "µs", 3) else (str "ms", 6)
      let (w, u) := fmtFrac u false unit prec
      itoa u ++ w
    else
      let (w, u) := fmtFrac u false (str "s") 9
      let w := itoa (u % 60) ++ w
      if u / 60 = 0 then w
      else
        let w := itoa (u / 60 % 60) ++ str "m" ++ w
        if u / 60 / 60 = 0 then w else itoa (u / 60 / 60) ++ str "h" ++ w
  if d < 0 then 0x2D :: w else w

end SP.Go
