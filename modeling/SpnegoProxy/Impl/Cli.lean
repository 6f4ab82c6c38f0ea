import SpnegoProxy.Impl.Breaker
import SpnegoProxy.Impl.Go.Time
import SpnegoProxy.Impl.Go.Strconv

/-!
# The command line: `cli.go`

The flags that the breaker is set up from, and what `validateFlags` and
`buildProvider` make of them. Parsing the arguments is the `flag` package's.
-/

namespace SP.Impl

open SP.Go

/-- `CBConsecutiveFailures`. -/
def cbConsecutiveFailures : Int := 3

/-- `CBTimeout`: 30 s. -/
def cbTimeoutDefault : Int := 30 * second

/-- The flags of the breaker in `cliConfig`, with the defaults of `parseFlags`. -/
structure CliConfig where
  cbThreshold : Int := cbConsecutiveFailures
  cbTimeout : Int := cbTimeoutDefault

def cbThresholdMax : Int := 2 ^ 32 - 1

/-- `validateFlags`: the error's text. -/
def validateFlags (c : CliConfig) : Option Str :=
  if c.cbThreshold ≤ 0 ∨ cbThresholdMax < c.cbThreshold then
    some (str "-cb-threshold must be between 1 and " ++ itoa cbThresholdMax ++ str ", got " ++ itoa c.cbThreshold)
  else if c.cbTimeout ≤ 0 then
    some (str "-cb-timeout must be greater than 0, got " ++ durationString c.cbTimeout)
  else none

/-- The threshold that `buildProvider` gives the breaker: `uint32(c.CBThreshold)`. -/
def CliConfig.breakerThreshold (c : CliConfig) : Nat := (c.cbThreshold % 2 ^ 32).toNat

end SP.Impl
