import SpnegoProxy.Impl.Go.Strings
import Mathlib.Algebra.Group.Int.Defs
import Mathlib.Algebra.Group.Nat.Defs

/-!
# Go's `strconv` package: decimal numbers
-/

namespace SP.Go

def isDigit (b : UInt8) : Bool := 0x30 ≤ b && b ≤ 0x39

/-- The number a string of digits denotes. -/
def digitsVal (s : Str) : Nat := s.foldl (fun n b => n * 10 + (b.toNat - 0x30)) 0

/-- A non-empty string of digits, read in base 10. -/
def parseDigits (s : Str) : Option Nat :=
  if s ≠ [] ∧ s.all isDigit then some (digitsVal s) else none

/-- `strconv.ParseUint(s, 10, 64)`. -/
def parseUint (s : Str) : Option Nat := (parseDigits s).filter (· < 2 ^ 64)

/-- `strconv.Atoi` on a 64-bit platform: an optional sign, then digits; an
error for any other string and for a number outside `int`. -/
def atoi (s : Str) : Option Int :=
  let n : Option Int := match s with
    | 0x2D :: t => (parseDigits t).map fun n => -(n : Int)
    | 0x2B :: t => (parseDigits t).map fun n => (n : Int)
    | _ => (parseDigits s).map fun n => (n : Int)
  n.filter fun n => -(2 ^ 63) ≤ n ∧ n < 2 ^ 63

/-- `strconv.Itoa`. -/
def itoa (n : Int) : Str := str (toString n)

end SP.Go
