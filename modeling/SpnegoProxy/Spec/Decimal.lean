import SpnegoProxy.Impl.Go.Strings
import Mathlib.Data.Nat.Digits.Defs

/-!
# Decimal numerals
-/

namespace SP.Spec

open SP.Go

/-- `s` is a non-empty string of ASCII digits that denotes `n`. -/
structure Denotes (s : Str) (n : Nat) : Prop where
  nonempty : s ≠ []
  digits : ∀ b ∈ s, 0x30 ≤ b ∧ b ≤ 0x39
  value : n = Nat.ofDigits 10 (s.reverse.map fun b => b.toNat - 0x30)

end SP.Spec
