import SpnegoProxy.Impl.Go.Strings

/-!
# Heads without control octets
-/

namespace SP.Spec

open SP.Go

/-- A control octet other than HTAB. -/
def isControl (b : UInt8) : Bool := b != 0x09 && (b < 0x20 || b == 0x7F)

/-- No control octet, HTAB apart. -/
def Clean (s : Str) : Prop := ∀ b ∈ s, isControl b = false

instance (s : Str) : Decidable (Clean s) := List.decidableBAll (isControl · = false) s

/-- Lines that CRLF ends, without control octets. -/
def CleanHead (h : Str) : Prop := ∃ lines :
    List Str, h = lines.flatMap (· ++ [0x0D, 0x0A]) ∧ ∀ l ∈ lines, Clean l

end SP.Spec
