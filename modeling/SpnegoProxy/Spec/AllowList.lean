import SpnegoProxy.Impl.Go.IP
import SpnegoProxy.Spec.Decimal

/-!
# Membership in a list of addresses and CIDRs
-/

namespace SP.Spec

open SP.Go

/-- The bit `i` of an address in network order. -/
def addrBit (ip : IP) (i : Nat) : Bool := (ip.getD (i / 8) 0).toNat.testBit (7 - i % 8)

/-- The entry `e` stands for the addresses of the family of `ip` that agree
with it on the first `n` bits. -/
inductive EntryOf : Str → IP → Nat → Prop where
  | addr4 {e a} : parseAddr e = .v4 a → EntryOf e (beBytes 4 a.toNat) 32
  | addr6 {e a} : parseAddr e = .v6 a [] → EntryOf e (beBytes 16 a.toNat) 128
  | cidr4 {x m a n} : parseAddr x = .v4 a → Denotes m n → n ≤ 32 →
    EntryOf (x ++ 0x2F :: m) (beBytes 4 a.toNat) n
  | cidr6 {x m a n} : parseAddr x = .v6 a [] → Denotes m n → n ≤ 128 →
    EntryOf (x ++ 0x2F :: m) (beBytes 16 a.toNat) n

/-- An IPv4-mapped IPv6 address. -/
def Mapped (ip : IP) : Prop := ip.length = 16 ∧ ip.take 12 = v4InV6

instance (ip : IP) : Decidable (Mapped ip) := inferInstanceAs (Decidable (_ ∧ _))

/-- The entry is not IPv4-mapped. -/
def Plain (e : Str) : Prop := ∀ ip n, EntryOf e ip n → ¬ Mapped ip

/-- An address, with the IPv4-mapped form read as the IPv4 address. -/
def unmap (ip : IP) : IP := if Mapped ip then ip.drop 12 else ip

/-- The address `ip` is in the list of the entries `es`. -/
def Member (es : List Str) (ip : IP) : Prop :=
  ∃ e ∈ es, ∃ net n, EntryOf e net n ∧ net.length = (unmap ip).length ∧ ∀ i < n,
    addrBit net i = addrBit (unmap ip) i

end SP.Spec
