import SpnegoProxy.Impl.Go.Net
import SpnegoProxy.Impl.Go.Strconv

/-!
# Go's `net/netip` package: addresses and prefixes
-/

namespace SP.Go

/-- `netip.Addr`. `none` is the zero `Addr`, which is no address; an IPv6
address without a zone has the zone `""`. -/
inductive Addr where
  | none
  | v4 (a : BitVec 32)
  | v6 (a : BitVec 128) (zone : Str)
  deriving DecidableEq, Repr

/-- The number big-endian bytes denote. -/
def beVal (bs : List UInt8) : Nat := bs.foldl (fun n b => n * 256 + b.toNat) 0

/-- One field of a dotted IPv4 address: at most 255, no leading zero. -/
def parseOctet (s : Str) : Option UInt8 :=
  match parseDigits s with
  | some n => if n ≤ 255 ∧ (s.head? ≠ some 0x30 ∨ s.length = 1) then some n.toUInt8 else none
  | none => none

/-- `parseIPv4Fields`: four fields between dots. -/
def parseIPv4Fields (s : Str) : Option (List UInt8) :=
  let fields := s.splitOn 0x2E
  if fields.length = 4 then fields.mapM parseOctet else none

def parseIPv4 (s : Str) : Addr :=
  match parseIPv4Fields s with
  | some bs => .v4 (BitVec.ofNat 32 (beVal bs))
  | none => .none

def hexVal (b : UInt8) : Option Nat :=
  if isDigit b then some (b.toNat - 0x30)
  else if 0x61 ≤ b ∧ b ≤ 0x66 then some (b.toNat - 0x61 + 10)
  else if 0x41 ≤ b ∧ b ≤ 0x46 then some (b.toNat - 0x41 + 10)
  else none

/-- The loop of `parseIPv6`: `n` more fields fit, `ip` are the bytes so far,
`ellipsis` the position of `::` in them. Gives the bytes, the position and
what is left of the string. -/
def parseIPv6Fields : Nat → List UInt8 → Option Nat → Str → Option (List UInt8 × Option Nat × Str)
  | 0, ip, ellipsis, s => some (ip, ellipsis, s)
  | n + 1, ip, ellipsis, s =>
    let digits := s.takeWhile fun b => (hexVal b).isSome
    let rest := s.dropWhile fun b => (hexVal b).isSome
    if digits = [] ∨ 4 < digits.length then none
    else if rest.head? = some 0x2E then
      -- an IPv4 address in the last two fields
      if (ellipsis = none ∧ ip.length ≠ 12) ∨ 16 < ip.length + 4 then none
      else (parseIPv4Fields s).map fun bs => (ip ++ bs, ellipsis, [])
    else
      let acc := digits.foldl (fun n b => n * 16 + (hexVal b).getD 0) 0
      let ip := ip ++ [(acc / 256).toUInt8, (acc % 256).toUInt8]
      match rest with
      | [] => some (ip, ellipsis, [])
      | b :: t =>
        if b ≠ colon ∨ t = [] then none
        else if t.head? = some colon then
          if ellipsis ≠ none then none
          else if t.tail = [] then some (ip, some ip.length, [])
          else parseIPv6Fields n ip (some ip.length) t.tail
        else parseIPv6Fields n ip ellipsis t

/-- The address without its zone, `16` bytes. -/
def parseIPv6Bytes (s : Str) : Option (List UInt8) :=
  let parsed :=
    if s.take 2 = [colon, colon] then
      if s.drop 2 = [] then some ([], some 0, []) else parseIPv6Fields 8 [] (some 0) (s.drop 2)
    else parseIPv6Fields 8 [] none s
  match parsed with
  | some (ip, ellipsis, []) =>
    match ellipsis with
    | none => if ip.length = 16 then some ip else none
    | some e =>
      if ip.length < 16 then some (ip.take e ++ List.replicate (16 - ip.length) 0 ++ ip.drop e) else none
  | _ => none

/-- `parseIPv6`: the zone is what follows the first `%`, and is not empty. -/
def parseIPv6 (s : Str) : Addr :=
  match cutFirst 0x25 s with
  | some (_, []) => .none
  | some (a, zone) =>
    match parseIPv6Bytes a with
    | some bs => .v6 (BitVec.ofNat 128 (beVal bs)) zone
    | none => .none
  | none =>
    match parseIPv6Bytes s with
    | some bs => .v6 (BitVec.ofNat 128 (beVal bs)) []
    | none => .none

/-- `netip.ParseAddr`, with the zero `Addr` for an error. -/
def parseAddr (s : Str) : Addr :=
  match s.find? fun b => b = 0x2E ∨ b = colon ∨ b = 0x25 with
  | some b => if b = 0x2E then parseIPv4 s else if b = colon then parseIPv6 s else .none
  | none => .none

/-- `netip.Prefix`: the address, without a zone, and the prefix length. -/
structure Prefix where
  ip : Addr
  bits : Nat
  deriving DecidableEq, Repr

/-- `netip.ParsePrefix`. -/
def parsePrefix (s : Str) : Option Prefix :=
  match cutLast 0x2F s with
  | none => none
  | some (a, b) =>
    if 1 < b.length ∧ ¬ (b.head?.any fun c => 0x31 ≤ c ∧ c ≤ 0x39) then none
    else match parseAddr a, atoi b with
      | .v4 ip, some n => if 0 ≤ n ∧ n ≤ 32 then some ⟨.v4 ip, n.toNat⟩ else none
      | .v6 ip [], some n => if 0 ≤ n ∧ n ≤ 128 then some ⟨.v6 ip [], n.toNat⟩ else none
      | _, _ => none

/-- The first `n` of 128 bits. -/
def mask6 (n : Nat) : BitVec 128 := BitVec.allOnes 128 <<< (128 - n)

/-- `Prefix.Contains`: the same family, no zone, and the same first bits. -/
def Prefix.contains (p : Prefix) (ip : Addr) : Bool :=
  match p.ip, ip with
  | .v4 a, .v4 b => (b ^^^ a) >>> (32 - p.bits) == 0
  | .v6 a _, .v6 b [] => (b ^^^ a) &&& mask6 p.bits == 0
  | _, _ => false

end SP.Go
