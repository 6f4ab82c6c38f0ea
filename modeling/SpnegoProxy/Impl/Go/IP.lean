import SpnegoProxy.Impl.Go.Netip

/-!
# Go's `net` package: IP addresses, masks and networks
-/

namespace SP.Go

/-- `net.IP`: 4 or 16 bytes in network order, or `nil`. -/
abbrev IP := List UInt8

/-- The last `k` bytes of a number, in network order. -/
def beBytes : Nat → Nat → List UInt8
  | 0, _ => []
  | k + 1, n => beBytes k (n / 256) ++ [n.toUInt8]

/-- `v4InV6Prefix`. -/
def v4InV6 : List UInt8 := [0, 0, 0, 0, 0, 0, 0, 0, 0, 0, 0xFF, 0xFF]

/-- `netip.Addr.As16`. -/
def Addr.as16 : Addr → IP
  | .none => List.replicate 16 0
  | .v4 a => v4InV6 ++ beBytes 4 a.toNat
  | .v6 a _ => beBytes 16 a.toNat

/-- `net.ParseIP`: an address with a zone is none. -/
def parseIP (s : Str) : IP :=
  match parseAddr s with
  | .none => []
  | .v6 _ (_ :: _) => []
  | ip => ip.as16

/-- `IP.To4`. -/
def IP.to4 (ip : IP) : Option IP :=
  if ip.length = 4 then some ip
  else if ip.length = 16 ∧ ip.take 12 = v4InV6 then some (ip.drop 12)
  else none

/-- `net.CIDRMask` of `l` bytes. -/
def cidrMask (ones : Nat) : Nat → List UInt8
  | 0 => []
  | l + 1 => (if 8 ≤ ones then 0xFF else ~~~((0xFF : UInt8) >>> ones.toUInt8)) :: cidrMask (ones - 8) l

/-- `IP.Mask`. -/
def IP.mask (ip : IP) (mask : List UInt8) : IP :=
  let mask :=
    if mask.length = 16 ∧ ip.length = 4 ∧ mask.take 12 = List.replicate 12 0xFF then mask.drop 12 else mask
  let ip : IP := if mask.length = 4 ∧ ip.length = 16 ∧ ip.take 12 = v4InV6 then ip.drop 12 else ip
  if ip.length = mask.length then ip.zipWith (· &&& ·) mask else []

/-- `net.IPNet`. -/
structure IPNet where
  ip : IP
  mask : List UInt8
  deriving DecidableEq, Repr

/-- `networkNumberAndMask`. -/
def IPNet.numberAndMask (n : IPNet) : IP × List UInt8 :=
  match (match n.ip.to4 with
    | some ip => some ip
    | none => if n.ip.length = 16 then some n.ip else none) with
  | none => ([], [])
  | some ip =>
    if n.mask.length = 4 then if ip.length = 4 then (ip, n.mask) else ([], [])
    else if n.mask.length = 16 then (ip, if ip.length = 4 then n.mask.drop 12 else n.mask)
    else ([], [])

/-- `IPNet.Contains`. -/
def IPNet.contains (n : IPNet) (ip : IP) : Bool :=
  let (number, mask) := n.numberAndMask
  let ip := ip.to4.getD ip
  ip.length = number.length && number.zipWith (· &&& ·) mask == ip.zipWith (· &&& ·) mask

/-- `dtoi`: all of the string is digits, and the number is below `0xFFFFFF`. -/
def dtoi (s : Str) : Option Nat := (parseDigits s).filter (· < 0xFFFFFF)

/-- `net.ParseCIDR`, the network. -/
def parseCIDR (s : Str) : Option IPNet :=
  match cutFirst 0x2F s with
  | none => none
  | some (addr, mask) =>
    let net (ip : Addr) (l : Nat) : Option IPNet :=
      match dtoi mask with
      | some n => if n ≤ 8 * l then some ⟨IP.mask ip.as16 (cidrMask n l), cidrMask n l⟩ else none
      | none => none
    match parseAddr addr with
    | .v4 a => net (.v4 a) 4
    | .v6 a [] => net (.v6 a []) 16
    | _ => none

/-! ## Printing -/

/-- `Addr.appendTo4`. -/
def format4 (ip : List UInt8) : Str := [0x2E].intercalate (ip.map fun b => itoa b.toNat)

def hexDigit (d : Nat) : UInt8 := if d < 10 then (0x30 + d).toUInt8 else (0x61 + (d - 10)).toUInt8

/-- `appendHex`. -/
def hex (x : Nat) : Str :=
  (if 0x1000 ≤ x then [hexDigit (x / 0x1000)] else []) ++ (if 0x100 ≤ x then [hexDigit (x / 0x100 % 16)] else []) ++
    (if 0x10 ≤ x then [hexDigit (x / 0x10 % 16)] else []) ++ [hexDigit (x % 16)]

/-- The eight fields of an IPv6 address. -/
def fields16 : List UInt8 → List Nat
  | a :: b :: ip => (a.toNat * 256 + b.toNat) :: fields16 ip
  | _ => []

/-- The first loop of `Addr.appendTo6`: where the longest run of two or more
zero fields begins, and its length; the first of several. -/
def zeroRun (fs : List Nat) : Nat × Nat :=
  (List.range 8).foldl (fun best i =>
    let l := ((fs.drop i).takeWhile (· = 0)).length
    if 2 ≤ l ∧ best.2 < l then (i, l) else best) (0, 0)

def joinFields (fs : List Nat) : Str := [colon].intercalate (fs.map hex)

/-- The second loop: the run is printed as `::`. -/
def format6 (ip : List UInt8) : Str :=
  let fs := fields16 ip
  let (start, length) := zeroRun fs
  if length = 0 then joinFields fs
  else joinFields (fs.take start) ++ colon :: colon :: joinFields (fs.drop (start + length))

/-- `IP.String`, of an address of 4 or 16 bytes. -/
def IP.string (ip : IP) : Str :=
  match ip.to4 with
  | some p4 => format4 p4
  | none => format6 ip

/-- `net.TCPAddr`, of a connection. -/
structure TCPAddr where
  ip : IP
  port : Nat
  zone : Str
  valid : ip.length = 4 ∨ ip.length = 16

/-- `TCPAddr.String`. -/
def TCPAddr.string (a : TCPAddr) : Str :=
  joinHostPort (if a.zone = [] then IP.string a.ip else IP.string a.ip ++ 0x25 :: a.zone) (itoa a.port)

end SP.Go
