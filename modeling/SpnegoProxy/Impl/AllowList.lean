import SpnegoProxy.Impl.Go.IP
import SpnegoProxy.Impl.Headers
import SpnegoProxy.Impl.NoProxy

/-!
# The client allowlist: `config.go`, and its guard in `handleClientCtx`
-/

namespace SP.Impl

open SP.Go

/-- The errors of `ParseAllowList`, with the entry that they quote. -/
inductive AllowListErr where
  | invalidCIDR (entry : Str)
  | invalidIP (entry : Str)
  deriving DecidableEq, Repr

/-- One entry of `ParseAllowList`. -/
def parseAllowEntry (entry : Str) : Except AllowListErr IPNet :=
  if contains entry (str "/") then
    match parseCIDR entry with
    | none => .error (.invalidCIDR entry)
    | some ipNet => .ok ipNet
  else
    let ip := parseIP entry
    if ip = [] then .error (.invalidIP entry)
    else if ip.to4 = none then .ok ⟨ip, cidrMask 128 16⟩
    else .ok ⟨ip, cidrMask 32 4⟩

/-- `ParseAllowList`. -/
def parseAllowList (s : Str) : Except AllowListErr (List IPNet) := (splitCSV s).mapM parseAllowEntry

/-- `ipAllowed`. -/
def ipAllowed (ip : IP) (allowList : List IPNet) : Bool :=
  allowList = [] || allowList.any fun n => n.contains (ip.to4.getD ip)

/-- The guard of `handleClientCtx`: whether the client at `clientAddr` is let in. -/
def admitsClient (allowedIPs : List IPNet) (clientAddr : Str) : Bool :=
  allowedIPs = [] || ipAllowed (parseIP (extractHost clientAddr)) allowedIPs

end SP.Impl
