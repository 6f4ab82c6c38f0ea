import SpnegoProxy.Impl.Go.Netip

/-!
# Hosts: `noproxy.go` and the host functions of `direct.go`
-/

namespace SP.Impl

open SP.Go

/-- `stripIPv6Brackets`. -/
def stripIPv6Brackets (host : Str) : Str :=
  if hasPre host [lbrack] ∧ hasSuf host [rbrack] then host.tail.dropLast else host

/-- The canonical form that `sameHost` compares. -/
def canonHost (defaultPort h : Str) : Str :=
  let h := toLower (trimSpace h)
  match splitHostPort h with
  | .ok (host, port) => joinHostPort host port
  | .error _ => joinHostPort (stripIPv6Brackets h) defaultPort

/-- `sameHost`. -/
def sameHost (a b defaultPort : Str) : Bool := canonHost defaultPort a == canonHost defaultPort b

/-- The address that `dialDirect` dials. -/
def dialTarget (host defaultPort : Str) : Str :=
  match splitHostPort host with
  | .ok _ => host
  | .error _ => joinHostPort host defaultPort

/-- `noProxyRule`: its kind, with the field that kind uses. -/
inductive RuleKind where
  | hostname (host : Str)
  | wildcard (suffix : Str)
  | ip (ip : Addr)
  | cidr (p : Prefix)
  | all
  deriving DecidableEq, Repr

structure NoProxyRule where
  raw : Str
  kind : RuleKind
  deriving DecidableEq, Repr

/-- `NoProxyMatcher`. -/
structure NoProxyMatcher where
  rules : List NoProxyRule
  deriving DecidableEq, Repr

/-- `SplitCSV`. -/
def splitCSV (s : Str) : List Str := ((splitComma s).map trimSpace).filter (· ≠ [])

/-- The rule that `NewNoProxyMatcher` makes of one pattern. -/
def newRule (pat : Str) : NoProxyRule :=
  if pat = str "*" then ⟨pat, .all⟩
  else match parsePrefix pat with
    | some p => ⟨pat, .cidr p⟩
    | none =>
      match parseAddr pat with
      | .none =>
        let suffix := if hasPre pat (str "*") then pat.tail else pat
        if hasPre suffix (str ".") then ⟨pat, .wildcard (toLower suffix)⟩
        else ⟨pat, .hostname (toLower pat)⟩
      | ip => ⟨pat, .ip ip⟩

/-- `NewNoProxyMatcher`. -/
def newNoProxyMatcher (patterns : Str) : NoProxyMatcher := ⟨(splitCSV patterns).map newRule⟩

/-- `noProxyRule.matches`. The zero `Addr` is no rule's address, and no
prefix contains it. -/
def NoProxyRule.matches (r : NoProxyRule) (host : Str) (hostIP : Addr) : Bool :=
  match r.kind with
  | .all => true
  | .hostname h => host == h
  | .wildcard suffix => host == suffix.tail || hasSuf host suffix
  | .ip ip => hostIP == ip
  | .cidr p => p.contains hostIP

/-- The host that `Match` compares with the rules. -/
def matchHost (host : Str) : Str :=
  match splitHostPort host with
  | .ok (h, _) => toLower h
  | .error _ => toLower (stripIPv6Brackets host)

/-- `NoProxyMatcher.Match`: the pattern of the first rule that covers the host. -/
def NoProxyMatcher.find (m : NoProxyMatcher) (host : Str) : Option Str :=
  let host := matchHost host
  (m.rules.find? (·.matches host (parseAddr host))).map (·.raw)

/-- The decision of `NoProxyMatcher.Match`. -/
def NoProxyMatcher.covers (m : NoProxyMatcher) (host : Str) : Bool := (m.find host).isSome

end SP.Impl
