import SpnegoProxy.Impl.Go.Netip

/-!
# The hosts that a noproxy pattern covers
-/

namespace SP.Spec

open SP.Go

/-- The labels of a domain name. -/
def labels (s : Str) : List Str := s.splitOn 0x2E

/-- The name that a host is compared under: in lower case, without its port
or, when it has none, without the brackets around it. -/
inductive NameOf : Str → Str → Prop where
  | ported {host h port} : splitHostPort host = .ok (h, port) → NameOf host (toLower h)
  | bracketed {host h e} : splitHostPort host = .error e → host = lbrack :: (h ++ [rbrack]) →
    NameOf host (toLower h)
  | bare {host e} : splitHostPort host = .error e → (∀ h, host ≠ lbrack :: (h ++ [rbrack])) →
      NameOf host (toLower host)

/-- A pattern of none of the special kinds. -/
structure PlainName (p : Str) : Prop where
  notAll : p ≠ str "*"
  notCIDR : parsePrefix p = none
  notIP : parseAddr p = .none
  notDot (s : Str) : p ≠ str "." ++ s
  notStarDot (s : Str) : p ≠ str "*." ++ s

/-- The pattern `p` covers the host `h`, which is in lower case and without
a port. -/
inductive Covers : Str → Str → Prop where
  | all {h} : Covers (str "*") h
  | cidr {p h c} : parsePrefix p = some c → c.contains (parseAddr h) = true → Covers p h
  | ip {p h} : parseAddr p ≠ .none → parseAddr h = parseAddr p → Covers p h
  | dot {s h} : labels (toLower s) <:+ labels h → Covers (str "." ++ s) h
  | starDot {s h} : labels (toLower s) <:+ labels h → Covers (str "*." ++ s) h
  | name {p h} : PlainName p → h = toLower p → Covers p h

/-- The first of the patterns `ps` that covers `h` is `p`. -/
def FirstCovering (ps : List Str) (h p : Str) : Prop :=
  ∃ before after, ps = before ++ p :: after ∧ Covers p h ∧ ∀ q ∈ before, ¬ Covers q h

end SP.Spec
