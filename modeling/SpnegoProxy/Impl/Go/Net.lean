import SpnegoProxy.Impl.Go.Strings

/-!
# Go's `net` package: host and port
-/

namespace SP.Go

/-- `:` -/
abbrev colon : UInt8 := 0x3A
/-- `[` -/
abbrev lbrack : UInt8 := 0x5B
/-- `]` -/
abbrev rbrack : UInt8 := 0x5D

/-- The `Err` text of a `net.AddrError` that `SplitHostPort` returns. -/
inductive AddrErr where
  | missingPort
  | tooManyColons
  | missingBracket
  | unexpectedLeft
  | unexpectedRight
  deriving DecidableEq, Repr

/-- The last two checks of `SplitHostPort`: no `[` in `l`, no `]` in `r`. -/
def checkBrackets (l r host port : Str) : Except AddrErr (Str × Str) :=
  if lbrack ∈ l then .error .unexpectedLeft
  else if rbrack ∈ r then .error .unexpectedRight
  else .ok (host, port)

/-- `net.SplitHostPort`. For a bracketed host, `before` and `after` are the
parts around the first `]`: the last colon must be the first byte of `after`. -/
def splitHostPort (hostport : Str) : Except AddrErr (Str × Str) :=
  match cutLast colon hostport with
  | none => .error .missingPort
  | some (host, port) =>
    if hostport.head? = some lbrack then
      match cutFirst rbrack hostport.tail with
      | none => .error .missingBracket
      | some (_, []) => .error .missingPort
      | some (before, b :: after) =>
        if b ≠ colon then .error .missingPort
        else if colon ∈ after then .error .tooManyColons
        else checkBrackets hostport.tail (b :: after) before after
    else if colon ∈ host then .error .tooManyColons
    else checkBrackets hostport hostport host port

/-- `net.JoinHostPort`. -/
def joinHostPort (host port : Str) : Str :=
  if colon ∈ host then lbrack :: host ++ rbrack :: colon :: port else host ++ colon :: port

end SP.Go
