import SpnegoProxy.Impl.Headers

/-!
# Header fields

`members`: a field that is a list, read over all of its lines.

`HopByHop`: the fields that are meant for the next hop only. These are seven
that are always so, and those that the lines of `Connection` list.
-/

namespace SP.Spec

open SP.Go SP.Impl

/-! ## List fields -/

/-- The members of the list field `key`. -/
def members (h : Header) (key : Str) : List Str := listMembers (h.values key)

/-- The only line of `key` that has a member is the first. -/
def OneLine (h : Header) (key : Str) : Prop := listMembers (h.values key).tail = []

/-- From `h` to `h'` the value is added to the list field `key`. -/
def Appends (key value : Str) (h h' : Header) : Prop :=
  members h' key = members h key ++ listMembers [value]

/-! ## Hop-by-hop fields -/

/-- Every key is a token in canonical form, as `http.ReadRequest` makes them. -/
def TokenKeys (h : Header) : Prop :=
  ∀ k, h.entry k ≠ none → canonicalKey k = k ∧ k.all isTokenByte = true

/-- The fields that are hop-by-hop whatever `Connection` lists. -/
def fixedHopByHop : List Str :=
  [str "Connection", str "Keep-Alive", str "Proxy-Connection", str "TE", str "Trailer",
    str "Upgrade",
    str "Proxy-Authorization"]

/-- The name is a trimmed part of some line, between its commas. -/
def ListedIn (lines : List Str) (name : Str) : Prop :=
  name ≠ [] ∧ ∃ line ∈ lines, ∃ part ∈ splitComma line, trimSpace part = name

/-- The field `k` is hop-by-hop: its name is, in some letter case, one of the
fixed ones or a member of some `Connection` line. -/
def HopByHop (req : Request) (k : Str) : Prop :=
  ∃ name, (name ∈ fixedHopByHop ∨ ListedIn ((req.header.entry headerConnection).getD []) name) ∧
    foldCase name = foldCase k

/-- `Content-Length` is removed too, if the request has another framing. -/
abbrev DropsLength (req : Request) : Prop :=
  req.transferEncoding ≠ [] ∧ req.header.get headerContentLength ≠ []

/-! ## Forwarding fields -/

/-- The fields that tell a proxy of the client. -/
def forwardingHeaders : List Str :=
  [headerForwarded, headerXForwardedFor, headerXForwardedProto, headerXForwardedHost]

end SP.Spec
