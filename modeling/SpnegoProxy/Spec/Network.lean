import SpnegoProxy.Impl.Session

/-!
# A network of proxies

The way of one request from proxy to proxy. Each proxy runs a session of its
own, under its own configuration and in any environment. Between two of them
the request may pass other intermediaries, which keep the first line of `Via`
in one line and first, and may add to it: a proxy looks at the first line only.
-/

namespace SP.Spec

open SP.Go SP.Impl

/-- The request that an event reads. -/
def requestRead : Event → Option Request
  | .read (.ok r) => some r
  | _ => none

/-- The request read last. -/
def lastRead (tr : List Event) : Option Request := (tr.filterMap requestRead).getLast?

/-- A proxy on the way of a request: what it read, and what it wrote for it. -/
structure Passage where
  cfg : Config
  raw : Request
  req : Request

/-- In some session of the proxy, `req` is written after `raw` was read last. -/
def Passage.Forwards (h : Passage) : Prop :=
  ∃ env n p q c answer, (run h.cfg env n).trace = p ++ .sent c h.req answer :: q ∧
    lastRead p = some h.raw

/-- `raw` is what the next proxy reads of `req`: its first `Via` line is in
the first one there, perhaps with more around it, and `Via` is not declared to
be hop-by-hop. -/
structure Delivered (req raw : Request) : Prop where
  via : req.header.get headerVia <:+: raw.header.get headerVia
  kept : canonicalKey headerVia ∉
    (listMembers ((raw.header.entry headerConnection).getD [])).map canonicalKey

/-- The proxies that a request has passed, in order. What a client sends to
the first of them is arbitrary. -/
inductive Journey : List Passage → Prop where
  | first {h : Passage} : h.Forwards → Journey [h]
  | next {hs : List Passage} {last h : Passage} : Journey (hs ++ [last]) →
    Delivered last.req h.raw → h.Forwards →
      Journey (hs ++ [last] ++ [h])

end SP.Spec
