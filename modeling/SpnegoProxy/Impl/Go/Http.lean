import SpnegoProxy.Impl.Go.Strings
import Mathlib.Data.List.AList

/-!
# Go's `net/http` package: headers, requests and responses

`http.Header` is a map from field names to lists of values; `Get`, `Set` and
`Del` first put the name they are given in canonical form. A request or
response has the fields that the proxy reads or sets.
-/

namespace SP.Go

/-- A byte of a token (RFC 9110 §5.6.2). -/
def isTokenByte (c : UInt8) : Bool :=
  (0x61 ≤ c && c ≤ 0x7A) || (0x41 ≤ c && c ≤ 0x5A) || (0x30 ≤ c && c ≤ 0x39) ||
    (str "!#$%&'*+-.^_`|~").contains c

/-- The canonical form of a token: `up` is whether a letter here is a capital. -/
def canonicalBytes : Bool → Str → Str
  | _, [] => []
  | up, c :: s => (if up then upperByte c else lowerByte c) :: canonicalBytes (c = 0x2D) s

/-- `textproto.CanonicalMIMEHeaderKey`: a string that is no token is left alone. -/
def canonicalKey (s : Str) : Str := if s.all isTokenByte then canonicalBytes true s else s

/-- `http.Header`: each field name once, with its values in order. -/
structure Header where
  fields : AList fun _ : Str => List Str
  deriving DecidableEq

namespace Header

/-- The map's entry at `key` itself (`h[key]`), `none` when there is none. -/
def entry (h : Header) (key : Str) : Option (List Str) := h.fields.lookup key

/-- `Header.Values`. -/
def values (h : Header) (key : Str) : List Str := (h.entry (canonicalKey key)).getD []

/-- `Header.Get`: the first value, or `""`. -/
def get (h : Header) (key : Str) : Str := (h.values key).headD []

/-- `Header.Set`. -/
def set (h : Header) (key value : Str) : Header := ⟨h.fields.insert (canonicalKey key) [value]⟩

/-- `Header.Del`. -/
def del (h : Header) (key : Str) : Header := ⟨h.fields.erase (canonicalKey key)⟩

end Header

/-- What a request's `Body` holds: nothing (`http.NoBody`), a number of bytes
(`Content-Length`), or chunks. -/
inductive Body where
  | noBody
  | length (n : Nat)
  | chunked
  deriving DecidableEq, Repr

/-- `http.Request`, as `http.ReadRequest` returns it. -/
structure Request where
  method : Str
  proto : Str
  protoMajor : Nat
  protoMinor : Nat
  header : Header
  host : Str
  close : Bool
  transferEncoding : List Str
  trailer : Option Header
  body : Body
  deriving DecidableEq

/-- `Request.ProtoAtLeast`. -/
def Request.protoAtLeast (r : Request) (major minor : Nat) : Bool :=
  r.protoMajor > major || (r.protoMajor == major && r.protoMinor ≥ minor)

/-- `http.Response`, without its body. -/
structure Response where
  status : Str
  statusCode : Nat
  proto : Str
  protoMajor : Nat
  protoMinor : Nat
  header : Header
  close : Bool
  transferEncoding : List Str
  contentLength : Int
  deriving DecidableEq

/-- What a next hop sends on a connection, in the pieces that `net/http`
reads it in: the head of a response, bytes of the body that belongs to the head
before, or bytes that `http.ReadResponse` rejects with the error text `err`.
What comes after the end of a body is not `data` of that body. -/
inductive Wire where
  | head (r : Response)
  | data (bs : Str)
  | bad (err : Str)
  deriving DecidableEq

/-- `http.ReadResponse` on what is left to read of a connection. -/
def readResponse : List Wire → Except Str Response × List Wire
  | [] => (.error (str "unexpected EOF"), [])
  | .head r :: ws => (.ok r, ws)
  | .data _ :: ws => (.error (str "malformed HTTP response"), ws)
  | .bad err :: ws => (.error err, ws)

/-- The body of the head before, and what follows the body. -/
def readBody : List Wire → Str × List Wire
  | .data bs :: ws => let (rest, ws) := readBody ws; (bs ++ rest, ws)
  | ws => ([], ws)

end SP.Go
