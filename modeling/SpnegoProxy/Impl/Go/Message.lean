import SpnegoProxy.Impl.Go.Http
import SpnegoProxy.Impl.Go.Strconv
import Mathlib.Data.List.Sort

/-!
# Go's `net/http` package: response heads as bytes

`http.ReadResponse` up to the empty line, and what `Response.Write` and
`Header.WriteSubset` print. A head is read as the lines that LF ends, each
without one CR before it, and printed as lines that CRLF ends.

What `http.ReadResponse` does beside this is a `Library`: which streams it
also rejects, and the length and the `Close` it finds. `fixLength` may drop
or merge `Content-Length` lines, which is left out: no head prints them from
the header.
-/

namespace SP.Go

/-! ## Reading -/

/-- A line without the one CR that may end it. -/
def stripCR (l : Str) : Str := if l.getLast? = some 0x0D then l.dropLast else l

/-- The lines of a stream that LF ends. -/
def readLines (bs : Str) : List Str := (bs.splitOn 0x0A).dropLast.map stripCR

def isBlank (b : UInt8) : Bool := b = 0x20 || b = 0x09

/-- `textproto`'s `trim`. -/
def trimBlank (s : Str) : Str := ((s.dropWhile isBlank).reverse.dropWhile isBlank).reverse

/-- A byte that `textproto.TrimString` removes. -/
def isASCIISpace (b : UInt8) : Bool := isBlank b || b = 0x0A || b = 0x0D

/-- `textproto.TrimString`. -/
def trimString (s : Str) : Str :=
  ((s.dropWhile isASCIISpace).reverse.dropWhile isASCIISpace).reverse

/-- `http.ParseHTTPVersion`. -/
def parseHTTPVersion : Str → Option (Nat × Nat)
  | [0x48, 0x54, 0x54, 0x50, 0x2F, a, 0x2E, b] =>
    if isDigit a ∧ isDigit b then some (a.toNat - 0x30, b.toNat - 0x30) else none
  | _ => none

/-- What `http.ReadResponse` decides beside the head it reads. -/
structure Library where
  /-- The error of a stream that is rejected for another reason. -/
  rejects : Str → Option Str
  /-- The text of `badStringError`. -/
  badString : Str → Str → Str
  contentLength : Str → Int
  close : Str → Bool

/-- A status line, read. -/
structure StatusLine where
  proto : Str
  protoMajor : Nat
  protoMinor : Nat
  status : Str
  statusCode : Nat
  deriving DecidableEq

variable (lib : Library)

/-- The first line of a response. -/
def parseStatusLine (line : Str) : Except Str StatusLine :=
  match cutFirst 0x20 line with
  | none => .error (lib.badString (str "malformed HTTP response") line)
  | some (proto, rest) =>
    let status := rest.dropWhile (· = 0x20)
    let code := ((cutFirst 0x20 status).map Prod.fst).getD status
    match if code.length = 3 then atoi code else none with
    | none => .error (lib.badString (str "malformed HTTP status code") code)
    | some n =>
      if n < 0 then .error (lib.badString (str "malformed HTTP status code") code)
      else
        match parseHTTPVersion proto with
        | none => .error (lib.badString (str "malformed HTTP version") proto)
        | some (major, minor) =>
          .ok { proto, protoMajor := major, protoMinor := minor, status, statusCode := n.toNat }

/-- `readContinuedLineSlice` over all lines: one that begins with a blank
continues the line before. The first part is what continues a line before
them all. -/
def continuedLines : List Str → Str × List Str
  | [] => ([], [])
  | l :: ls =>
    let r := continuedLines ls
    if l.head?.any isBlank then (0x20 :: trimBlank l ++ r.1, r.2) else ([], (trimBlank l ++ r.1) :: r.2)

/-- `Header.Add`, of a name in canonical form. -/
def Header.add (h : Header) (key value : Str) : Header :=
  ⟨h.fields.insert key ((h.entry key).getD [] ++ [value])⟩

/-- One field line of a head. -/
def addField (h : Header) (line : Str) : Header :=
  match cutFirst 0x3A line with
  | none => h
  | some (k, v) => h.add (canonicalKey k) (v.dropWhile isBlank)

/-- `ReadMIMEHeader`: what continues no line, and a line without a colon, are
errors. -/
def readMIMEHeader (lines : List Str) : Except Str Header :=
  if lines.head?.any (·.head?.any isBlank) then .error (str "malformed MIME header initial line")
  else if lines.any fun l => !l.head?.any isBlank && !l.contains 0x3A then
    .error (str "malformed MIME header: missing colon")
  else .ok ((continuedLines lines).2.foldl addField ⟨∅⟩)

def hdrTransferEncoding : Str := str "Transfer-Encoding"
def hdrTrailer : Str := str "Trailer"
def hdrContentLength : Str := str "Content-Length"
def hdrPragma : Str := str "Pragma"
def hdrCacheControl : Str := str "Cache-Control"
def hdrConnection : Str := str "Connection"
def noCache : Str := str "no-cache"
def codingChunked : Str := str "chunked"

/-- `fixPragmaCacheControl`. -/
def fixPragmaCacheControl (h : Header) : Header :=
  if h.entry hdrPragma |>.any (·.head? = some noCache) then
    if (h.entry hdrCacheControl).isSome then h else h.set hdrCacheControl noCache
  else h

/-- `protoAtLeast`. -/
def StatusLine.protoAtLeast (sl : StatusLine) (major minor : Nat) : Bool :=
  sl.protoMajor > major || (sl.protoMajor == major && sl.protoMinor ≥ minor)

/-- `parseTransferEncoding`: whether the message is chunked. -/
def parseTransferEncoding (sl : StatusLine) (h : Header) : Except Str Bool :=
  match h.entry hdrTransferEncoding with
  | none => .ok false
  | some raw =>
    if !sl.protoAtLeast 1 1 then .ok false
    else
      match raw with
      | [coding] =>
        if coding.map lowerByte = codingChunked then .ok true else .error (str "unsupported transfer encoding")
      | _ => .error (str "too many transfer encodings")

/-- The names that the `Trailer` lines announce. -/
def trailerNames (lines : List Str) : List Str :=
  ((lines.flatMap fun v => (splitComma (trimString v)).map trimString).filter (· ≠ [])).map canonicalKey

/-- `fixTrailer` for a chunked message. -/
def fixTrailer (h : Header) : Except Str (List Str) :=
  let names := trailerNames ((h.entry hdrTrailer).getD [])
  match names.find? fun n => n = hdrTransferEncoding || n = hdrTrailer || n = hdrContentLength with
  | some key => .error (lib.badString (str "bad trailer key") key)
  | none => .ok names.dedup

/-- A response as `http.ReadResponse` returns it, with the names in
`resp.Trailer`. -/
structure ResponseHead where
  resp : Response
  trailer : List Str
  deriving DecidableEq

/-- `readTransfer`, of what the head says. -/
def readTransfer (bs : Str) (sl : StatusLine) (h : Header) : Except Str ResponseHead := do
  let chunked ← parseTransferEncoding sl h
  let header := h.del hdrTransferEncoding
  let resp : Response :=
    { status := sl.status, statusCode := sl.statusCode, proto := sl.proto
      protoMajor := sl.protoMajor, protoMinor := sl.protoMinor, header := header
      close := lib.close bs, transferEncoding := [], contentLength := lib.contentLength bs }
  if chunked then
    let trailer ← fixTrailer lib header
    return ⟨{ resp with header := header.del hdrTrailer, transferEncoding := [codingChunked] },
      trailer⟩
  else return ⟨resp, []⟩

/-- `http.ReadResponse`, up to the body. -/
def readResponseHead (bs : Str) : Except Str ResponseHead :=
  match lib.rejects bs, readLines bs with
  | some err, _ => .error err
  | none, [] => .error (str "unexpected EOF")
  | none, line :: lines => do
    let sl ← parseStatusLine lib line
    if lines.contains [] then
      let h ← readMIMEHeader (lines.takeWhile (· ≠ []))
      readTransfer lib bs sl (fixPragmaCacheControl h)
    else .error (str "unexpected EOF")

/-! ## Printing -/

def crlf : Str := [0x0D, 0x0A]

/-- The lines of a head and the empty line, each ended by CRLF. -/
def headBytes (lines : List Str) : Str := (lines ++ [[]]).flatMap (· ++ crlf)

/-- `headerNewlineToSpace`. -/
def newlineToSpace (v : Str) : Str := v.map fun b => if b = 0x0A ∨ b = 0x0D then 0x20 else b

/-- `httpguts.ValidHeaderFieldName`. -/
def validHeaderFieldName (name : Str) : Bool := name ≠ [] && name.all isTokenByte

/-- `Header.WriteSubset`: the names in order, without those in `exclude`; a
name that is no token is dropped. -/
def Header.writeSubset (h : Header) (exclude : List Str) : List Str :=
  let kvs := (h.fields.entries.filter fun f => !exclude.contains f.1).insertionSort fun f g => f.1 ≤ g.1
  (kvs.filter fun f => validHeaderFieldName f.1).flatMap fun f =>
    f.2.map fun v => f.1 ++ str ": " ++ trimString (newlineToSpace v)

/-- `Response.ProtoAtLeast`. -/
def Response.protoAtLeast (r : Response) (major minor : Nat) : Bool :=
  r.protoMajor > major || (r.protoMajor == major && r.protoMinor ≥ minor)

/-- `hasToken`: the token stands between blanks and commas. -/
def hasToken (v token : Str) : Bool :=
  (v.splitOnP fun b => b = 0x20 || b = 0x2C || b = 0x09).any fun w => w.map lowerByte = token

/-- `chunked`. -/
def isChunked (te : List Str) : Bool := te.head? = some codingChunked

/-- `%03d`. -/
def itoa3 (n : Nat) : Str :=
  let s := itoa n
  List.replicate (3 - s.length) 0x30 ++ s

/-- `bodyAllowedForStatus`. -/
def bodyAllowedForStatus (status : Nat) : Bool :=
  !(100 ≤ status && status ≤ 199) && status != 204 && status != 304

/-- The status line of `Response.Write`. `Status` is never empty in a response
that was read. -/
def Response.statusLine (r : Response) : Str :=
  let code := itoa r.statusCode ++ str " "
  let text := if hasPre r.status code then r.status.drop code.length else r.status
  str "HTTP/" ++ itoa r.protoMajor ++ str "." ++ itoa r.protoMinor ++ str " " ++ itoa3 r.statusCode ++
    str " " ++ text

/-- `newTransferWriter`'s `TransferEncoding`, for the method of the request. -/
def Response.writtenCoding (r : Response) (method : Str) : List Str :=
  if method ≠ str "HEAD" ∧ r.protoAtLeast 1 1 = false then [] else r.transferEncoding

/-- `shouldSendContentLength`. -/
def shouldSendContentLength (method : Str) (te : List Str) (contentLength : Int) : Bool :=
  !isChunked te && (0 < contentLength ||
    (contentLength = 0 && (method = str "POST" || method = str "PUT" || method = str "PATCH")))

/-- The lines of `transferWriter.writeHeader` on the connection and the length. -/
def Response.framingLines (r : Response) (method : Str) : List Str :=
  let te := r.writtenCoding method
  let close :=
    r.close || (r.contentLength = -1 && r.protoAtLeast 1 1 && !isChunked r.transferEncoding)
  (if close && !hasToken (r.header.get hdrConnection) (str "close") then [str "Connection: close"] else []) ++
    (if shouldSendContentLength method te r.contentLength then [str "Content-Length: " ++ itoa r.contentLength]
      else if isChunked te then [str "Transfer-Encoding: chunked"] else [])

/-- Its line that announces the trailers. -/
def trailerLine (trailer : List Str) : Str :=
  str "Trailer: " ++ [0x2C].intercalate ((trailer.map canonicalKey).insertionSort (· ≤ ·))

/-- The lines of the head that `Response.Write` prints. -/
def Response.headLines (r : Response) (method : Str) (trailer : List Str) : List Str :=
  let te := r.writtenCoding method
  [r.statusLine] ++ r.framingLines method ++
    (if isChunked te ∧ trailer ≠ [] then [trailerLine trailer] else []) ++
    r.header.writeSubset [hdrContentLength, hdrTransferEncoding, hdrTrailer] ++
    (if r.contentLength = 0 ∧ !isChunked te ∧ !shouldSendContentLength method te r.contentLength ∧
        bodyAllowedForStatus r.statusCode then [str "Content-Length: 0"] else [])

/-- The head that `Response.Write` prints for the method of the request. -/
def Response.writeHead (r : Response) (method : Str) (trailer : List Str) : Str :=
  headBytes (r.headLines method trailer)

end SP.Go
