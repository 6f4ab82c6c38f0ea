import SpnegoProxy.Impl.Heads
import SpnegoProxy.Proof.Go.Message
import SpnegoProxy.Proof.Headers

/-!
# Response heads without control octets

`readUpstreamResponse` looks at the names and values of the header. What else
of the head the client gets comes from the wire: the status line, and the
trailers that a chunked response announces.
-/

namespace SP.Proof

open SP.Go SP.Impl SP.Spec

theorem clean_iff_not_forbidden {v : Str} : Clean v ↔ hasForbiddenFieldValueByte v = false := by
  simp [Clean, isControl, hasForbiddenFieldValueByte]

/-- What `validateResponseHeaderBytes` has checked of an entry. -/
theorem of_validated {resp : Response} (h : validateResponseHeaderBytes resp = true)
    {f : Sigma fun _ : Str => List Str}
    (hf : f ∈ resp.header.fields.entries) : validHeaderFieldName f.1 = true ∧ ∀ v ∈ f.2, Clean v := by
  have hv := List.all_eq_true.mp h f hf
  rw [Bool.and_eq_true, Bool.not_eq_true', List.any_eq_false] at hv
  exact ⟨hv.1, fun v hm => clean_iff_not_forbidden.mpr (Bool.not_eq_true _ ▸ hv.2 v hm)⟩

/-- No value of the header has a control octet. -/
def CleanFields : Header → Prop := Every fun _ v => Clean v

theorem cleanFields_of_validated {resp : Response} (h : validateResponseHeaderBytes resp = true) :
    CleanFields resp.header :=
  fun _ _ hk => (of_validated h (AList.mem_lookup_iff.mp hk)).2

/-- The `Via` entry has none, if the version and the pseudonym have none. -/
theorem injectVia_clean {h : Header} {proto pseudonym : Str} (hh : CleanFields h) (hp : Clean proto)
    (hps : Clean pseudonym) : CleanFields (injectVia h proto pseudonym) := by
  have hentry : Clean (proto ++ str " " ++ pseudonym) :=
    clean_append.mpr ⟨clean_append.mpr ⟨hp, by decide⟩, hps⟩
  unfold injectVia appendHeaderValue
  split
  next hne =>
    exact Every.set hh (clean_append.mpr ⟨clean_append.mpr ⟨Every.get hh hne, by decide⟩, hentry⟩)
  next => exact Every.set hh hentry

/-- What acceptance keeps of a response, and what it makes of its header. -/
theorem acceptUpstreamResponse_ok {pseudonym : Str} {resp resp' : Response} (hps : Clean pseudonym)
    (hp : Clean resp.proto) (h : acceptUpstreamResponse pseudonym resp = .ok resp') :
    (∃ header contentLength, resp' = { resp with header := header, contentLength := contentLength }) ∧
      CleanFields resp'.header := by
  unfold acceptUpstreamResponse at h
  split at h
  next => cases h
  next =>
    split at h
    next => cases h
    next hv =>
      have hh := cleanFields_of_validated (by simpa using hv)
      dsimp only at h
      cases h
      split
      · exact ⟨⟨_, _, rfl⟩, injectVia_clean (Every.del (Every.del hh)) hp hps⟩
      · exact ⟨⟨_, _, rfl⟩, injectVia_clean (Every.del hh) hp hps⟩

/-! ## The heads that are relayed -/

/-- The status line, as the next hop sent it. -/
def statusLineOf (bs : Str) : Str := (readLines bs).headD []

/-- A `CONNECT` that the next hop granted. -/
def GrantsConnect (req : Request) (resp : Response) : Prop :=
  req.method = methodConnect ∧ 200 ≤ resp.statusCode ∧ resp.statusCode < 300

instance (req : Request) (resp : Response) : Decidable (GrantsConnect req resp) :=
  inferInstanceAs (Decidable (_ ∧ _))

/-- What a head prints of the stream beside the header has no control octets:
the status line, but for a granted `CONNECT`, and in a final response the
trailers. -/
def PrintsClean (req : Request) (bs : Str) (p : ResponseHead) : Prop :=
  if isInterimResponse p.resp then Clean (statusLineOf bs)
  else if GrantsConnect req p.resp then True
  else Clean (statusLineOf bs) ∧ ∀ n ∈ p.trailer, Clean n

instance (req : Request) (bs : Str) (p : ResponseHead) : Decidable (PrintsClean req bs p) :=
  inferInstanceAs (Decidable (if isInterimResponse p.resp then Clean (statusLineOf bs)
    else if GrantsConnect req p.resp then True else Clean (statusLineOf bs) ∧ ∀ n ∈ p.trailer, Clean n))

section

variable {bs pseudonym : Str} {p : ResponseHead} {resp : Response}

theorem ReadFrom.status_clean_iff (h : ReadFrom bs p) :
    Clean p.resp.status ↔ Clean (statusLineOf bs) := by
  obtain ⟨sp, hsp, hline⟩ := h.line
  have hblank : Clean sp := fun b hb => hsp b hb ▸ rfl
  rw [statusLineOf, List.headD_eq_head?_getD, hline, Option.getD_some, clean_append, clean_cons,
    clean_append,
    and_iff_right h.proto, and_iff_right (by decide), and_iff_right hblank]

theorem ReadFrom.status_not_lf (h : ReadFrom bs p) : 0x0A ∉ p.resp.status := by
  obtain ⟨sp, -, hline⟩ := h.line
  have hl := not_lf_of_mem_readLines (List.mem_of_mem_head? hline)
  exact fun hb => hl (by simp [hb])

theorem interimHead_clean_iff (hh : CleanFields resp.header) (hp : Clean resp.proto)
    (hs : 0x0A ∉ resp.status) : CleanHead (interimHead resp) ↔ Clean resp.status := by
  have hfields : ∀ l ∈ resp.header.writeSubset [headerContentLength, str "Transfer-Encoding",
    headerTrailer], Clean l :=
    writeSubset_clean hh
  have hpre : Clean (resp.proto ++ str " ") := clean_append.mpr ⟨hp, by decide⟩
  rw [interimHead, cleanHead_iff]
  · rw [List.forall_mem_append, List.forall_mem_singleton, clean_append, and_iff_right hpre,
    and_iff_left hfields]
  · rw [List.forall_mem_append, List.forall_mem_singleton, List.mem_append, not_or]
    exact ⟨⟨Clean.not_lf hpre, hs⟩, fun l hl => Clean.not_lf (hfields l hl)⟩

/-- `writeConnectOK` prints no part of the status line it was sent. -/
theorem connectOKHead_clean (hh : CleanFields resp.header) : CleanHead (connectOKHead resp) := by
  have htext : Clean (statusText resp.statusCode) := by
    unfold statusText
    split <;> decide
  have hlines : ∀ l ∈ [str "HTTP/" ++ itoa resp.protoMajor ++ str "." ++ itoa resp.protoMinor ++ str " " ++
      itoa resp.statusCode ++ str " " ++ statusText resp.statusCode] ++
      (if resp.header.get headerVia ≠ [] then [str "Via: " ++ resp.header.get headerVia] else []), Clean l := by
    rw [List.forall_mem_append, List.forall_mem_singleton]
    refine ⟨?_, ?_⟩
    · simp only [clean_append, clean_itoa, htext, and_true]
      decide
    · split
      next hne => simpa using clean_append.mpr ⟨(by decide : Clean (str "Via: ")), Every.get hh hne⟩
      next => simp
  exact (cleanHead_iff fun l hl => Clean.not_lf (hlines l hl)).mpr hlines

/-- The coding is printed as it was read, since only HTTP/1.1 has one. -/
theorem ReadFrom.writtenCoding (h : ReadFrom bs p) (hne : p.trailer ≠ []) {resp : Response}
    (hte : resp.transferEncoding = p.resp.transferEncoding)
    (hmajor : resp.protoMajor = p.resp.protoMajor)
    (hminor : resp.protoMinor = p.resp.protoMinor) (method : Str) :
    isChunked (resp.writtenCoding method) = true := by
  obtain ⟨hc, hp⟩ := h.chunked hne
  have hp : resp.protoAtLeast 1 1 = true :=
    by rw [← hp, Response.protoAtLeast, Response.protoAtLeast, hmajor, hminor]
  rw [Response.writtenCoding, if_neg (by simp [hp]), hte]
  exact hc

end

/-- The upstream route's response heads: whatever the upstream proxy sends,
the head of an accepted response is relayed as CRLF-terminated lines without
control octets just if what it prints of the stream beside the header has
none. -/
theorem relayed_head_clean_iff {lib : Library} {pseudonym bs h : Str} {ws : List Wire}
    {p : ResponseHead}
    {resp : Response} (hps : Clean pseudonym) (hp : readResponseHead lib bs = .ok p)
    (hr : (readUpstreamResponse pseudonym (wireOf lib bs :: ws)).1 = .ok resp) (req : Request)
    (closing : Bool)
    (hh : relayedHead req closing resp p.trailer = some h) : CleanHead h ↔ PrintsClean req bs p := by
  have hread := readResponseHead_ok hp
  have hacc : acceptUpstreamResponse pseudonym p.resp = .ok resp := by
    rw [wireOf, hp] at hr
    exact hr
  obtain ⟨⟨header, contentLength, rfl⟩, hfields⟩ := acceptUpstreamResponse_ok hps hread.proto hacc
  unfold relayedHead at hh
  unfold PrintsClean
  split at hh
  next hi =>
    have hi : isInterimResponse p.resp = true := hi
    rw [if_pos hi]
    split at hh
    next => cases hh
    next =>
      cases hh
      rw [interimHead_clean_iff hfields hread.proto hread.status_not_lf]
      exact hread.status_clean_iff
  next hi =>
    have hi : ¬ isInterimResponse p.resp = true := hi
    rw [if_neg hi]
    split at hh
    next hg =>
      have hg : GrantsConnect req p.resp := hg
      cases hh
      rw [if_pos hg]
      exact iff_true_intro (connectOKHead_clean hfields)
    next hg =>
      have hg : ¬ GrantsConnect req p.resp := hg
      cases hh
      rw [if_neg hg, ← hread.status_clean_iff]
      refine Iff.trans (writeHead_clean_iff ?_ hread.status_not_lf hread.trailer) ?_
      · exact hfields
      refine and_congr_right fun _ => ⟨fun ht n hn => ?_, fun ht _ => ht⟩
      exact ht (hread.writtenCoding (List.ne_nil_of_mem hn) rfl rfl rfl _) n hn

/-- A library that rejects nothing more, and finds neither a length nor
`Connection: close`. -/
def plainLibrary : Library where
  rejects _ := none
  badString what val := what ++ str " " ++ val
  contentLength _ := -1
  close _ := false

def relayedGet : Request := plainGet (str "example.com") ⟨∅⟩

/-- What is read of a stream, what is accepted of that, and what the client
gets for it. -/
def RelayedAs (bs : Str) (p : ResponseHead) (resp : Response) (h : Str) : Prop :=
  readResponseHead plainLibrary bs = .ok p ∧
    (readUpstreamResponse (str "p") [wireOf plainLibrary bs]).1 = .ok resp ∧
    relayedHead relayedGet false resp p.trailer = some h

def relayedFor (bs : Str) : Option (ResponseHead × Response × Str) :=
  match readResponseHead plainLibrary bs, (readUpstreamResponse (str "p") [wireOf plainLibrary bs]).1 with
  | .ok p, .ok resp => (relayedHead relayedGet false resp p.trailer).map fun h => (p, resp, h)
  | _, _ => none

theorem relayedAs_of_relayedFor {bs h : Str} {p : ResponseHead} {resp : Response}
    (hr : relayedFor bs = some (p, resp, h)) : RelayedAs bs p resp h := by
  unfold relayedFor at hr
  split at hr
  next p' resp' hp hresp =>
    obtain ⟨h', hh, he⟩ := Option.map_eq_some_iff.mp hr
    cases he
    exact ⟨hp, hresp, hh⟩
  next => cases hr

/-- A chunked response that announces trailers. -/
def chunkedStream : Str :=
  str "HTTP/1.1 200 OK\r\nTransfer-Encoding: chunked\r\nTrailer: expires, x-sum\r\nServer: a\tb\r\n\r\n"

theorem relayed_head_clean_chunked : ∃ p resp h, RelayedAs chunkedStream p resp h ∧ CleanHead h := by
  have hrun : (relayedFor chunkedStream).map (fun r => decide (PrintsClean relayedGet chunkedStream r.1)) = some true := by
    decide +kernel
  obtain ⟨⟨p, resp, h⟩, hr, hc⟩ := Option.map_eq_some_iff.mp hrun
  have hrel := relayedAs_of_relayedFor hr
  refine ⟨p, resp, h, hrel, ?_⟩
  exact (relayed_head_clean_iff (by decide) hrel.1 hrel.2.1 relayedGet false hrel.2.2).mpr (of_decide_eq_true hc)

/-- A reason phrase with a bare CR in it. -/
def splitStream : Str := str "HTTP/1.1 200 OK\rX-Evil: 1\r\n\r\n"

theorem splitStream_not_clean : ∃ p resp h, RelayedAs splitStream p resp h ∧ ¬ CleanHead h := by
  have hrun : (relayedFor splitStream).map (fun r => r.2.2) =
      some (headBytes [str "HTTP/1.1 200 OK\rX-Evil: 1", str "Connection: close",
        str "Via: HTTP/1.1 p"]) := by
    decide +kernel
  obtain ⟨⟨p, resp, h⟩, hr, rfl⟩ := Option.map_eq_some_iff.mp hrun
  refine ⟨p, resp, _, relayedAs_of_relayedFor hr, ?_⟩
  rw [cleanHead_iff (by decide)]
  decide

end SP.Proof
