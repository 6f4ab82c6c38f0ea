import SpnegoProxy.Impl.Heads
import SpnegoProxy.Proof.Go.Strings
import SpnegoProxy.Proof.Session.Stages

/-!
# The framing of a response for an HTTP/1.0 client

The final response goes to the client as the next hop framed it: of what was
read, `Response.Write` gets the same coding and version (`Path.final_received`).
After a response to an HTTP/1.0 client the session is over, which ends a body
of any length. So what such a client gets is framed for it in every run in
which the next hop's response is not chunked, and not otherwise
(`http10_framing_iff`).
-/

namespace SP.Proof

open SP.Go SP.Impl

/-! ## Heads -/

/-- The field name of a line. -/
def lineName (l : Str) : Option Str := (cutFirst 0x3A l).map Prod.fst

section

variable {r : Response} {method name l : Str} {trailer : List Str}

/-- A line begins with its name. -/
theorem head_of_lineName (h : lineName l = some name) (hn : name ≠ []) : l.head? = name.head? := by
  obtain ⟨⟨a, b⟩, hc, rfl⟩ := Option.map_eq_some_iff.mp h
  obtain ⟨rfl, -⟩ := cutFirst_eq_some.mp hc
  cases a with
  | nil => exact absurd rfl hn
  | cons x a => rfl

/-- The lines of the header do not have a name that is excluded. -/
theorem lineName_writeSubset {h : Header} {exclude : List Str} (hl : l ∈ h.writeSubset exclude)
    (hn : lineName l = some name) : name ∉ exclude := by
  obtain ⟨f, hf, hl⟩ := List.mem_flatMap.mp hl
  obtain ⟨v, -, rfl⟩ := List.mem_map.mp hl
  obtain ⟨hf, hvalid⟩ := List.mem_filter.mp hf
  have hex := (List.mem_filter.mp ((List.mem_insertionSort _).mp hf)).2
  have hcolon : (0x3A : UInt8) ∉ f.1 := by
    intro hm
    simp only [validHeaderFieldName, Bool.and_eq_true] at hvalid
    exact absurd (List.all_eq_true.mp hvalid.2 _ hm) (by decide)
  have hline : f.1 ++ str ": " ++ trimString (newlineToSpace v) =
      f.1 ++ 0x3A :: (0x20 :: trimString (newlineToSpace v)) := by
    rw [List.append_assoc]
    rfl
  rw [hline, lineName, cutFirst_append hcolon] at hn
  obtain rfl : f.1 = name := Option.some.inj hn
  simpa using hex

/-- Without a coding, the lines on the framing are those of the connection and the length. -/
theorem head_framingLines (hc : isChunked (r.writtenCoding method) = false)
    (hl : l ∈ r.framingLines method) : l.head? = some 0x43 := by
  simp only [Response.framingLines] at hl
  rcases List.mem_append.mp hl with hl | hl
  · split at hl
    · rw [List.mem_singleton.mp hl]
      rfl
    · cases hl
  · split at hl
    · rw [List.mem_singleton.mp hl]
      rfl
    · rw [if_neg (by simp [hc])] at hl
      cases hl

/-- Of a response that is not chunked no line has the name `Transfer-Encoding`. -/
theorem uncoded (hc : isChunked (r.writtenCoding method) = false)
    (hl : l ∈ r.headLines method trailer) : lineName l ≠ some hdrTransferEncoding := by
  intro hn
  have hhead : l.head? = some 0x54 := head_of_lineName hn (by decide)
  simp only [Response.headLines, List.mem_append] at hl
  rcases hl with (((hl | hl) | hl) | hl) | hl
  · rw [List.mem_singleton.mp hl] at hhead
    cases hhead
  · rw [head_framingLines hc hl] at hhead
    cases hhead
  · rw [if_neg (by simp [hc])] at hl
    cases hl
  · exact lineName_writeSubset hl hn (by simp)
  · split at hl
    · rw [List.mem_singleton.mp hl] at hhead
      cases hhead
    · cases hl

/-- `Transfer-Encoding` is printed for a chunked response only. -/
theorem coded_iff (r : Response) (method : Str) (trailer : List Str) :
    (∀ l ∈ r.headLines method trailer, lineName l ≠ some hdrTransferEncoding) ↔
      isChunked (r.writtenCoding method) = false := by
  refine ⟨fun h => ?_, fun hc l => uncoded hc⟩
  by_contra hc
  have hc : isChunked (r.writtenCoding method) = true := by simpa using hc
  have hs : shouldSendContentLength method (r.writtenCoding method) r.contentLength = false := by
    simp [shouldSendContentLength, hc]
  have hl : str "Transfer-Encoding: chunked" ∈ r.headLines method trailer := by
    simp [Response.headLines, Response.framingLines, hc, hs]
  exact h _ hl (by decide +kernel)

end

/-! ## HTTP/1.0 clients -/

/-- Every final response that is written is the one received last. -/
theorem Path.final_received {cfg : Config} {env : Env} {pre post : List Event} {st : Stage}
    {resp : Response} {body : Str} {err : Option Str}
    (h : Path cfg env (pre ++ .wrote (.final resp body) err :: post) st) : Received pre resp := by
  obtain ⟨st₁, st₂, -, hs, -⟩ := h.split rfl
  cases hs with
  | kept hr _ => exact hr
  | closed hr => exact hr

/-- The request that an event reads. -/
def rawOf : Event → Option Request
  | .read (.ok raw) => some raw
  | _ => none

/-- The request read last. -/
def lastRequest (tr : List Event) : Option Request := (tr.filterMap rawOf).getLast?

theorem lastRequest_of_ne {tr : List Event} {e : Event} (h : rawOf e = none) :
    lastRequest (tr ++ [e]) = lastRequest tr := by
  simp [lastRequest, h]

section

variable {cfg : Config} {env : Env} {tr : List Event}

theorem Path.lastRequest_held {raw : Request} (h : Path cfg env tr (.held raw)) :
    lastRequest tr = some raw := by
  generalize hst : Stage.held raw = st at h
  induction h with
  | start => cases hst
  | snoc _ hs ih =>
    subst hst
    cases hs with
    | read => simp [lastRequest, rawOf]
    | token | dialled => rw [lastRequest_of_ne rfl]; exact ih rfl

/-- The request that waits for its response is the one read last, but for its
header and its trailer. -/
theorem Path.lastRequest_waiting {c : ConnId} {req : Request}
    (h : Path cfg env tr (.waiting c req)) :
    ∃ raw header, lastRequest tr = some raw ∧ req = { raw with header, trailer := none } := by
  generalize hst : Stage.waiting c req = st at h
  induction h with
  | start => cases hst
  | snoc hp hs ih =>
    subst hst
    cases hs with
    | @sent raw _ _ _ _ hv ho =>
      obtain ⟨header, rfl⟩ := verdict_frame cfg hv
      rw [lastRequest_of_ne rfl]
      refine ⟨raw, req.header, hp.lastRequest_held, ?_⟩
      cases ho <;> rfl
    | payload | recv | interim => rw [lastRequest_of_ne rfl]; exact ih rfl

end

/-- The response is framed for an HTTP/1.0 client; `post` is what the session
does after it. -/
structure FramedForHTTP10 (method : Str) (resp : Response) (post : List Event) : Prop where
  uncoded : ∀ trailer, ∀ l ∈ resp.headLines method trailer, lineName l ≠ some hdrTransferEncoding
  /-- The body has a length, or ends with the connection. -/
  delimited : (∀ trailer, ∃ l ∈ resp.headLines method trailer,
    lineName l = some hdrContentLength) ∨ post = []

/-- In every run, a final response to an HTTP/1.0 request is framed for it
exactly if the next hop's response is not chunked. -/
theorem http10_framing_iff (cfg : Config) (env : Env) (n : Nat) {pre post : List Event}
    {resp : Response} {body : Str} {err : Option Str} {raw : Request}
    (ht : (run cfg env n).trace = pre ++ .wrote (.final resp body) err :: post)
    (hr : lastRequest pre = some raw) (hv : raw.protoMajor = 1 ∧ raw.protoMinor = 0) :
    ∃ c r, lastRecv pre = some (c, r) ∧
      (FramedForHTTP10 raw.method resp post ↔ isChunked (r.writtenCoding raw.method) = false) := by
  obtain ⟨st, hp, -⟩ := run_path cfg env n
  obtain ⟨c, r, close, hrecv, rfl⟩ := (ht ▸ hp).final_received
  refine ⟨c, r, hrecv, fun h => ?_, fun hc => ⟨fun trailer => ?_, .inr ?_⟩⟩
  · exact (coded_iff { r with close } raw.method []).mp (h.uncoded [])
  · exact (coded_iff { r with close } raw.method trailer).mpr hc
  · obtain ⟨st₁, st₂, hp₁, hs, hover⟩ := hp.split ht
    cases hs with
    | kept _ hk =>
      -- The session would go on only for a later version.
      obtain ⟨raw', header, hr', rfl⟩ := hp₁.lastRequest_waiting
      obtain rfl := Option.some.inj (hr.symm.trans hr')
      simp [connectionWillClose, hv] at hk
    | closed => exact (hover rfl).1

/-- A `GET` over HTTP/1.0. -/
def http10Get : Request := { plainGet (str "h") ⟨∅⟩ with proto := str "HTTP/1.0", protoMinor := 0 }

/-- The next hop answers it over HTTP/1.1, in the given framing. -/
def http10Run (transferEncoding : List Str) (contentLength : Int) : List Event :=
  (run plainConfig (scripted [http10Get] (str "dG9r")
    [.head { plainResponse 200 with transferEncoding, contentLength }, .data (str "abc")]) 2).trace

theorem http10_framing_iff_length :
    ∃ resp body err, finalAt (http10Run [] 3) 5 = some (resp, body, err) ∧
    lastRequest ((http10Run [] 3).take 5) = some http10Get ∧
    FramedForHTTP10 http10Get.method resp ((http10Run [] 3).drop 6) := by
  have hf : (finalAt (http10Run [] 3) 5).isSome = true := by decide +kernel
  have hr : lastRequest ((http10Run [] 3).take 5) = some http10Get := rfl
  have hc : (lastRecv ((http10Run [] 3).take 5)).map (fun x => isChunked (x.2.writtenCoding http10Get.method)) =
      some false := by decide +kernel
  obtain ⟨⟨resp, body, err⟩, hf⟩ := Option.isSome_iff_exists.mp hf
  obtain ⟨c, r, hrecv, hiff⟩ := http10_framing_iff _ _ _ (split_of_finalAt hf) hr ⟨rfl, rfl⟩
  have hrecv : lastRecv ((http10Run [] 3).take 5) = some (c, r) := hrecv
  rw [hrecv] at hc
  exact ⟨resp, body, err, hf, hr, hiff.mpr (Option.some.inj hc)⟩

/-- The next hop's chunks go to the HTTP/1.0 client as chunks. -/
theorem http10Get_chunked :
    ∃ resp body err, finalAt (http10Run [codingChunked] (-1)) 5 = some (resp, body, err) ∧
    lastRequest ((http10Run [codingChunked] (-1)).take 5) = some http10Get ∧
    ¬ FramedForHTTP10 http10Get.method resp ((http10Run [codingChunked] (-1)).drop 6) := by
  have hf : (finalAt (http10Run [codingChunked] (-1)) 5).map (fun x => isChunked (x.1.writtenCoding http10Get.method)) =
      some true := by decide +kernel
  have hr : lastRequest ((http10Run [codingChunked] (-1)).take 5) = some http10Get := rfl
  obtain ⟨⟨resp, body, err⟩, hf, hc⟩ := Option.map_eq_some_iff.mp hf
  refine ⟨resp, body, err, hf, hr, fun h => ?_⟩
  have hn := (coded_iff _ _ []).mp (h.uncoded [])
  rw [hc] at hn
  cases hn

end SP.Proof
