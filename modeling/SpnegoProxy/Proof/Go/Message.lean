import SpnegoProxy.Impl.Go.Message
import SpnegoProxy.Proof.Go.Http
import SpnegoProxy.Proof.Go.Strconv
import SpnegoProxy.Spec.Heads
import Mathlib.Data.List.Dedup

/-!
# Response heads as bytes

What is read has no LF, since LF ends the lines (`readResponseHead_ok`). What
is printed has no control octets if its parts have none; and a head whose
lines have no LF has none only then, since its lines are determined by its
bytes (`cleanHead_iff`).
-/

namespace SP.Proof

open SP.Go SP.Spec

/-! ## Clean strings -/

section Clean

variable {s t : Str}

theorem clean_append : Clean (s ++ t) ↔ Clean s ∧ Clean t := List.forall_mem_append

theorem clean_cons {b : UInt8} : Clean (b :: s) ↔ isControl b = false ∧ Clean s :=
  List.forall_mem_cons

theorem Clean.of_subset (h : Clean t) (hs : s ⊆ t) : Clean s := fun b hb => h b (hs hb)

theorem Clean.not_lf (h : Clean s) : 0x0A ∉ s := fun hb => absurd (h _ hb) (by decide)

theorem Clean.not_cr (h : Clean s) : 0x0D ∉ s := fun hb => absurd (h _ hb) (by decide)

theorem clean_of_token (h : s.all isTokenByte = true) : Clean s := by
  have hb : ∀ b : UInt8, isTokenByte b = true → isControl b = false :=
    forall_byte (by decide +kernel)
  exact fun b hmem => hb b (List.all_eq_true.mp h b hmem)

theorem isControl_digit : ∀ b : UInt8, isDigit b = true → isControl b = false :=
  forall_byte (by decide +kernel)

theorem clean_of_denotes {n : Nat} (h : Denotes s n) : Clean s := fun b hb =>
  isControl_digit b (isDigit_iff.mpr (h.digits b hb))

theorem clean_itoa (n : Int) : Clean (itoa n) := by
  cases n with
  | ofNat m => exact clean_of_denotes (denotes_repr m)
  | negSucc m =>
    have h : itoa (Int.negSucc m) = str "-" ++ str (Nat.repr (m + 1)) :=
      by simp [itoa, str, toString, Int.repr]
    rw [h]
    exact clean_append.mpr ⟨by decide, clean_of_denotes (denotes_repr _)⟩

end Clean

/-! ## Lines -/

/-- A line that is followed by CRLF and has no LF is the clean line that
stands there. -/
theorem line_eq {l l' r r' : Str} (hl : 0x0A ∉ l) (hl' : Clean l')
    (h : l ++ crlf ++ r = l' ++ crlf ++ r') : l = l' ∧ r = r' := by
  simp only [crlf, List.append_assoc] at h
  rcases List.append_eq_append_iff.mp h with ⟨a, rfl, ha⟩ | ⟨a, rfl, ha⟩
  · cases a with
    | nil => simpa using ha
    | cons b a =>
      obtain ⟨rfl, -⟩ := List.cons_eq_cons.mp ha
      exact (Clean.not_cr hl' (by simp)).elim
  · -- `a` is left of `l` after `l'`: it would begin with CRLF, or be one CR
    match a with
    | [] => simpa using ha.symm
    | [b] => simp at ha
    | b :: c :: a =>
      simp only [List.cons_append, List.nil_append, List.cons.injEq] at ha
      obtain ⟨-, rfl, -⟩ := ha
      exact (hl (by simp)).elim

theorem lines_eq {ls ls' : List Str} (hl : ∀ l ∈ ls, 0x0A ∉ l) (hl' : ∀ l ∈ ls', Clean l)
    (h : ls.flatMap (· ++ crlf) = ls'.flatMap (· ++ crlf)) : ls = ls' := by
  induction ls generalizing ls' with
  | nil =>
    cases ls' with
    | nil => rfl
    | cons l' ls' => simp [crlf] at h
  | cons l ls ih =>
    cases ls' with
    | nil => simp [crlf] at h
    | cons l' ls' =>
      rw [List.forall_mem_cons] at hl hl'
      obtain ⟨rfl, hr⟩ := line_eq hl.1 hl'.1 (by simpa using h)
      rw [ih hl.2 hl'.2 hr]

/-- A head whose lines have no LF is clean just if its lines are. -/
theorem cleanHead_iff {lines : List Str} (h : ∀ l ∈ lines, 0x0A ∉ l) :
    CleanHead (headBytes lines) ↔ ∀ l ∈ lines, Clean l := by
  constructor
  · rintro ⟨ls, he, hc⟩ l hmem
    have hl : ∀ l ∈ lines ++ [[]], 0x0A ∉ l := by simpa [or_imp, forall_and] using h
    rw [← lines_eq hl hc he] at hc
    exact hc l (List.mem_append_left _ hmem)
  · intro hc
    refine ⟨lines ++ [[]], rfl, ?_⟩
    simpa [or_imp, forall_and, Clean] using hc

/-! ## What is read -/

theorem trim_subset (q : UInt8 → Bool) (s : Str) :
    ((s.dropWhile q).reverse.dropWhile q).reverse ⊆ s := by
  intro b hb
  have hb := (List.dropWhile_sublist q).subset (List.mem_reverse.mp hb)
  exact (List.dropWhile_sublist q).subset (List.mem_reverse.mp hb)

theorem not_lf_of_mem_readLines {bs l : Str} (h : l ∈ readLines bs) : 0x0A ∉ l := by
  obtain ⟨l', hl', rfl⟩ := List.mem_map.mp h
  have hn := (of_mem_splitOn ((List.dropLast_sublist _).subset hl')).1
  rw [stripCR]
  split
  · exact fun hb => hn ((List.dropLast_sublist _).subset hb)
  · exact hn

/-- Every value of the header, under its name, has the property. -/
def Every (P : Str → Str → Prop) (h : Header) : Prop :=
  ∀ k vs, h.entry k = some vs → ∀ v ∈ vs, P k v

namespace Every

variable {P : Str → Str → Prop} {h : Header} {key v : Str}

theorem insert {vs : List Str} (hh : Every P h) (hv : ∀ v ∈ vs, P key v) :
    Every P ⟨h.fields.insert key vs⟩ := by
  intro k vs' hk
  by_cases hkey : k = key
  · subst hkey
    rw [Header.entry, AList.lookup_insert] at hk
    cases hk
    exact hv
  · rw [Header.entry, AList.lookup_insert_ne hkey] at hk
    exact hh k vs' hk

theorem set (hh : Every P h) (hv : P (canonicalKey key) v) : Every P (h.set key v) :=
  hh.insert (by simpa using hv)

theorem add (hh : Every P h) (hv : P key v) : Every P (h.add key v) := by
  refine hh.insert fun v' hv' => ?_
  rcases List.mem_append.mp hv' with hv' | hv'
  · cases he : h.entry key with
    | none => rw [he] at hv'; cases hv'
    | some vs => rw [he] at hv'; exact hh key vs he v' hv'
  · exact List.mem_singleton.mp hv' ▸ hv

theorem del (hh : Every P h) : Every P (h.del key) := by
  intro k vs hk
  rw [Header.entry_del] at hk
  split at hk
  · cases hk
  · exact hh k vs hk

theorem getD (hh : Every P h) : ∀ v ∈ (h.entry key).getD [], P key v := by
  cases he : h.entry key with
  | none => simp
  | some vs => exact hh key vs he

theorem get (hh : Every P h) (hne : h.get key ≠ []) : P (canonicalKey key) (h.get key) := by
  rw [Header.get, Header.values] at hne ⊢
  cases hv : (h.entry (canonicalKey key)).getD [] with
  | nil => rw [hv] at hne; exact (hne rfl).elim
  | cons v vs => exact hh.getD v (by rw [hv]; simp)

end Every

/-- No value of the header has LF. -/
def Unbroken : Header → Prop := Every fun _ v => 0x0A ∉ v

theorem continuedLines_not_lf {ls : List Str} (h : ∀ l ∈ ls, 0x0A ∉ l) :
    0x0A ∉ (continuedLines ls).1 ∧ ∀ l ∈ (continuedLines ls).2, 0x0A ∉ l := by
  induction ls with
  | nil => simp [continuedLines]
  | cons l ls ih =>
    rw [List.forall_mem_cons] at h
    have hl : 0x0A ∉ trimBlank l := fun hb => h.1 (trim_subset _ _ hb)
    obtain ⟨h₁, h₂⟩ := ih h.2
    rw [continuedLines]
    split
    · exact ⟨by simp [hl, h₁], h₂⟩
    · exact ⟨by simp, by simpa [hl, h₁] using h₂⟩

theorem addField_unbroken {h : Header} {line : Str} (hh : Unbroken h) (hl : 0x0A ∉ line) :
    Unbroken (addField h line) := by
  unfold addField
  split
  · exact hh
  · rename_i k v hcut
    refine Every.add hh fun hb => hl ?_
    rw [(cutFirst_eq_some.mp hcut).1]
    simp [(List.dropWhile_sublist _).subset hb]

theorem foldl_addField_unbroken {lines : List Str} {h : Header} (hh : Unbroken h)
    (hl : ∀ l ∈ lines, 0x0A ∉ l) : Unbroken (lines.foldl addField h) := by
  induction lines generalizing h with
  | nil => exact hh
  | cons l lines ih =>
    rw [List.forall_mem_cons] at hl
    exact ih (addField_unbroken hh hl.1) hl.2

theorem readMIMEHeader_unbroken {lines : List Str} {h : Header} (hl : ∀ l ∈ lines, 0x0A ∉ l)
    (hr : readMIMEHeader lines = .ok h) : Unbroken h := by
  unfold readMIMEHeader at hr
  split at hr
  · cases hr
  · split at hr
    · cases hr
    · cases hr
      refine foldl_addField_unbroken (fun k vs hk => ?_) (continuedLines_not_lf hl).2
      cases hk

theorem fixPragmaCacheControl_unbroken {h : Header} (hh : Unbroken h) :
    Unbroken (fixPragmaCacheControl h) := by
  unfold fixPragmaCacheControl
  split
  · split
    · exact hh
    · exact Every.set hh (by decide)
  · exact hh

theorem canonicalKey_not_lf {n : Str} (h : 0x0A ∉ n) : 0x0A ∉ canonicalKey n := by
  unfold canonicalKey
  split
  next ht => exact Clean.not_lf (clean_of_token (canonicalBytes_token true ht))
  next => exact h

theorem trailerNames_not_lf {lines : List Str} (h : ∀ v ∈ lines, 0x0A ∉ v) :
    ∀ n ∈ trailerNames lines, 0x0A ∉ n := by
  intro n hn
  obtain ⟨m, hm, rfl⟩ := List.mem_map.mp hn
  obtain ⟨v, hv, hm⟩ := List.mem_flatMap.mp (List.mem_filter.mp hm).1
  obtain ⟨w, hw, rfl⟩ := List.mem_map.mp hm
  refine canonicalKey_not_lf fun hb => h v hv (trim_subset isASCIISpace v ?_)
  exact (of_mem_splitOn hw).2 (trim_subset _ _ hb)

/-- What is known of a head that was read. -/
structure ReadFrom (bs : Str) (p : ResponseHead) : Prop where
  /-- The status line: the version and the status, with blanks between. -/
  line : ∃ sp, (∀ b ∈ sp, b = 0x20) ∧
    (readLines bs).head? = some (p.resp.proto ++ 0x20 :: (sp ++ p.resp.status))
  proto : Clean p.resp.proto
  trailer : ∀ n ∈ p.trailer, 0x0A ∉ n
  /-- Only a chunked response of HTTP/1.1 announces trailers. -/
  chunked : p.trailer ≠ [] → isChunked p.resp.transferEncoding = true ∧
    p.resp.protoAtLeast 1 1 = true

theorem parseHTTPVersion_clean {v : Str} {n : Nat × Nat} (h : parseHTTPVersion v = some n) :
    Clean v := by
  unfold parseHTTPVersion at h
  split at h
  next a b =>
    split at h
    next hd =>
      have ha := isControl_digit a hd.1
      have hb := isControl_digit b hd.2
      simp only [clean_cons]
      exact ⟨by decide, by decide, by decide, by decide, by decide, ha, by decide, hb, fun _ h => (nomatch h)⟩
    next => cases h
  next => cases h

theorem parseStatusLine_ok {lib : Library} {line : Str} {sl : StatusLine}
    (h : parseStatusLine lib line = .ok sl) :
    Clean sl.proto ∧ ∃ sp, (∀ b ∈ sp, b = 0x20) ∧ line = sl.proto ++ 0x20 :: (sp ++ sl.status) := by
  unfold parseStatusLine at h
  split at h
  next => cases h
  next proto rest hcut =>
    dsimp only at h
    split at h
    next => cases h
    next n hn =>
      split at h
      next => cases h
      next =>
        split at h
        next => cases h
        next major minor hv =>
          cases h
          refine ⟨parseHTTPVersion_clean hv, rest.takeWhile (· = 0x20), ?_, ?_⟩
          · exact fun b hb => by simpa using List.all_eq_true.mp List.all_takeWhile b hb
          · rw [List.takeWhile_append_dropWhile]
            exact (cutFirst_eq_some.mp hcut).1

theorem parseTransferEncoding_chunked {sl : StatusLine} {h : Header}
    (hr : parseTransferEncoding sl h = .ok true) : sl.protoAtLeast 1 1 = true := by
  unfold parseTransferEncoding at hr
  split at hr
  next => cases hr
  next =>
    split at hr
    next => cases hr
    next hp => simpa using hp

theorem fixTrailer_not_lf {lib : Library} {h : Header} {names : List Str} (hh : Unbroken h)
    (hr : fixTrailer lib h = .ok names) : ∀ n ∈ names, 0x0A ∉ n := by
  unfold fixTrailer at hr
  dsimp only at hr
  split at hr
  next => cases hr
  next =>
    cases hr
    exact fun n hn => trailerNames_not_lf (Every.getD hh) n (List.mem_dedup.mp hn)

theorem readTransfer_ok {lib : Library} {bs : Str} {sl : StatusLine} {h : Header} {p : ResponseHead}
    (hh : Unbroken h) (hr : readTransfer lib bs sl h = .ok p) :
    p.resp.proto = sl.proto ∧ p.resp.status = sl.status ∧ (∀ n ∈ p.trailer, 0x0A ∉ n) ∧
      (p.trailer ≠ [] → isChunked p.resp.transferEncoding = true ∧ p.resp.protoAtLeast 1 1 = true) := by
  simp only [readTransfer, bind, Except.bind] at hr
  split at hr
  next => cases hr
  next chunked hc =>
    split at hr
    next hch =>
      split at hr
      next => cases hr
      next names hn =>
        cases hr
        have hp := parseTransferEncoding_chunked (hch ▸ hc)
        exact ⟨rfl, rfl, fixTrailer_not_lf (Every.del hh) hn, fun _ => ⟨rfl, hp⟩⟩
    next =>
      cases hr
      exact ⟨rfl, rfl, by simp, by simp⟩

theorem readResponseHead_ok {lib : Library} {bs : Str} {p : ResponseHead}
    (h : readResponseHead lib bs = .ok p) : ReadFrom bs p := by
  unfold readResponseHead at h
  split at h
  next => cases h
  next => cases h
  next line lines hl hlines =>
    have hlf : ∀ l ∈ lines, 0x0A ∉ l := by
      intro l hmem
      have hread : l ∈ readLines bs := by rw [hlines]; exact List.mem_cons_of_mem _ hmem
      exact not_lf_of_mem_readLines hread
    simp only [bind, Except.bind] at h
    split at h
    next => cases h
    next sl hsl =>
      split at h
      next =>
        split at h
        next => cases h
        next hdr hhdr =>
          have hh := readMIMEHeader_unbroken (fun l hmem => hlf l ((List.takeWhile_sublist _).subset hmem)) hhdr
          obtain ⟨hproto, hstatus, htrailer, hchunked⟩ :=
            readTransfer_ok (fixPragmaCacheControl_unbroken hh) h
          obtain ⟨hclean, sp, hsp, hline⟩ := parseStatusLine_ok hsl
          refine ⟨⟨sp, hsp, ?_⟩, hproto ▸ hclean, htrailer, hchunked⟩
          rw [hlines, hproto, hstatus, ← hline]
          rfl
      next => cases h

/-! ## What is printed -/

theorem clean_canonicalKey {n : Str} : Clean (canonicalKey n) ↔ Clean n := by
  unfold canonicalKey
  split
  next ht => exact iff_of_true (clean_of_token (canonicalBytes_token true ht)) (clean_of_token ht)
  next => exact Iff.rfl

theorem forall_mem_intercalate {P : UInt8 → Prop} {c : UInt8} (hc : P c) {ls : List Str} :
    (∀ b ∈ [c].intercalate ls, P b) ↔ ∀ l ∈ ls, ∀ b ∈ l, P b := by
  induction ls with
  | nil => simp [List.intercalate]
  | cons l ls ih =>
    cases ls with
    | nil => simp [List.intercalate]
    | cons l' ls =>
      rw [List.forall_mem_cons, ← ih]
      simp [List.intercalate, or_imp, forall_and, hc]

theorem writeSubset_clean {h : Header} {exclude : List Str} (hh : Every (fun _ v => Clean v) h) :
    ∀ l ∈ h.writeSubset exclude, Clean l := by
  intro l hl
  obtain ⟨f, hf, hl⟩ := List.mem_flatMap.mp hl
  obtain ⟨v, hv, rfl⟩ := List.mem_map.mp hl
  obtain ⟨hf, hname⟩ := List.mem_filter.mp hf
  have hmem : f ∈ h.fields.entries := (List.mem_filter.mp ((List.mem_insertionSort _).mp hf)).1
  have hclean := hh f.1 f.2 (AList.mem_lookup_iff.mpr hmem) v hv
  simp only [validHeaderFieldName, Bool.and_eq_true] at hname
  refine clean_append.mpr ⟨clean_append.mpr ⟨clean_of_token hname.2, by decide⟩, ?_⟩
  refine Clean.of_subset (fun b hb => ?_) (trim_subset _ _)
  obtain ⟨c, hc, rfl⟩ := List.mem_map.mp hb
  split
  · decide
  · exact hclean c hc

/-- The status line ends in what follows the code in `Status`. -/
theorem statusLine_parts (r : Response) :
    ∃ pre code text, Clean pre ∧ Clean code ∧ r.statusLine = pre ++ text ∧
      r.status = code ++ text := by
  have hcode : Clean (itoa r.statusCode ++ str " ") := clean_append.mpr ⟨clean_itoa _, by decide⟩
  have hcode3 : Clean (itoa3 r.statusCode) := by
    refine clean_append.mpr ⟨fun b hb => ?_, clean_itoa _⟩
    rw [List.eq_of_mem_replicate hb]
    rfl
  have hpre : Clean (str "HTTP/" ++ itoa r.protoMajor ++ str "." ++ itoa r.protoMinor ++ str " " ++
      itoa3 r.statusCode ++ str " ") := by
    simp only [clean_append, clean_itoa, hcode3, and_true]
    decide
  unfold Response.statusLine
  dsimp only
  split
  next hp =>
    obtain ⟨text, ht⟩ := List.isPrefixOf_iff_prefix.mp hp
    exact ⟨_, _, text, hpre, hcode, by rw [← ht, List.drop_left], ht.symm⟩
  next => exact ⟨_, [], r.status, hpre, by simp [Clean], rfl, rfl⟩

theorem statusLine_clean_iff (r : Response) : Clean r.statusLine ↔ Clean r.status := by
  obtain ⟨pre, code, text, hpre, hcode, hline, hstatus⟩ := statusLine_parts r
  rw [hline, hstatus, clean_append, clean_append, and_iff_right hpre, and_iff_right hcode]

theorem statusLine_not_lf {r : Response} (h : 0x0A ∉ r.status) : 0x0A ∉ r.statusLine := by
  obtain ⟨pre, code, text, hpre, hcode, hline, hstatus⟩ := statusLine_parts r
  rw [hstatus, List.mem_append, not_or] at h
  rw [hline, List.mem_append, not_or]
  exact ⟨Clean.not_lf hpre, h.2⟩

theorem forall_trailerLine {P : UInt8 → Prop} (hP : ∀ b, isControl b = false → P b)
    (trailer : List Str) :
    (∀ b ∈ trailerLine trailer, P b) ↔ ∀ n ∈ trailer, ∀ b ∈ canonicalKey n, P b := by
  have hname : ∀ b ∈ str "Trailer: ", P b :=
    fun b hb => hP b ((by decide : Clean (str "Trailer: ")) b hb)
  rw [trailerLine, List.forall_mem_append, and_iff_right hname,
    forall_mem_intercalate (hP 0x2C (by decide))]
  simp only [List.mem_insertionSort, List.forall_mem_map]

theorem framingLines_clean (r : Response) (method : Str) : ∀ l ∈ r.framingLines method, Clean l := by
  intro l hl
  rcases List.mem_append.mp hl with hl | hl
  · split at hl
    · exact List.mem_singleton.mp hl ▸ (by decide)
    · cases hl
  · split at hl
    · exact List.mem_singleton.mp hl ▸ clean_append.mpr ⟨by decide, clean_itoa _⟩
    · split at hl
      · exact List.mem_singleton.mp hl ▸ (by decide)
      · cases hl

theorem trailerLine_clean_iff {trailer : List Str} :
    Clean (trailerLine trailer) ↔ ∀ n ∈ trailer, Clean n := by
  rw [Clean, forall_trailerLine fun _ h => h]
  exact forall₂_congr fun n _ => clean_canonicalKey

theorem trailerLine_not_lf {trailer : List Str} (h : ∀ n ∈ trailer, 0x0A ∉ n) :
    0x0A ∉ trailerLine trailer := by
  have hline : ∀ b ∈ trailerLine trailer, b ≠ 0x0A := by
    refine (forall_trailerLine (fun b hb => ?_) trailer).mpr fun n hn b hb => ?_
    · rintro rfl
      exact absurd hb (by decide)
    · rintro rfl
      exact canonicalKey_not_lf (h n hn) hb
  exact fun hb => hline _ hb rfl

/-- A response whose header has no control octets is printed without them
just if its status and the trailers it announces have none. -/
theorem writeHead_clean_iff {r : Response} {method : Str} {trailer : List Str}
    (hh : Every (fun _ v => Clean v) r.header)
    (hs : 0x0A ∉ r.status) (ht : ∀ n ∈ trailer, 0x0A ∉ n) :
    CleanHead (r.writeHead method trailer) ↔
      Clean r.status ∧ (isChunked (r.writtenCoding method) = true → ∀ n ∈ trailer, Clean n) := by
  have hframing := framingLines_clean r method
  have hfields : ∀ l ∈ r.header.writeSubset [hdrContentLength, hdrTransferEncoding, hdrTrailer],
    Clean l :=
    writeSubset_clean hh
  have hzero (c : Prop) [Decidable c] : ∀ l ∈ if c then [str "Content-Length: 0"] else [], Clean l := by
    split
    · simpa using (by decide : Clean (str "Content-Length: 0"))
    · simp
  have htrailer (c : Prop) [Decidable c] : (∀ l ∈ if c then [trailerLine trailer] else [], Clean l) ↔
      (c → ∀ n ∈ trailer, Clean n) := by
    split
    next hc => rw [List.forall_mem_singleton, trailerLine_clean_iff, forall_prop_of_true hc]
    next hc => simp [hc]
  unfold Response.writeHead Response.headLines
  dsimp only
  rw [cleanHead_iff]
  · simp only [List.forall_mem_append, List.forall_mem_singleton, statusLine_clean_iff, htrailer]
    constructor
    · rintro ⟨⟨⟨⟨hstatus, -⟩, htr⟩, -⟩, -⟩
      exact ⟨hstatus, fun hc n hn => htr ⟨hc, List.ne_nil_of_mem hn⟩ n hn⟩
    · rintro ⟨hstatus, htr⟩
      exact ⟨⟨⟨⟨hstatus, hframing⟩, fun hc => htr hc.1⟩, hfields⟩, hzero _⟩
  · have htrailer' (c : Prop) [Decidable c] : ∀ l ∈ if c then [trailerLine trailer] else [], 0x0A ∉ l := by
      split
      · simpa using trailerLine_not_lf ht
      · simp
    simp only [List.forall_mem_append, List.forall_mem_singleton]
    exact ⟨⟨⟨⟨statusLine_not_lf hs, fun l hl => Clean.not_lf (hframing l hl)⟩, htrailer' _⟩,
      fun l hl => Clean.not_lf (hfields l hl)⟩, fun l hl => Clean.not_lf (hzero _ l hl)⟩

end SP.Proof
