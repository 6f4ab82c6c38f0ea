import SpnegoProxy.Proof.Heads
import SpnegoProxy.Spec.Response
import Mathlib.Data.List.DropRight
import Mathlib.Logic.Relation

/-!
# Lengths and interim responses

`validateResponseContentLength` accepts the lines whose members all denote one
number (`contentLength_accepts_iff`), in whatever lines they are written.

The bytes that `validateResponseHeaderBytes` lets pass end no line and no name
before its colon, so what `relayInterimResponse` writes is read back as the
fields that were written (`interim_roundtrip`).
-/

namespace SP.Proof

open SP.Go SP.Impl SP.Spec

/-! ## Lengths -/

theorem sameLengths_some {m : Nat} {parts : List Str} :
    sameLengths (some m) parts = true ↔ ∀ p ∈ parts, parseUint p = some m := by
  induction parts with
  | nil => simp [sameLengths]
  | cons p parts ih =>
    rw [List.forall_mem_cons, ← ih, sameLengths]
    cases parseUint p with
    | none => simp
    | some n => simp only [Bool.and_eq_true, beq_iff_eq, Option.some.injEq]

theorem sameLengths_none {parts : List Str} :
    sameLengths none parts = true ↔ ∃ n < 2 ^ 64, ∀ p ∈ parts, parseUint p = some n := by
  cases parts with
  | nil => exact ⟨fun _ => ⟨0, by decide, fun p hp => (nomatch hp)⟩, fun _ => rfl⟩
  | cons p parts =>
    simp only [List.forall_mem_cons, sameLengths]
    cases hp : parseUint p with
    | none => simp
    | some m =>
      simp only [sameLengths_some]
      constructor
      · exact fun h => ⟨m, (parseUint_iff.mp hp).2, rfl, h⟩
      · rintro ⟨n, -, hn, h⟩
        cases hn
        exact h

/-- The `Content-Length` lines of a response. -/
def lengthLines (resp : Response) : List Str := (resp.header.entry headerContentLength).getD []

theorem accepts_iff {resp : Response} :
    validateResponseContentLength resp = true ↔ ∃ n < 2 ^ 64, AllDenote (lengthLines resp) n := by
  rw [validateResponseContentLength, sameLengths_none]
  refine exists_congr fun n => and_congr_right fun hn => ?_
  simp only [List.mem_filter, List.mem_flatMap, List.mem_map, decide_eq_true_eq, parseUint_iff, hn,
    and_true, AllDenote,
    lengthLines]
  constructor
  · exact fun h line hl part hp hne => h _ ⟨⟨line, hl, part, hp, rfl⟩, hne⟩
  · rintro h _ ⟨⟨line, hl, part, hp, rfl⟩, hne⟩
    exact h line hl part hp hne

theorem allDenote_cons {x : Str} {l : List Str} {n : Nat} : AllDenote (x :: l) n ↔
    (∀ part ∈ splitComma x, trimSpace part ≠ [] → Denotes (trimSpace part) n) ∧ AllDenote l n :=
  List.forall_mem_cons

/-- A line with one member. -/
theorem allDenote_part {x : Str} (hx : 0x2C ∉ x) {l : List Str} {n : Nat} : AllDenote (x :: l) n ↔
    (trimSpace x ≠ [] → Denotes (trimSpace x) n) ∧ AllDenote l n := by
  rw [allDenote_cons, splitComma, List.splitOn_eq_singleton hx, List.forall_mem_singleton]

theorem not_comma_of_denotes {x : Str} {n : Nat} (h : Denotes x n) : 0x2C ∉ x :=
  fun hm => absurd (h.digits _ hm) (by decide)

theorem allDenote_regroup {l l' : List Str} (h : Regroup l l') {n : Nat} :
    AllDenote l n ↔ AllDenote l' n := by
  cases h with
  | perm hp => simp only [AllDenote, hp.mem_iff]
  | @join x y l =>
    have hsep : x ++ str "," ++ y = x ++ 0x2C :: y := List.append_assoc ..
    rw [allDenote_cons, allDenote_cons, allDenote_cons, hsep, splitComma_append,
      List.forall_mem_append, and_assoc]
  | dup => rw [allDenote_cons, allDenote_cons, allDenote_cons, and_self_left]
  | space hx hy hs => rw [allDenote_part hx, allDenote_part hy, hs]
  | @zeros x m k l hd =>
    have hd' := denotes_zeros hd k
    rw [allDenote_part (not_comma_of_denotes hd), allDenote_part (not_comma_of_denotes hd'),
      trimSpace_of_denotes hd,
      trimSpace_of_denotes hd']
    have hsame : Denotes x n ↔ Denotes (List.replicate k 0x30 ++ x) n :=
      ⟨fun h => denotes_zeros h k, fun h => denotes_unique hd' h ▸ hd⟩
    simp only [hd.nonempty, hd'.nonempty, ne_eq, not_false_iff, true_imp_iff, hsame]

/-- The lengths are accepted exactly when they all denote one number below
`2 ^ 64`, so the verdict does not depend on how the list is written. -/
theorem contentLength_accepts_iff (resp : Response) :
    (validateResponseContentLength resp = true ↔ ∃ n < 2 ^ 64, AllDenote (lengthLines resp) n) ∧
    (∀ resp' : Response, Relation.EqvGen Regroup (lengthLines resp) (lengthLines resp') →
      validateResponseContentLength resp' = validateResponseContentLength resp) ∧
    (∀ line ∈ lengthLines resp, ∀ part ∈ splitComma line, ∀ m, Denotes (trimSpace part) m → 2 ^ 64 ≤ m →
      validateResponseContentLength resp = false) := by
  refine ⟨accepts_iff, fun resp' hr => ?_, fun line hl part hp m hd hm => ?_⟩
  · have hsame : ∀ n, AllDenote (lengthLines resp) n ↔ AllDenote (lengthLines resp') n := by
      intro n
      generalize lengthLines resp = l at hr
      generalize lengthLines resp' = l' at hr
      induction hr with
      | rel _ _ h => exact allDenote_regroup h
      | refl => exact Iff.rfl
      | symm _ _ _ ih => exact ih.symm
      | trans _ _ _ _ _ ih₁ ih₂ => exact ih₁.trans ih₂
    rw [Bool.eq_iff_iff, accepts_iff, accepts_iff]
    simp only [hsame]
  · rw [Bool.eq_false_iff, Ne, accepts_iff]
    rintro ⟨n, hn, hall⟩
    have hnm := denotes_unique (hall line hl part hp hd.nonempty) hd
    omega

/-! ## Heads -/

theorem splitCRLF_cons {b : UInt8} (hb : b ≠ 0x0D) {s l : Str} {ls : List Str}
    (hs : splitCRLF s = l :: ls) : splitCRLF (b :: s) = (b :: l) :: ls := by
  rw [splitCRLF, hs]
  intro t h
  exact absurd h hb

/-- A line without CR is the part before the CRLF that ends it. -/
theorem splitCRLF_line {l : Str} (hl : 0x0D ∉ l) (s : Str) :
    splitCRLF (l ++ crlf ++ s) = l :: splitCRLF s := by
  induction l with
  | nil => rfl
  | cons b l ih =>
    obtain ⟨hb, hl⟩ := not_or.mp (mt List.mem_cons.mpr hl)
    exact splitCRLF_cons (Ne.symm hb) (ih hl)

theorem splitCRLF_lines {lines : List Str} (h : ∀ l ∈ lines, 0x0D ∉ l) :
    splitCRLF (lines.flatMap (· ++ crlf)) = lines ++ [[]] := by
  induction lines with
  | nil => rfl
  | cons l lines ih =>
    obtain ⟨hl, hlines⟩ := List.forall_mem_cons.mp h
    rw [List.flatMap_cons, splitCRLF_line hl, ih hlines]
    rfl

/-- What is read of a head that was printed line by line. -/
theorem parseHead_headBytes {line : Str} {lines : List Str} (h : ∀ l ∈ line :: lines, 0x0D ∉ l)
    (hne : ∀ l ∈ lines, l ≠ []) :
    parseHead (headBytes (line :: lines)) = (lines.mapM parseField).map fun fields => ⟨line, fields, []⟩ := by
  have hall : ∀ l ∈ line :: lines ++ [[]], 0x0D ∉ l := by
    rw [List.forall_mem_append]
    exact ⟨h, by simp⟩
  have hsplit : splitCRLF (headBytes (line :: lines)) = line :: (lines ++ [[], []]) := by
    rw [headBytes, splitCRLF_lines hall, List.cons_append, List.cons_append, List.append_assoc]
    rfl
  have htake : ∀ l ∈ lines, decide (l ≠ []) = true := fun l hl => decide_eq_true (hne l hl)
  simp only [parseHead, hsplit, List.dropWhile_append_of_pos htake,
    List.takeWhile_append_of_pos htake]
  show ((lines ++ []).mapM parseField).map _ = _
  rw [List.append_nil]
  rfl

section Trim

variable {q : UInt8 → Bool} {s : Str}

theorem dropWhile_of_none (h : ∀ b ∈ s, q b = false) : s.dropWhile q = s := by
  cases s with
  | nil => rfl
  | cons b s => exact List.dropWhile_cons_of_neg (by simp [h b (List.mem_cons_self ..)])

theorem trimBlank_of_none (h : ∀ b ∈ s, isBlank b = false) : trimBlank s = s := by
  have hrev : ∀ b ∈ s.reverse, isBlank b = false := fun b hb => h b (List.mem_reverse.mp hb)
  rw [trimBlank, dropWhile_of_none h, dropWhile_of_none hrev, List.reverse_reverse]

/-- There is nothing to drop before a string that was trimmed. -/
theorem dropWhile_trimBlank (s : Str) : (trimBlank s).dropWhile isBlank = trimBlank s := by
  have hpre : trimBlank s <+: s.dropWhile isBlank := by
    rw [trimBlank, ← List.reverse_suffix, List.reverse_reverse]
    exact List.dropWhile_suffix _
  obtain ⟨r, hr⟩ := hpre
  cases ht : trimBlank s with
  | nil => rfl
  | cons b t =>
    rw [ht, List.cons_append] at hr
    have hb := List.head?_dropWhile_not isBlank s
    rw [← hr] at hb
    exact List.dropWhile_cons_of_neg (Bool.eq_false_iff.mp hb)

theorem trimBlank_idem (s : Str) : trimBlank (trimBlank s) = trimBlank s := by
  rw [trimBlank, dropWhile_trimBlank, trimBlank, List.reverse_reverse, List.dropWhile_idempotent]

theorem trimBlank_cons (s : Str) : trimBlank (0x20 :: s) = trimBlank s := rfl

theorem dropWhile_congr {p : UInt8 → Bool} (h : ∀ b ∈ s, p b = q b) :
    s.dropWhile p = s.dropWhile q := by
  induction s with
  | nil => rfl
  | cons b s ih =>
    obtain ⟨hb, hs⟩ := List.forall_mem_cons.mp h
    rw [List.dropWhile_cons, List.dropWhile_cons, hb, ih hs]

/-- A value without CR and LF is printed without the blanks around it. -/
theorem trimString_of_clean (h : Clean s) : trimString (newlineToSpace s) = trimBlank s := by
  have hnl : ∀ b ∈ s, b ≠ 0x0A ∧ b ≠ 0x0D := by
    intro b hb
    constructor
    · rintro rfl; exact absurd (h _ hb) (by decide)
    · rintro rfl; exact absurd (h _ hb) (by decide)
  have hsame : newlineToSpace s = s := by
    refine (List.map_congr_left fun b hb => ?_).trans (List.map_id s)
    rw [if_neg fun he => he.elim (hnl b hb).1 (hnl b hb).2]
    rfl
  have hblank : ∀ {t : Str}, t ⊆ s → t.dropWhile isASCIISpace = t.dropWhile isBlank := by
    intro t ht
    refine dropWhile_congr fun b hb => ?_
    simp [isASCIISpace, hnl b (ht hb)]
  rw [hsame, trimString, trimBlank, hblank (List.Subset.refl s), hblank]
  intro b hb
  exact List.dropWhile_suffix _ |>.subset (List.mem_reverse.mp hb)

end Trim

theorem parseField_line {name v : Str} (hn : name.all isTokenByte = true) :
    parseField (name ++ str ": " ++ trimBlank v) = some (name, trimBlank v) := by
  have hcolon : 0x3A ∉ name := fun hm => absurd (List.all_eq_true.mp hn _ hm) (by decide)
  have hblank : ∀ b ∈ name, isBlank b = false := by
    have htoken : ∀ b : UInt8, isTokenByte b = true → isBlank b = false :=
      forall_byte (by decide +kernel)
    exact fun b hb => htoken b (List.all_eq_true.mp hn b hb)
  have hline : name ++ str ": " ++ trimBlank v = name ++ 0x3A :: 0x20 :: trimBlank v :=
    List.append_assoc ..
  rw [parseField, hline, cutFirst_append hcolon, Option.map_some, trimBlank_of_none hblank,
    trimBlank_cons, trimBlank_idem]

/-- The entries that are written, in their order. -/
def writtenFields (h : Header) (exclude : List Str) : List (Sigma fun _ : Str => List Str) :=
  (h.fields.entries.filter fun f => !exclude.contains f.1).insertionSort fun f g => f.1 ≤ g.1

theorem mem_writtenFields {h : Header} {exclude : List Str} {f : Sigma fun _ : Str => List Str} :
    f ∈ writtenFields h exclude ↔ f ∈ h.fields.entries ∧ f.1 ∉ exclude := by
  rw [writtenFields, List.mem_insertionSort, List.mem_filter, Bool.not_eq_true',
    ← Bool.not_eq_true, List.contains_iff_mem]

/-- A name and its value for each line that is written. -/
def fieldPairs (fs : List (Sigma fun _ : Str => List Str)) : List (Str × Str) :=
  fs.flatMap fun f => f.2.map fun v => (f.1, trimBlank v)

theorem writeSubset_eq {resp : Response} (h : validateResponseHeaderBytes resp = true)
    (exclude : List Str) : resp.header.writeSubset exclude =
      (fieldPairs (writtenFields resp.header exclude)).map fun p => p.1 ++ str ": " ++ p.2 := by
  have hvalid : ∀ f ∈ writtenFields resp.header exclude, validHeaderFieldName f.1 = true ∧
    ∀ v ∈ f.2, Clean v :=
    fun f hf => of_validated h (mem_writtenFields.mp hf).1
  have hall : (writtenFields resp.header exclude).filter (fun f => validHeaderFieldName f.1) =
      writtenFields resp.header exclude := List.filter_eq_self.mpr fun f hf => (hvalid f hf).1
  show ((writtenFields resp.header exclude).filter fun f => validHeaderFieldName f.1).flatMap _ = _
  rw [hall, fieldPairs, List.map_flatMap]
  refine List.flatMap_congr fun f hf => ?_
  rw [List.map_map]
  refine List.map_congr_left fun v hv => ?_
  rw [trimString_of_clean ((hvalid f hf).2 v hv)]
  rfl

/-- Each name is written once with its values. -/
theorem dlookup_writtenFields (h : Header) (exclude : List Str) (name : Str) :
    (writtenFields h exclude).NodupKeys ∧
    (writtenFields h exclude).dlookup name = if name ∈ exclude then none else h.entry name := by
  have hnodup : (writtenFields h exclude).NodupKeys := by
    rw [writtenFields, List.perm_nodupKeys (List.perm_insertionSort _ _)]
    exact h.fields.nodupKeys.sublist (List.filter_sublist)
  refine ⟨hnodup, Option.ext fun vs => ?_⟩
  rw [← Option.mem_def, List.mem_dlookup_iff hnodup, mem_writtenFields]
  split_ifs with hx
  · exact ⟨fun hm => absurd hx hm.2, nofun⟩
  · rw [and_iff_left hx, ← AList.mem_lookup_iff]
    rfl

/-- The values of a name that are written. -/
theorem fieldPairs_values (h : Header) (exclude : List Str) (name : Str) :
    ((fieldPairs (writtenFields h exclude)).filter (·.1 = name)).map Prod.snd =
      if name ∈ exclude then [] else ((h.entry name).getD []).map trimBlank := by
  obtain ⟨hnodup, hlookup⟩ := dlookup_writtenFields h exclude name
  have hkey : ∀ f : Sigma fun _ : Str => List Str,
      ((f.2.map fun v => (f.1, trimBlank v)).filter (·.1 = name)).map Prod.snd =
        (if f.1 = name then f.2 else []).map trimBlank := by
    intro f
    by_cases hf : f.1 = name
    · simp [List.filter_map, Function.comp_def, hf]
    · simp [List.filter_map, Function.comp_def, hf]
  rw [fieldPairs, List.filter_flatMap, List.map_flatMap]
  simp only [hkey]
  rw [← List.map_flatMap, Header.flatMap_key hnodup, hlookup]
  split_ifs <;> rfl

/-- The line of a field that is written has no CR, and is read as the field. -/
theorem fieldLine_ok {resp : Response} (h : validateResponseHeaderBytes resp = true)
    {exclude : List Str} {p : Str × Str} (hp : p ∈ fieldPairs (writtenFields resp.header exclude)) :
    0x0D ∉ p.1 ++ str ": " ++ p.2 ∧ parseField (p.1 ++ str ": " ++ p.2) = some p := by
  obtain ⟨f, hf, hm⟩ := List.mem_flatMap.mp hp
  obtain ⟨v, hv, rfl⟩ := List.mem_map.mp hm
  obtain ⟨hname, hclean⟩ := of_validated h (mem_writtenFields.mp hf).1
  rw [validHeaderFieldName, Bool.and_eq_true] at hname
  have hline : Clean (f.1 ++ str ": " ++ trimBlank v) :=
    clean_append.mpr ⟨clean_append.mpr ⟨clean_of_token hname.2,
      by decide⟩, Clean.of_subset (hclean v hv) (trim_subset _ v)⟩
  exact ⟨Clean.not_cr hline, parseField_line hname.2⟩

/-- The fields that `relayInterimResponse` leaves out. -/
def framingFields : List Str := [headerContentLength, str "Transfer-Encoding", headerTrailer]

/-- An interim response is read by the client as it was: the status line, the
values of each field in order but of those that frame a body, and nothing
behind the head. -/
theorem interim_roundtrip {resp : Response} (hi : isInterimResponse resp = true) {req : Request}
    (hr : req.protoAtLeast 1 1 = true) (hv : validateResponseHeaderBytes resp = true)
    (hcr : 0x0D ∉ resp.proto ++ str " " ++ resp.status) (closing : Bool) (trailer : List Str) :
    ∃ bs head, relayedHead req closing resp trailer = some bs ∧ parseHead bs = some head ∧
      head.statusLine = resp.proto ++ str " " ++ resp.status ∧ head.rest = [] ∧
      ∀ name, head.values name =
        if name ∈ framingFields then [] else ((resp.header.entry name).getD []).map trimBlank := by
  have hbytes : relayedHead req closing resp trailer = some (interimHead resp) := by
    simp [relayedHead, hi, clientCannotParseInterim, hr]
  have hwritten := writeSubset_eq hv framingFields
  have hfield : ∀ p ∈ fieldPairs (writtenFields resp.header framingFields),
    0x0D ∉ p.1 ++ str ": " ++ p.2 ∧
      parseField (p.1 ++ str ": " ++ p.2) = some p := fun p hp => fieldLine_ok hv hp
  have hvalues := fieldPairs_values resp.header framingFields
  generalize fieldPairs _ = pairs at hwritten hfield hvalues
  have hparse : (resp.header.writeSubset framingFields).mapM parseField = some pairs := by
    rw [hwritten, mapM_eq_some_iff, List.map_map]
    exact List.map_congr_left fun p hp => (hfield p hp).2
  have hne : ∀ p ∈ pairs, p.1 ++ str ": " ++ p.2 ≠ [] := by
    intro p hp he
    have hread := (hfield p hp).2
    rw [he] at hread
    cases hread
  refine ⟨_, ⟨resp.proto ++ str " " ++ resp.status, pairs, []⟩, hbytes, ?_, rfl, rfl, hvalues⟩
  show parseHead (headBytes (_ :: resp.header.writeSubset framingFields)) = _
  rw [parseHead_headBytes, hparse]
  · rfl
  · rw [List.forall_mem_cons, hwritten]
    exact ⟨hcr, List.forall_mem_map.mpr fun p hp => (hfield p hp).1⟩
  · rw [hwritten]
    exact List.forall_mem_map.mpr hne

/-- Early hints, with a colon and blanks in a value, and a length. -/
def earlyHints : Response where
  status := str "103 Early Hints"
  statusCode := 103
  proto := str "HTTP/1.1"
  protoMajor := 1
  protoMinor := 1
  header := (Header.set ⟨∅⟩ (str "Link") (str " <https://a.example/>; rel=preload")).set headerContentLength (str "5")
  close := false
  transferEncoding := []
  contentLength := 0

theorem interim_roundtrip_earlyHints :
    ∃ bs head, relayedHead relayedGet false earlyHints [] = some bs ∧
    parseHead bs = some head ∧ head.statusLine = str "HTTP/1.1 103 Early Hints" ∧ head.rest = [] ∧
    head.values (str "Link") = [str "<https://a.example/>; rel=preload"] ∧
      head.values headerContentLength = [] := by
  obtain ⟨bs, head, hbs, hhead, hline, hrest, hvalues⟩ :=
    @interim_roundtrip earlyHints (by decide) relayedGet
    (by decide) (by decide) (by decide) false []
  refine ⟨bs, head, hbs, hhead, hline, hrest, ?_, ?_⟩
  · rw [hvalues]
    decide
  · rw [hvalues]
    decide

end SP.Proof
