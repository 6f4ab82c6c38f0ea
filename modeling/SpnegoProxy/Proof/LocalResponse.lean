import SpnegoProxy.Proof.Response
import SpnegoProxy.Proof.Session.Lifecycle
import SpnegoProxy.Proof.Session.Responses
import SpnegoProxy.Spec.LocalResponse

/-!
# Local responses are read as they were meant

`parseHead_writeLocal` is about any response that the proxy makes itself; the
predefined errors have the form that the reading of an error needs
(`wellFormed_of_mem`).
-/

namespace SP.Proof

open SP.Go SP.Impl SP.Spec

/-! ## Heads with a body -/

theorem splitCRLF_lines_append {lines : List Str} (h : ∀ l ∈ lines, 0x0D ∉ l) (s : Str) :
    splitCRLF (lines.flatMap (· ++ crlf) ++ s) = lines ++ splitCRLF s := by
  induction lines with
  | nil => rfl
  | cons l lines ih =>
    obtain ⟨hl, hlines⟩ := List.forall_mem_cons.mp h
    rw [List.flatMap_cons, List.append_assoc, splitCRLF_line hl, ih hlines]
    rfl

theorem splitCRLF_ne_nil (s : Str) : splitCRLF s ≠ [] := by
  intro h
  unfold splitCRLF at h
  split at h
  · cases h
  · split at h <;> cases h
  · cases h

/-- Nothing is lost between the CRLFs. -/
theorem intercalate_splitCRLF (s : Str) : crlf.intercalate (splitCRLF s) = s := by
  induction s using splitCRLF.induct with
  | case1 s ih =>
    rw [splitCRLF, List.intercalate_cons_of_ne_nil (splitCRLF_ne_nil s), ih]
    rfl
  | case2 b s hb l ls hs ih =>
    have hsplit : splitCRLF (b :: s) = (b :: l) :: ls := by
      rw [splitCRLF, hs]
      exact hb
    rw [hsplit]
    rw [hs] at ih
    cases ls with
    | nil => rw [List.intercalate_singleton] at ih ⊢; rw [ih]
    | cons l' ls =>
      rw [List.intercalate_cons_cons] at ih ⊢
      rw [← ih]
      rfl
  | case3 b s hb hs => exact absurd hs (splitCRLF_ne_nil s)
  | case4 => rfl

/-- What is read of a head that was printed line by line, and of what follows it. -/
theorem parseHead_append {line : Str} {lines : List Str} (h : ∀ l ∈ line :: lines, 0x0D ∉ l)
    (hne : ∀ l ∈ lines, l ≠ []) (body : Str) :
    parseHead (headBytes (line :: lines) ++ body) =
      (lines.mapM parseField).map fun fields => ⟨line, fields, body⟩ := by
  have hall : ∀ l ∈ line :: lines ++ [[]], 0x0D ∉ l := by
    rw [List.forall_mem_append]
    exact ⟨h, by simp⟩
  have hsplit : splitCRLF (headBytes (line :: lines) ++ body) = line :: (lines ++ [] :: splitCRLF body) := by
    rw [headBytes, splitCRLF_lines_append hall, List.cons_append, List.cons_append,
      List.append_assoc]
    rfl
  have htake : ∀ l ∈ lines, decide (l ≠ []) = true := fun l hl => decide_eq_true (hne l hl)
  simp only [parseHead, hsplit, List.dropWhile_append_of_pos htake,
    List.takeWhile_append_of_pos htake]
  show ((lines ++ []).mapM parseField).map (fun fields => (⟨line, fields, crlf.intercalate (splitCRLF body)⟩ : Head)) = _
  rw [List.append_nil, intercalate_splitCRLF]

/-! ## Responses of the proxy -/

/-- The codes of local responses. -/
def localCodes : List Nat := [200, 400, 403, 502, 504]

/-- The status line of a local response. -/
def localLine (code : Nat) : Str := str "HTTP/1.1 " ++ itoa code ++ str " " ++ localStatusText code

theorem localLine_ok {code : Nat} (h : code ∈ localCodes) :
    0x0D ∉ localLine code ∧ readCode (localLine code) = some code := by
  revert code
  decide

/-- A response that the proxy makes itself, with a body of `n` bytes. -/
structure Composed (r : Response) (n : Nat) : Prop where
  proto : r.protoMajor = 1 ∧ r.protoMinor = 1
  code : r.statusCode ∈ localCodes
  header : validateResponseHeaderBytes r = true
  plain : r.close = false ∧ r.transferEncoding = []
  length : r.contentLength = n

theorem Composed.statusLine {r : Response} {n : Nat} (h : Composed r n) :
    { r with status := writtenText r.statusCode }.statusLine = localLine r.statusCode := by
  have hline : ∀ code ∈ localCodes,
    ({ r with statusCode := code, status := writtenText code }).statusLine = localLine code := by
    intro code hcode
    simp only [Response.statusLine, h.proto.1, h.proto.2]
    revert code
    decide
  exact hline r.statusCode h.code

/-- The line that announces the length of a body. -/
def lengthLine (n : Nat) : Str := headerContentLength ++ str ": " ++ itoa n

theorem trimBlank_itoa (n : Nat) : trimBlank (itoa n) = itoa n := by
  have hdigit : ∀ b : UInt8, isDigit b = true → isBlank b = false := forall_byte (by decide +kernel)
  refine trimBlank_of_none fun b hb => hdigit b ?_
  exact isDigit_iff.mpr ((denotes_itoa n).digits b hb)

theorem lengthLine_ok (n : Nat) :
    0x0D ∉ lengthLine n ∧ parseField (lengthLine n) = some (headerContentLength, itoa n) := by
  constructor
  · exact Clean.not_cr (clean_append.mpr ⟨by decide, clean_itoa n⟩)
  · have hread : parseField (headerContentLength ++ str ": " ++ trimBlank (itoa n)) = _ :=
    parseField_line (by decide)
    rwa [trimBlank_itoa] at hread

/-- The lines on the length and the connection. -/
theorem Composed.framingLines {r : Response} {n : Nat} (h : Composed r n) (status : Str) :
    ({ r with status := status }).framingLines [] = if n = 0 then [] else [lengthLine n] := by
  have hne : (n : Int) ≠ -1 := by omega
  simp only [Response.framingLines, Response.writtenCoding, h.plain.1, h.plain.2, h.length,
    ite_self, hne, decide_false,
    Bool.false_and, Bool.or_false, Bool.false_eq_true, if_false, List.nil_append]
  by_cases hn : n = 0
  · subst hn
    rfl
  · have hsend : shouldSendContentLength [] [] n = true := by
      simp only [shouldSendContentLength, Bool.and_eq_true, Bool.or_eq_true, decide_eq_true_eq]
      exact ⟨rfl, .inl (by omega)⟩
    rw [if_pos hsend, if_neg hn]
    rfl

/-- The lines of a local response: the length stands before the other fields,
or after them if it is zero. -/
theorem Composed.writeLocal_eq {r : Response} {body : Str} (h : Composed r body.length) :
    writeLocal r body = headBytes (localLine r.statusCode ::
      if body.length = 0 then r.header.writeSubset framingFields ++ [lengthLine 0]
      else lengthLine body.length :: r.header.writeSubset framingFields) ++ body := by
  have hallowed : ∀ code ∈ localCodes, bodyAllowedForStatus code = true := by decide
  have hte : ({ r with status := writtenText r.statusCode }).writtenCoding [] = [] := by
    simp only [Response.writtenCoding, h.plain.2, ite_self]
  have hlast : (if ((body.length : Nat) : Int) = 0 ∧ !isChunked [] ∧ !shouldSendContentLength [] [] body.length ∧
      bodyAllowedForStatus r.statusCode then [str "Content-Length: 0"] else []) =
        if body.length = 0 then [lengthLine 0] else [] := by
    by_cases hn : body.length = 0
    · rw [if_pos hn, hn, if_pos ⟨rfl, rfl, rfl, hallowed _ h.code⟩]
      rfl
    · rw [if_neg hn, if_neg fun hz => hn (by omega)]
  rw [writeLocal, Response.writeHead, Response.headLines, hte, h.statusLine, h.framingLines]
  congr 2
  rw [show ({ r with status := writtenText r.statusCode } : Response).contentLength = (body.length : Nat) from h.length]
  simp only [hlast]
  have hfields : r.header.writeSubset [hdrContentLength, hdrTransferEncoding, hdrTrailer] =
      r.header.writeSubset framingFields := rfl
  by_cases hn : body.length = 0
  · simp only [hn, if_true, hfields, isChunked, List.append_nil]
    simp
  · simp only [hn, if_false, hfields, isChunked, List.append_nil]
    simp

/-- The field with the length among the others. -/
def withLength (n : Nat) (pairs : List (Str × Str)) : List (Str × Str) :=
  if n = 0 then pairs ++ [(headerContentLength, itoa 0)] else (headerContentLength, itoa n) :: pairs

theorem forall_mem_withLength {P : Str × Str → Prop} {n : Nat} {pairs : List (Str × Str)}
    (hl : P (headerContentLength, itoa n)) (hp : ∀ p ∈ pairs, P p) :
    ∀ p ∈ withLength n pairs, P p := by
  unfold withLength
  split
  next hn =>
    subst hn
    exact List.forall_mem_append.mpr ⟨hp, List.forall_mem_singleton.mpr hl⟩
  next => exact List.forall_mem_cons.mpr ⟨hl, hp⟩

theorem values_withLength (n : Nat) (pairs : List (Str × Str)) {name : Str}
    (hne : name ≠ headerContentLength) :
    ((withLength n pairs).filter (·.1 = name)).map Prod.snd = (pairs.filter (·.1 = name)).map Prod.snd := by
  have hlength : ∀ v, ([(headerContentLength, v)].filter fun p : Str × Str => p.1 = name) = [] :=
    fun v => List.filter_eq_nil_iff.mpr (by simpa using Ne.symm hne)
  unfold withLength
  split
  · rw [List.filter_append, hlength, List.append_nil]
  · rw [← List.singleton_append, List.filter_append, hlength, List.nil_append]

theorem length_withLength (n : Nat) {pairs : List (Str × Str)}
    (hnone : (pairs.filter (·.1 = headerContentLength)).map Prod.snd = []) :
    ((withLength n pairs).filter (·.1 = headerContentLength)).map Prod.snd = [itoa n] := by
  have hnil := List.map_eq_nil_iff.mp hnone
  unfold withLength
  split
  next hn =>
    rw [List.filter_append, hnil, hn]
    rfl
  next =>
    rw [← List.singleton_append, List.filter_append, hnil]
    rfl

/-- A local response is read back: its status line, its length, the values of
its fields, and its body. -/
theorem Composed.parseHead {r : Response} {body : Str} (h : Composed r body.length) :
    ∃ head, parseHead (writeLocal r body) = some head ∧ head.statusLine = localLine r.statusCode ∧
      head.rest = body ∧
      head.values headerContentLength = [itoa body.length] ∧
        head.values (str "Transfer-Encoding") = [] ∧
      ∀ name, name ∉ framingFields →
        head.values name = ((r.header.entry name).getD []).map trimBlank := by
  have hwritten := writeSubset_eq h.header framingFields
  have hfield : ∀ p ∈ fieldPairs (writtenFields r.header framingFields),
    0x0D ∉ p.1 ++ str ": " ++ p.2 ∧
      parseField (p.1 ++ str ": " ++ p.2) = some p := fun p hp => fieldLine_ok h.header hp
  have hvalues := fieldPairs_values r.header framingFields
  generalize fieldPairs _ = pairs at hwritten hfield hvalues
  have hall := forall_mem_withLength (P := fun p => 0x0D ∉ p.1 ++ str ": " ++ p.2 ∧
    parseField (p.1 ++ str ": " ++ p.2) = some p) (lengthLine_ok body.length) hfield
  have hlines : (if body.length = 0 then r.header.writeSubset framingFields ++ [lengthLine 0]
      else lengthLine body.length :: r.header.writeSubset framingFields) =
        (withLength body.length pairs).map fun p => p.1 ++ str ": " ++ p.2 := by
    rw [hwritten, withLength]
    split
    · rw [List.map_append]
      rfl
    · rfl
  have hparse : ((withLength body.length pairs).map fun p => p.1 ++ str ": " ++ p.2).mapM parseField =
      some (withLength body.length pairs) := by
    rw [mapM_eq_some_iff, List.map_map]
    exact List.map_congr_left fun p hp => (hall p hp).2
  refine ⟨⟨localLine r.statusCode, withLength body.length pairs, body⟩, ?_, rfl, rfl, ?_, ?_,
    fun name hname => ?_⟩
  · rw [h.writeLocal_eq, hlines, parseHead_append, hparse]
    · rfl
    · exact List.forall_mem_cons.mpr ⟨(localLine_ok h.code).1,
      List.forall_mem_map.mpr fun p hp => (hall p hp).1⟩
    · refine List.forall_mem_map.mpr fun p hp he => ?_
      have hread := (hall p hp).2
      rw [he] at hread
      cases hread
  · refine length_withLength _ ?_
    rw [hvalues, if_pos (by decide)]
  · refine (values_withLength _ _ (by decide)).trans ?_
    rw [hvalues, if_pos (by decide)]
  · have hne : name ≠ headerContentLength := fun he => hname (he ▸ List.mem_cons_self)
    refine (values_withLength _ _ hne).trans ?_
    rw [hvalues, if_neg hname]

/-! ## Errors -/

/-- An error that a client can read back. -/
structure WellFormed (pe : ProxyError) : Prop where
  code : pe.statusCode ∈ localCodes
  errorType : (str pe.errorType).all isTokenByte = true
  message : 0x0A ∉ str pe.message
  action : 0x0A ∉ str pe.action

instance (pe : ProxyError) : Decidable (WellFormed pe) :=
  decidable_of_iff (pe.statusCode ∈ localCodes ∧ (str pe.errorType).all isTokenByte = true ∧ 0x0A ∉ str pe.message ∧
    0x0A ∉ str pe.action) ⟨fun ⟨h₁, h₂, h₃, h₄⟩ => ⟨h₁, h₂, h₃, h₄⟩, fun h => ⟨h.1, h.2, h.3, h.4⟩⟩

theorem wellFormed_of_mem : ∀ pe ∈ proxyErrors, WellFormed pe := by decide +kernel

theorem cutPre_append (pre s : Str) : cutPre pre (pre ++ s) = some s := by
  have hpre : hasPre (pre ++ s) pre = true :=
    List.isPrefixOf_iff_prefix.mpr (List.prefix_append pre s)
  rw [cutPre, if_pos hpre, List.drop_left]

/-- The lines of a body. -/
theorem str_body (pe : ProxyError) : str pe.body = if pe.action = "" then
      (str "spnego-proxy error: " ++ str pe.errorType) ++ 0x0A :: ([] ++ 0x0A :: (str pe.message ++ 0x0A :: []))
    else (str "spnego-proxy error: " ++ str pe.errorType) ++ 0x0A :: ([] ++ 0x0A :: (str pe.message ++
      0x0A :: ([] ++ 0x0A :: ((str "Suggested action: " ++ str pe.action) ++ 0x0A :: [])))) := by
  rw [ProxyError.body]
  split
  · show str ("spnego-proxy error: " ++ pe.errorType ++ "\n\n" ++ pe.message ++ "\n") = _
    simp only [str_append, List.append_assoc]
    rfl
  · show str ("spnego-proxy error: " ++ pe.errorType ++ "\n\n" ++ pe.message ++ "\n\nSuggested action: " ++ pe.action ++
      "\n") = _
    have hlast : str "\n\nSuggested action: " = 0x0A :: 0x0A :: str "Suggested action: " :=
      by decide
    simp only [str_append, List.append_assoc, hlast]
    rfl

/-- The body tells the type, the message and the action. -/
theorem WellFormed.readReport {pe : ProxyError} (h : WellFormed pe) :
    readReport (str pe.errorType) (str pe.body) = some (str pe.message, str pe.action) := by
  have hfirst : 0x0A ∉ str "spnego-proxy error: " ++ str pe.errorType :=
    Clean.not_lf (clean_append.mpr ⟨by decide, clean_of_token h.errorType⟩)
  have hlast : 0x0A ∉ str "Suggested action: " ++ str pe.action := by
    rw [List.mem_append, not_or]
    exact ⟨by decide, h.action⟩
  have hnil : (0x0A : UInt8) ∉ ([] : Str) := List.not_mem_nil
  have hbody := str_body pe
  by_cases ha : pe.action = ""
  · rw [if_pos ha] at hbody
    have hparts : (str pe.body).splitOn 0x0A = [str "spnego-proxy error: " ++ str pe.errorType, [],
      str pe.message, []] := by
      rw [hbody, List.splitOn_append_cons_self_of_not_mem hfirst,
        List.splitOn_append_cons_self_of_not_mem hnil,
        List.splitOn_append_cons_self_of_not_mem h.message]
      rfl
    simp only [Spec.readReport, hparts, if_true, ha]
    rfl
  · rw [if_neg ha] at hbody
    have hparts : (str pe.body).splitOn 0x0A = [str "spnego-proxy error: " ++ str pe.errorType, [],
      str pe.message, [],
        str "Suggested action: " ++ str pe.action, []] := by
      rw [hbody, List.splitOn_append_cons_self_of_not_mem hfirst,
        List.splitOn_append_cons_self_of_not_mem hnil,
        List.splitOn_append_cons_self_of_not_mem h.message,
          List.splitOn_append_cons_self_of_not_mem hnil,
        List.splitOn_append_cons_self_of_not_mem hlast]
      rfl
    simp only [Spec.readReport, hparts, cutPre_append, if_true]
    rfl

/-- The header of an error response has no forbidden bytes. -/
theorem WellFormed.header {pe : ProxyError} (h : WellFormed pe) :
    validateResponseHeaderBytes (errorResponse pe) = true := by
  have hentries : (errorResponse pe).header.fields.entries = [⟨headerProxyStatus,
    [proxyStatusPre ++ str pe.errorType]⟩,
      ⟨headerConnection, [connectionClose]⟩, ⟨headerContentType, [contentTypeTextUTF8]⟩] := rfl
  have hclean : hasForbiddenFieldValueByte (proxyStatusPre ++ str pe.errorType) = false :=
    clean_iff_not_forbidden.mp (clean_append.mpr ⟨by decide, clean_of_token h.errorType⟩)
  have hrest : ([⟨headerConnection, [connectionClose]⟩,
    ⟨headerContentType, [contentTypeTextUTF8]⟩] :
      List (Sigma fun _ : Str => List Str)).all
        (fun f => isValidFieldName f.1 && !f.2.any hasForbiddenFieldValueByte) = true := by decide
  rw [validateResponseHeaderBytes, hentries, List.all_cons, hrest, Bool.and_true, Bool.and_eq_true]
  refine ⟨show isValidFieldName headerProxyStatus = true by decide, ?_⟩
  rw [List.any_cons, hclean]
  rfl

theorem WellFormed.composed {pe : ProxyError} (h : WellFormed pe) :
    Composed (errorResponse pe) (str pe.body).length :=
  ⟨⟨rfl, rfl⟩, h.code, h.header, ⟨rfl, rfl⟩, rfl⟩

theorem maxForwards_composed (method : Str) :
    Composed (maxForwardsResponse method) ([] : Str).length := by
  refine ⟨⟨rfl, rfl⟩, List.mem_cons_self, ?_, ⟨rfl, rfl⟩, rfl⟩
  simp only [validateResponseHeaderBytes, maxForwardsResponse]
  split <;> decide

/-- A string that neither begins nor ends with a blank. -/
theorem trimBlank_of_ends {s t u : Str} {b c : UInt8} (hs : s = b :: t) (hb : isBlank b = false)
    (hs' : s = u ++ [c]) (hc : isBlank c = false) : trimBlank s = s := by
  have hfirst : s.dropWhile isBlank = s := by
    rw [hs, List.dropWhile_cons_of_neg (Bool.eq_false_iff.mp hb)]
  have hlast : s.reverse.dropWhile isBlank = s.reverse := by
    rw [hs', List.reverse_append, List.reverse_singleton, List.singleton_append,
      List.dropWhile_cons_of_neg (Bool.eq_false_iff.mp hc)]
  rw [trimBlank, hfirst, hlast, List.reverse_reverse]

theorem WellFormed.trimBlank_status {pe : ProxyError} (h : WellFormed pe) :
    trimBlank (proxyStatusPre ++ str pe.errorType) = proxyStatusPre ++ str pe.errorType := by
  have htoken : ∀ b : UInt8, isTokenByte b = true → isBlank b = false :=
    forall_byte (by decide +kernel)
  rcases List.eq_nil_or_concat (str pe.errorType) with ht | ⟨u, c, ht⟩
  · rw [ht, List.append_nil]
    decide
  · have hc : isBlank c = false := by
      refine htoken c (List.all_eq_true.mp h.errorType c ?_)
      rw [ht]
      simp
    refine trimBlank_of_ends (u := proxyStatusPre ++ u) (c := c) rfl (by decide) ?_ hc
    rw [ht, List.concat_eq_append, List.append_assoc]

/-- An error is read back from the bytes that are written for it. -/
theorem WellFormed.readError {pe : ProxyError} (h : WellFormed pe) :
    ∃ head, parseHead (writeLocal (errorResponse pe) (str pe.body)) = some head ∧ Delimited head ∧
      readError head = some (.ofError pe) := by
  obtain ⟨head, hparse, hline, hrest, hlength, hcoding, hvalues⟩ := h.composed.parseHead
  have hstatus : head.values headerProxyStatus = [proxyStatusPre ++ str pe.errorType] := by
    rw [hvalues _ (by decide)]
    show [trimBlank (proxyStatusPre ++ str pe.errorType)] = _
    rw [h.trimBlank_status]
  have hcode : readCode head.statusLine = some pe.statusCode := by
    rw [hline]
    exact (localLine_ok h.code).2
  refine ⟨head, hparse, ⟨⟨_, hlength, ?_⟩, hcoding, hvalues _ (by decide)⟩, ?_⟩
  · rw [hrest]
    exact denotes_itoa _
  · rw [Spec.readError, hcode, hstatus, Option.bind_eq_bind, Option.bind_some]
    simp only [cutPre_append, Option.bind_eq_bind, Option.bind_some, hrest, h.readReport]
    rfl

/-- The answer to a request that may not be forwarded. -/
theorem maxForwards_read (method : Str) :
    ∃ head, parseHead (writeLocal (maxForwardsResponse method) []) = some head ∧ Delimited head ∧
      head.statusLine = str "HTTP/1.1 200 OK" ∧ head.rest = [] ∧
      head.values headerAllow = if method = methodOptions then [allowMethods] else [] := by
  obtain ⟨head, hparse, hline, hrest, hlength, hcoding, hvalues⟩ :=
    (maxForwards_composed method).parseHead
  refine ⟨head, hparse, ⟨⟨_, hlength, ?_⟩, hcoding, ?_⟩, ?_, hrest, ?_⟩
  · rw [hrest]
    exact denotes_itoa _
  · rw [hvalues _ (by decide)]
    simp only [maxForwardsResponse]
    split <;> decide
  · rw [hline]
    show localLine 200 = _
    decide
  · rw [hvalues _ (by decide)]
    simp only [maxForwardsResponse]
    split <;> decide

/-! ## Every local response of a client connection -/

open SP.Impl.Life (Entry)

/-- What is written to a client is written by its session, or is the denial. -/
theorem wrote_of_handled {cfg : Config} {env : Env} {allowedIPs : List IPNet} {n : Nat}
    {m : ClientMsg} {err : Option Str}
    (h : .event (.wrote m err) ∈ Life.handled cfg env allowedIPs n) :
    .wrote m err ∈ (run cfg env n).trace ∨ m = .error errClientDenied := by
  have hlog : .event (.wrote m err) ∈ ((Life.guarded cfg env allowedIPs n).run {}).2.log := by
    rw [Life.handled_eq] at h
    exact (List.mem_append.mp h).resolve_right (by simp)
  obtain ⟨s, hs⟩ : ∃ s, Life.Released cfg ((Life.guarded cfg env allowedIPs n).run {}).2 s :=
    Life.guarded_released allowedIPs n
  have htrace : .wrote m err ∈ ((Life.guarded cfg env allowedIPs n).run {}).2.world.trace := by
    rw [← hs.trace]
    exact List.mem_filterMap.mpr ⟨_, hlog, rfl⟩
  by_cases hps : cfg.pseudonym = []
  · rw [Life.guarded, if_pos hps] at htrace
    cases htrace
  by_cases ha : admitsClient allowedIPs cfg.clientAddr = false
  · rw [Life.guarded, if_neg hps, if_pos ha] at htrace
    cases List.mem_singleton.mp htrace
    exact .inr rfl
  · rw [Life.guarded, if_neg hps, if_neg ha] at htrace
    exact .inl (congrArg World.trace (Life.session_world cfg env n) ▸ htrace)

/-- Every response that the proxy makes itself is read back by the client. In
every run for a client, denied or not, the bytes of an error or of the answer
to a request that may not be forwarded are one response: a head, a body of the
length that the head says, and the end of the connection. An error is told by
it as a whole. -/
theorem local_responses_read_back {cfg : Config} {env : Env} {allowedIPs : List IPNet} {n : Nat}
    {m : ClientMsg}
    {err : Option Str} {bs : Str} (h : .event (.wrote m err) ∈ Life.handled cfg env allowedIPs n)
    (hb : localBytes m = some bs) :
    ∃ head, parseHead bs = some head ∧ Delimited head ∧
      (∀ pe, m = .error pe → readError head = some (.ofError pe)) ∧
      ∀ method, m = .maxForwards method → head.statusLine = str "HTTP/1.1 200 OK" ∧ head.rest = [] ∧
        head.values headerAllow = if method = methodOptions then [allowMethods] else [] := by
  cases m with
  | error pe =>
    have hmem : pe ∈ proxyErrors := by
      rcases wrote_of_handled h with h | h
      · exact (runLoop_tracked cfg env n none 0 (.init cfg)).known h
      · cases h
        simp [proxyErrors]
    obtain ⟨head, hparse, hdelim, hread⟩ := (wellFormed_of_mem pe hmem).readError
    obtain rfl := Option.some.inj hb
    refine ⟨head, hparse, hdelim, fun pe' he => ?_, fun _ he => by cases he⟩
    cases he
    exact hread
  | maxForwards method =>
    obtain ⟨head, hparse, hdelim, hread⟩ := maxForwards_read method
    obtain rfl := Option.some.inj hb
    refine ⟨head, hparse, hdelim, fun _ he => (by cases he), fun method' he => ?_⟩
    cases he
    exact hread
  | interim | final | connectOK | data => cases hb

/-- What happens to a client whose request has been through the proxy before. -/
def loopedLog : List Entry :=
  Life.handled plainConfig
    (scripted [plainGet (str "a.org") ⟨AList.insert headerVia [str "1.1 px"] ∅⟩] (str "t") []) [] 1

theorem local_responses_read_back_loopedLog :
    ∃ bs head, localBytes (.error errProxyLoopDetected) = some bs ∧ parseHead bs = some head ∧
      readError head = some (.ofError errProxyLoopDetected) := by
  have hmem : .event (.wrote (.error errProxyLoopDetected) none) ∈ loopedLog :=
    List.mem_of_getElem? (i := 1) rfl
  obtain ⟨head, hparse, -, hread, -⟩ := local_responses_read_back hmem rfl
  exact ⟨_, head, rfl, hparse, hread _ rfl⟩

end SP.Proof
