import SpnegoProxy.Proof.Go.Http
import SpnegoProxy.Proof.Go.Strings
import SpnegoProxy.Spec.Headers

/-!
# What the header rewriting changes

`Touches names h h'`: `h'` has the entries of `h` except under `names`, and
canonical keys stay canonical. Every rewriting of a request's header is such
a change for the names it writes.

`members`: a field that is a list, read over all of its lines.
`appendHeaderValue` reads the first line only and writes one line, so it adds
to the list if and only if no later line has a member.

`sanitizeHopByHop` removes the hop-by-hop fields, in whatever letter case they
are named, and no others.
-/

namespace SP.Proof

open SP.Go SP.Impl SP.Spec

/-- From `h` to `h'` only the entries of `names` change. -/
structure Touches (names : List Str) (h h' : Header) : Prop where
  entry : ∀ k, k ∉ names.map canonicalKey → h'.entry k = h.entry k
  canonical : h.Canonical → h'.Canonical

namespace Touches

variable {names names' : List Str} {h h' h'' : Header}

theorem rfl' : Touches names h h := ⟨fun _ _ => rfl, id⟩

theorem trans (t : Touches names h h') (t' : Touches names h' h'') : Touches names h h'' :=
  ⟨fun k hk => (t'.entry k hk).trans (t.entry k hk), fun hc => t'.canonical (t.canonical hc)⟩

theorem set {key value : Str} (hk : key ∈ names) : Touches names h (h.set key value) :=
  ⟨fun _ hn => Header.entry_set_ne fun he => hn (he ▸ List.mem_map_of_mem hk), Header.Canonical.set⟩

end Touches

theorem appendHeaderValue_touches {names : List Str} {h : Header} {key value : Str}
    (hk : key ∈ names) : Touches names h (appendHeaderValue h key value) := by
  simp only [appendHeaderValue]
  split
  · exact .set hk
  · exact .set hk

theorem appendHeaderValue_entry (h : Header) (key value : Str) :
    (appendHeaderValue h key value).entry (canonicalKey key) =
      some [if h.get key ≠ [] then h.get key ++ str ", " ++ value else value] := by
  rw [appendHeaderValue]
  split <;> exact Header.entry_set_self

/-! ## List fields -/

theorem listMembers_append (ls ls' : List Str) :
    listMembers (ls ++ ls') = listMembers ls ++ listMembers ls' := by
  simp only [listMembers, List.flatMap_append, List.filter_append]

/-- The separator that `appendHeaderValue` writes joins two lines. -/
theorem listMembers_join (s t : Str) :
    listMembers [s ++ str ", " ++ t] = listMembers [s] ++ listMembers [t] := by
  have hsep : s ++ str ", " ++ t = s ++ 0x2C :: 0x20 :: t := List.append_assoc s _ t
  simp only [listMembers, List.flatMap_singleton, hsep, splitComma_append, List.map_append,
    List.filter_append,
    trimmed_space]

theorem listMembers_empty : listMembers [[]] = [] := by decide

theorem members_eq (h : Header) (key : Str) :
    members h key = listMembers [h.get key] ++ listMembers (h.values key).tail := by
  rw [members, Header.get]
  cases h.values key with
  | nil => rw [List.headD_nil, List.tail_nil, listMembers_empty]; rfl
  | cons a as => exact listMembers_append [a] as

/-- What is left of the list is its first line, and the value. -/
theorem members_appendHeaderValue (h : Header) (key value : Str) :
    members (appendHeaderValue h key value) key = listMembers [h.get key] ++ listMembers [value] := by
  rw [members, Header.values, appendHeaderValue_entry, Option.getD_some]
  split
  · exact listMembers_join _ _
  · rename_i hn
    rw [not_not.mp hn, listMembers_empty, List.nil_append]

theorem appends_iff {key value : Str} {h h' : Header}
    (hm : members h' key = listMembers [h.get key] ++ listMembers [value]) :
    Appends key value h h' ↔ OneLine h key := by
  rw [Appends, OneLine, hm, members_eq, List.append_assoc, List.append_cancel_left_eq]
  constructor
  · intro he
    have hlen := congrArg List.length he
    rw [List.length_append] at hlen
    exact List.eq_nil_of_length_eq_zero (by omega)
  · intro he
    rw [he, List.nil_append]

/-- The same for a field that is only written when `b` is set. -/
theorem appends_switched_iff {b : Bool} {key value : Str} {h h' : Header}
    (hm : members h' key = if b then listMembers [h.get key] ++ listMembers [value] else members h key) :
    Appends key (if b then value else []) h h' ↔ (b = true → OneLine h key) := by
  cases b with
  | true =>
    rw [if_pos rfl] at hm
    rw [if_pos rfl, appends_iff hm]
    exact ⟨fun ho _ => ho, fun ho => ho rfl⟩
  | false =>
    rw [if_neg (by decide)] at hm
    rw [if_neg (by decide), Appends, hm, listMembers_empty, List.append_nil]
    simp

theorem setIfEmpty_touches {names : List Str} {h : Header} {key value : Str} (hk : key ∈ names) :
    Touches names h (setIfEmpty h key value) := by
  simp only [setIfEmpty]
  split
  · exact .set hk
  · exact .rfl'

theorem injectVia_touches (h : Header) (proto pseudonym : Str) :
    Touches [headerVia] h (injectVia h proto pseudonym) :=
  appendHeaderValue_touches (List.mem_singleton_self _)

theorem injectForwardingHeaders_touches (req : Request) (clientAddr : Str)
    (fwdCfg : ForwardingConfig) (obfID : Str) : Touches forwardingHeaders req.header
      (injectForwardingHeaders req clientAddr fwdCfg obfID).header := by
  have hf : ∀ {h v}, Touches forwardingHeaders h (appendHeaderValue h headerForwarded v) :=
    appendHeaderValue_touches (by simp [forwardingHeaders])
  have hx : ∀ {h v}, Touches forwardingHeaders h (appendHeaderValue h headerXForwardedFor v) :=
    appendHeaderValue_touches (by simp [forwardingHeaders])
  have hp : ∀ {h v}, Touches forwardingHeaders h (setIfEmpty h headerXForwardedProto v) :=
    setIfEmpty_touches (by simp [forwardingHeaders])
  have hh : ∀ {h v}, Touches forwardingHeaders h (setIfEmpty h headerXForwardedHost v) :=
    setIfEmpty_touches (by simp [forwardingHeaders])
  simp only [injectForwardingHeaders]
  split <;> split
  · exact hf.trans (hx.trans (hp.trans hh))
  · exact hx.trans (hp.trans hh)
  · exact hf
  · exact .rfl'

theorem members_congr {h h' : Header} {key : Str}
    (he : h'.entry (canonicalKey key) = h.entry (canonicalKey key)) :
    members h' key = members h key := by
  rw [members, members, Header.values, Header.values, he]

theorem get_congr {h h' : Header} {key : Str}
    (he : h'.entry (canonicalKey key) = h.entry (canonicalKey key)) : h'.get key = h.get key := by
  rw [Header.get, Header.get, Header.values, Header.values, he]

/-- `Forwarded` is written by its own branch only. -/
theorem members_forwarded (req : Request) (clientAddr : Str) (fwdCfg : ForwardingConfig)
    (obfID : Str) :
    members (injectForwardingHeaders req clientAddr fwdCfg obfID).header headerForwarded =
      if fwdCfg.forwardedEnabled then
        listMembers [req.header.get headerForwarded] ++ listMembers [str "for=" ++ obfID ++ str ";proto=http"]
      else members req.header headerForwarded := by
  have hrest : ∀ h : Header,
    Touches [headerXForwardedFor, headerXForwardedProto, headerXForwardedHost] h
      (setIfEmpty (setIfEmpty (appendHeaderValue h headerXForwardedFor (extractHost clientAddr))
        headerXForwardedProto schemeHTTP) headerXForwardedHost req.host) := fun h =>
    (appendHeaderValue_touches (by simp)).trans ((setIfEmpty_touches (by simp)).trans (setIfEmpty_touches (by simp)))
  have hkey : canonicalKey headerForwarded ∉
      [headerXForwardedFor, headerXForwardedProto, headerXForwardedHost].map canonicalKey :=
        by decide +kernel
  simp only [injectForwardingHeaders]
  split <;> split
  · rw [members_congr ((hrest _).entry _ hkey), members_appendHeaderValue]
  · rw [members_congr ((hrest _).entry _ hkey)]
  · rw [members_appendHeaderValue]
  · rfl

/-- `X-Forwarded-For` too. -/
theorem members_xForwardedFor (req : Request) (clientAddr : Str) (fwdCfg : ForwardingConfig)
    (obfID : Str) :
    members (injectForwardingHeaders req clientAddr fwdCfg obfID).header headerXForwardedFor =
      if fwdCfg.xForwardedForEnabled then
        listMembers [req.header.get headerXForwardedFor] ++ listMembers [extractHost clientAddr]
      else members req.header headerXForwardedFor := by
  have hfirst : ∀ v,
    (appendHeaderValue req.header headerForwarded v).entry (canonicalKey headerXForwardedFor) =
      req.header.entry (canonicalKey headerXForwardedFor) := fun v =>
    (appendHeaderValue_touches (List.mem_singleton_self _)).entry _ (by decide +kernel)
  have hrest : ∀ h : Header, Touches [headerXForwardedProto, headerXForwardedHost] h
      (setIfEmpty (setIfEmpty h headerXForwardedProto schemeHTTP) headerXForwardedHost req.host) :=
        fun h =>
    (setIfEmpty_touches (by simp)).trans (setIfEmpty_touches (by simp))
  have hkey : canonicalKey headerXForwardedFor ∉ [headerXForwardedProto,
    headerXForwardedHost].map canonicalKey := by
    decide +kernel
  simp only [injectForwardingHeaders]
  split <;> split
  · rw [members_congr ((hrest _).entry _ hkey), members_appendHeaderValue, get_congr (hfirst _)]
  · rw [members_congr ((hrest _).entry _ hkey), members_appendHeaderValue]
  · exact members_congr (hfirst _)
  · rfl

/-- A value is added to a list field, and no member is lost, if and only if
the members all stand in the first line of the field; this is so for `Via`
and for the forwarding fields that are switched on. -/
theorem append_keeps_members_iff (h : Header) (key value proto pseudonym : Str) (req : Request)
    (clientAddr : Str) (fwdCfg : ForwardingConfig) (obfID : Str) :
    ((Appends key value h (appendHeaderValue h key value) ∧
      ∀ k, k ≠ canonicalKey key →
        (appendHeaderValue h key value).entry k = h.entry k) ↔ OneLine h key) ∧
    (Appends headerVia (proto ++ str " " ++ pseudonym) h (injectVia h proto pseudonym) ↔ OneLine h headerVia) ∧
    (Appends headerForwarded (if fwdCfg.forwardedEnabled then str "for=" ++ obfID ++ str ";proto=http" else [])
      req.header (injectForwardingHeaders req clientAddr fwdCfg obfID).header ↔
      (fwdCfg.forwardedEnabled = true → OneLine req.header headerForwarded)) ∧
    (Appends headerXForwardedFor (if fwdCfg.xForwardedForEnabled then extractHost clientAddr else [])
      req.header (injectForwardingHeaders req clientAddr fwdCfg obfID).header ↔
      (fwdCfg.xForwardedForEnabled = true → OneLine req.header headerXForwardedFor)) := by
  refine ⟨?_, ?_, ?_, ?_⟩
  · rw [appends_iff (members_appendHeaderValue h key value)]
    refine and_iff_left fun k hk => ?_
    exact (appendHeaderValue_touches (List.mem_singleton_self key)).entry k (by simpa using hk)
  · exact appends_iff (members_appendHeaderValue h headerVia _)
  · exact appends_switched_iff (members_forwarded req clientAddr fwdCfg obfID)
  · exact appends_switched_iff (members_xForwardedFor req clientAddr fwdCfg obfID)

/-- A `Via` chain in two lines. -/
def splitVia : Header := ⟨AList.insert (canonicalKey headerVia) [str "1.0 a", str "1.1 b"] ∅⟩

/-- The second line is lost. -/
theorem splitVia_loses_member : members splitVia headerVia = [str "1.0 a", str "1.1 b"] ∧
    members (injectVia splitVia (str "HTTP/1.1") (str "px")) headerVia = [str "1.0 a",
      str "HTTP/1.1 px"] ∧
    ¬ Appends headerVia (str "HTTP/1.1 px") splitVia (injectVia splitVia (str "HTTP/1.1") (str "px")) := by
  refine ⟨by decide +kernel, by decide +kernel, ?_⟩
  simp only [Appends]
  decide +kernel

/-! ## Hop-by-hop fields -/

/-- The names of the fields that `sanitizeHopByHop` removes, as the client and the proxy give them. -/
def hopByHopNames (req : Request) : List Str :=
  listMembers ((req.header.entry headerConnection).getD []) ++ hopByHopHeaders

/-- The fields that are removed are the hop-by-hop ones and `Content-Length`. -/
theorem sanitizeHopByHop_entry (req : Request) (k : Str) :
    (sanitizeHopByHop req).header.entry k =
      if k ∈ (hopByHopNames req).map canonicalKey ∨ (k = canonicalKey headerContentLength ∧ DropsLength req) then none
      else req.header.entry k := by
  -- the two loops of deletions are one
  have hdel : (hopByHopNames req).foldl Header.del req.header =
      hopByHopHeaders.foldl Header.del
        ((listMembers ((req.header.entry headerConnection).getD [])).foldl Header.del req.header) :=
    List.foldl_append
  simp only [sanitizeHopByHop, ← hdel]
  have hentry : ∀ k', ((hopByHopNames req).foldl Header.del req.header).entry k' =
      if k' ∈ (hopByHopNames req).map canonicalKey then none else req.header.entry k' := fun _ => Header.entry_foldl_del
  by_cases hk : k ∈ (hopByHopNames req).map canonicalKey
  · have hnone := (hentry k).trans (if_pos hk)
    rw [if_pos (c := _ ∨ _) (.inl hk)]
    split
    · rw [Header.entry_del, hnone, ite_self]
    · exact hnone
  · have hsome := (hentry k).trans (if_neg hk)
    by_cases hc : k = canonicalKey headerContentLength
    · subst hc
      have hget : ((hopByHopNames req).foldl Header.del req.header).get headerContentLength =
          req.header.get headerContentLength := by rw [Header.get, Header.values, hsome]; rfl
      rw [hget]
      by_cases hd : DropsLength req
      · rw [if_pos hd, if_pos (.inr ⟨rfl, hd⟩), Header.entry_del_self]
      · rw [if_neg hd, if_neg (not_or.mpr ⟨hk, fun h => hd h.2⟩), hsome]
    · rw [if_neg (c := _ ∨ _) (not_or.mpr ⟨hk, fun h => hc h.1⟩)]
      split
      · rw [Header.entry_del_ne hc, hsome]
      · exact hsome

/-- No hop-by-hop field is left. -/
theorem sanitizeHopByHop_removes (req : Request) {name : Str} (hn : name ∈ hopByHopHeaders) :
    (sanitizeHopByHop req).header.entry (canonicalKey name) = none := by
  rw [sanitizeHopByHop_entry, if_pos (.inl (List.mem_map_of_mem (List.mem_append_right _ hn)))]

theorem sanitizeHopByHop_canonical {req : Request} (hc : req.header.Canonical) :
    (sanitizeHopByHop req).header.Canonical := by
  simp only [sanitizeHopByHop]
  split
  · exact (hc.foldl_del.foldl_del).del
  · exact hc.foldl_del.foldl_del

theorem mem_listMembers {lines : List Str} {name : Str} :
    name ∈ listMembers lines ↔ ListedIn lines name := by
  simp only [listMembers, List.mem_filter, List.mem_flatMap, List.mem_map, decide_eq_true_eq,
    ListedIn]
  exact and_comm

/-- The names that the proxy knows are the fixed ones. -/
theorem hopByHopHeaders_eq : hopByHopHeaders = fixedHopByHop := rfl

/-- A key is among those that are removed if and only if it is hop-by-hop. -/
theorem mem_hopByHopNames {req : Request} {k : Str} (hk : canonicalKey k = k)
    (ht : k.all isTokenByte = true) :
    k ∈ (hopByHopNames req).map canonicalKey ↔ HopByHop req k := by
  simp only [List.mem_map, canonicalKey_eq_iff hk ht, HopByHop, hopByHopNames, List.mem_append,
    mem_listMembers,
    hopByHopHeaders_eq, or_comm]

theorem sanitizeHopByHop_none {req : Request} (hc : TokenKeys req.header) (k : Str) :
    (sanitizeHopByHop req).header.entry k = none ↔
      req.header.entry k = none ∨ HopByHop req k ∨ (k = canonicalKey headerContentLength ∧ DropsLength req) := by
  rw [sanitizeHopByHop_entry]
  by_cases hn : req.header.entry k = none
  · rw [hn, ite_self]
    exact iff_of_true rfl (.inl rfl)
  · obtain ⟨hk, ht⟩ := hc k hn
    rw [or_iff_right hn, ← mem_hopByHopNames hk ht]
    exact ⟨fun h => by_contra fun hp => hn (by rwa [if_neg hp] at h), fun h => if_pos h⟩

/-- A request without anything to remove is left alone. -/
theorem sanitizeHopByHop_of_clean {req : Request}
    (hh : ∀ name ∈ hopByHopHeaders, req.header.entry (canonicalKey name) = none)
    (hl : ¬ DropsLength req) (ht : req.trailer = none) : sanitizeHopByHop req = req := by
  have hc : req.header.entry headerConnection = none :=
    hh headerConnection (by simp [hopByHopHeaders])
  have hn : listMembers ((req.header.entry headerConnection).getD []) = [] := by rw [hc]; rfl
  simp only [sanitizeHopByHop, hn, List.foldl_nil, Header.foldl_del_of_none hh, if_neg hl]
  rw [← ht]

/-- What was removed once is not there to be removed again. -/
theorem sanitizeHopByHop_idem (req : Request) :
    sanitizeHopByHop (sanitizeHopByHop req) = sanitizeHopByHop req := by
  refine sanitizeHopByHop_of_clean (fun name hn => sanitizeHopByHop_removes req hn) ?_ rfl
  rintro ⟨hte, hget⟩
  rw [Header.get, Header.values, sanitizeHopByHop_entry] at hget
  split at hget
  · exact hget rfl
  · rename_i hn
    exact hn (.inr ⟨rfl, hte, hget⟩)

/-- Of a request with canonical token keys exactly the hop-by-hop fields are
removed, and `Content-Length` beside another framing. -/
theorem hopByHop_removed_exactly {req : Request} (hc : TokenKeys req.header) :
    (∀ k, (sanitizeHopByHop req).header.entry k = none ↔
      req.header.entry k = none ∨ HopByHop req k ∨ (k = headerContentLength ∧ DropsLength req)) ∧
    (∀ k vs, (sanitizeHopByHop req).header.entry k = some vs → req.header.entry k = some vs) ∧
    (sanitizeHopByHop req).transferEncoding = req.transferEncoding ∧
    (sanitizeHopByHop req).host = req.host ∧
    (sanitizeHopByHop req).trailer = none ∧
    sanitizeHopByHop (sanitizeHopByHop req) = sanitizeHopByHop req := by
  have hlen : canonicalKey headerContentLength = headerContentLength := by decide +kernel
  refine ⟨fun k => ?_, fun k vs hk => ?_, rfl, rfl, rfl, sanitizeHopByHop_idem req⟩
  · rw [sanitizeHopByHop_none hc, hlen]
  · rw [sanitizeHopByHop_entry] at hk
    split at hk
    · cases hk
    · exact hk

/-- A plain `GET` over HTTP/1.1. -/
def plainGet (host : Str) (header : Header) : Request where
  method := str "GET"
  proto := str "HTTP/1.1"
  protoMajor := 1
  protoMinor := 1
  header := header
  host := host
  close := false
  transferEncoding := []
  trailer := none
  body := .noBody

/-- A request whose `Connection` lines name themselves, and a field in odd letter case. -/
def nominating : Request :=
  plainGet (str "h") ⟨AList.insert (canonicalKey headerConnection) [str "connection , x-hOP", str ""]
    (AList.insert (canonicalKey (str "x-hop")) [str "1"] (AList.insert (canonicalKey (str "TE")) [str "trailers"]
      (AList.insert (canonicalKey (str "accept")) [str "a", str "b"] ∅)))⟩

theorem hopByHop_removed_nominating : TokenKeys nominating.header ∧
    (sanitizeHopByHop nominating).header.entry (str "X-Hop") = none ∧
    (sanitizeHopByHop nominating).header.entry (str "Te") = none ∧
    (sanitizeHopByHop nominating).header.entry (str "Accept") = some [str "a", str "b"] := by
  have hc : TokenKeys nominating.header := by
    intro k hk
    have hm : k ∈ nominating.header.fields.keys := by
      rw [← AList.mem_keys]
      exact not_not.mp (mt AList.lookup_eq_none.mpr hk)
    have hall : nominating.header.fields.keys.all (fun k => canonicalKey k = k ∧ k.all isTokenByte = true) = true := by
      decide +kernel
    simpa using List.all_eq_true.mp hall k hm
  have hhop : HopByHop nominating (str "X-Hop") :=
    ⟨str "x-hOP", .inr (mem_listMembers.mp (by decide +kernel)), by decide +kernel⟩
  have hte : HopByHop nominating (str "Te") := ⟨str "TE", .inl (by decide), by decide +kernel⟩
  obtain ⟨hremoved, -⟩ := hopByHop_removed_exactly hc
  exact ⟨hc, (hremoved _).mpr (.inr (.inl hhop)), (hremoved _).mpr (.inr (.inl hte)),
    by decide +kernel⟩

end SP.Proof
