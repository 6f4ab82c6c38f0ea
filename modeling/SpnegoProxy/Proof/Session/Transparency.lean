import SpnegoProxy.Proof.Session.Lifecycle
import SpnegoProxy.Proof.Session.Network
import SpnegoProxy.Spec.Relaying

/-!
# What reaches the next hop of a request

A session hands a request to `net/http` as it read it, up to a few fields:
those of the last hop are gone, and those that a proxy has to change are changed
(`Transparent`). Which these are depends on where the connection goes: a host
that is reached directly is told nothing of the client.
-/

namespace SP.Proof

open SP.Go SP.Impl SP.Impl.Life SP.Spec Life

variable {cfg : Config} {env : Env}

/-! ## What the log says of the request and of the connections -/

/-- The request held is the one read last. -/
theorem Life.Leased.lastRead_eq {log : List Entry} {s : Lease} (h : Leased cfg log s) :
    lastRead (log.filterMap performed) = s.raw := by
  induction h with
  | start => rfl
  | snoc _ hs ih =>
    rw [List.filterMap_append]
    cases hs with
    | read => simp [lastRead, performed, requestRead]
    | closeCurrent | closeKept => exact (congrArg lastRead (List.append_nil _)).trans ih
    | _ => exact (lastRead_of_ne rfl).trans ih

/-- The connections held were dialled for what they are used for. -/
structure DialledFor (log : List Entry) (s : Lease) : Prop where
  current : ∀ c t, s.current = some (c, t) → .dial c t ∈ log.filterMap performed
  kept : ∀ c, s.kept = some c → .dial c .upstream ∈ log.filterMap performed

theorem Life.Leased.dialledFor {log : List Entry} {s : Lease} (h : Leased cfg log s) :
    DialledFor log s := by
  induction h with
  | start => exact ⟨fun _ _ h => (by cases h), fun _ h => (by cases h)⟩
  | snoc _ hs ih =>
    have hmem {log : List Entry} {e : Entry} {ev : Event} (h : ev ∈ log.filterMap performed) :
        ev ∈ (log ++ [e]).filterMap performed := by
      rw [List.filterMap_append]
      exact List.mem_append_left _ h
    have hlast {log : List Entry} {ev : Event} : ev ∈ (log ++ [Entry.event ev]).filterMap performed := by
      rw [List.filterMap_append]
      exact List.mem_append_right _ (List.mem_singleton_self ev)
    refine ⟨fun c t hc => ?_, fun c hk => ?_⟩
    · cases hs with
      | dialTunnel | dialDirect => cases hc; exact hlast
      | closeCurrent => cases hc
      | _ => exact hmem (ih.current c t hc)
    · cases hs with
      | dialKept => cases hk; exact hlast
      | closeKept => cases hk
      | _ => exact hmem (ih.kept c hk)

theorem Life.Leased.split {pre post log : List Entry} {e : Entry} {s : Lease} (h : Leased cfg log s)
    (hlog : log = pre ++ e :: post) : ∃ s₁ s₂, Leased cfg pre s₁ ∧ s₁.Step cfg e s₂ := by
  have hp : pre ++ [e] <+: log := ⟨post, by rw [hlog, List.append_assoc]; rfl⟩
  obtain ⟨s₂, h₂⟩ := h.prefix hp
  generalize hpe : pre ++ [e] = l at h₂
  cases h₂ with
  | start => simp at hpe
  | snoc h₁ hs =>
    obtain ⟨rfl, he⟩ := List.append_inj' hpe rfl
    cases he
    exact ⟨_, _, h₁, hs⟩

/-- A session keeps to the steps. -/
theorem run_leased (cfg : Config) (env : Env) (n : Nat) :
    ∃ log s, Leased cfg log s ∧ log.filterMap performed = (run cfg env n).trace := by
  have hstart : Has cfg {} {} := ⟨.start, rfl, rfl, rfl⟩
  have hreleased : WP (session cfg env n) {} fun _ l' => ∃ s', Released cfg l' s' :=
    session_released n ⟨hstart, rfl, fun _ => rfl⟩
  obtain ⟨⟨s, hs⟩, hw⟩ := hreleased.and (session_world cfg env n)
  exact ⟨_, s, hs.leased, hs.trace.trans (congrArg World.trace hw)⟩

/-- The step of an event of the session. -/
theorem run_step {n : Nat} {p q : List Event} {e : Event}
    (h : (run cfg env n).trace = p ++ e :: q) :
    ∃ log s s', log.filterMap performed = p ∧ Leased cfg log s ∧ s.Step cfg (.event e) s' := by
  obtain ⟨log, s, hlog, htrace⟩ := run_leased cfg env n
  obtain ⟨l₁, l₂, rfl, hl₁, hl₂⟩ := List.filterMap_eq_append_iff.mp (htrace.trans h)
  obtain ⟨l₃, x, l₄, rfl, hl₃, hx, -⟩ := List.filterMap_eq_cons_iff.mp hl₂
  have hx : x = .event e := by
    cases x with
    | event e' => exact congrArg Entry.event (Option.some.inj hx)
    | _ => cases hx
  subst hx
  obtain ⟨s₁, s₂, h₁, hs⟩ := hlog.split (List.append_assoc l₁ l₃ _).symm
  refine ⟨l₁ ++ l₃, s₁, s₂, ?_, h₁, hs⟩
  rw [List.filterMap_append, hl₁, List.filterMap_eq_nil_iff.mpr hl₃, List.append_nil]

/-! ## Transparency -/

theorem transparent_touches {names names' : List Str} {raw r : Request} {header : Header}
    (h : Transparent names raw r) (ht : Touches names' r.header header) :
    Transparent (names ++ names') raw { r with header } := by
  have hnot {k : Str} (hk : k ∉ (names ++ names').map canonicalKey) :
      k ∉ names.map canonicalKey ∧ k ∉ names'.map canonicalKey := by
    rwa [List.map_append, List.mem_append, not_or] at hk
  refine ⟨h.method, h.host, h.proto, h.close, h.framing, h.body, h.trailer, fun k hc hb hk hw => ?_,
    fun k hc hb hk hw => ?_⟩
  · exact (ht.entry k (hnot hk).2).trans (h.kept k hc hb (hnot hk).1 hw)
  · exact (ht.entry k (hnot hk).2).trans (h.withheld k hc hb (hnot hk).1 hw)

theorem applyMaxForwards_counts {req r : Request} (h : applyMaxForwards req = some r) {k : Str}
    (hk : k ∉ (countedDown req).map canonicalKey) : r.header.entry k = req.header.entry k := by
  by_cases hm : req.method = methodTrace ∨ req.method = methodOptions
  · rw [countedDown, if_pos hm] at hk
    exact (applyMaxForwards_entry h).2.1.entry k hk
  · rw [applyMaxForwards, if_pos (not_or.mp hm)] at h
    cases h
    rfl

/-- The validation keeps the request. -/
theorem verdict_transparent {raw r : Request} (hv : verdict cfg raw = .proceed r) :
    Transparent (countedDown raw) raw r := by
  obtain ⟨r₀, hr₀, rfl⟩ := verdict_proceed cfg hv
  obtain ⟨header, rfl⟩ := applyMaxForwards_frame hr₀
  have hentry (k : Str) (hk : k ∉ (countedDown raw).map canonicalKey) : header.entry k = raw.header.entry k :=
    applyMaxForwards_counts hr₀ hk
  have hnot {name : Str} (hne : canonicalKey name ≠ canonicalKey headerMaxForwards) :
      canonicalKey name ∉ (countedDown raw).map canonicalKey := by
    rw [countedDown]
    split
    · simpa using hne
    · exact List.not_mem_nil
  have hconn : header.entry headerConnection = raw.header.entry headerConnection :=
    hentry (canonicalKey headerConnection) (hnot (by decide))
  have hlen : header.get headerContentLength = raw.header.get headerContentLength :=
    get_congr (hentry _ (hnot (by decide)))
  have hhop (k : Str) : HopByHop { raw with header } k ↔ HopByHop raw k := by
    simp only [HopByHop, hconn]
  have hdrops : DropsLength { raw with header } ↔ DropsLength raw := by
    simp only [DropsLength, hlen]
  have hremoved {k : Str} (hc : canonicalKey k = k) (hb : k.all isTokenByte = true) :
      (k ∈ (hopByHopNames { raw with header }).map canonicalKey ∨
        (k = canonicalKey headerContentLength ∧ DropsLength { raw with header })) ↔ Withheld raw k := by
    rw [mem_hopByHopNames hc hb, hhop, hdrops, Withheld]
  refine ⟨rfl, rfl, rfl, rfl, rfl, rfl, rfl, fun k hc hb hk hw => ?_, fun k hc hb hk hw => ?_⟩
  · rw [sanitizeHopByHop_entry, if_neg (mt (hremoved hc hb).mp hw)]
    exact hentry k hk
  · rw [sanitizeHopByHop_entry, if_pos ((hremoved hc hb).mpr hw)]

theorem transparent_mono {names names' : List Str} {raw r : Request} (h : Transparent names raw r)
    (hs : names ⊆ names') : Transparent names' raw r := by
  have hnot {k : Str} (hk : k ∉ names'.map canonicalKey) : k ∉ names.map canonicalKey :=
    mt (List.map_subset _ hs ·) hk
  exact ⟨h.method, h.host, h.proto, h.close, h.framing, h.body, h.trailer,
    fun k hc hb hk => h.kept k hc hb (hnot hk),
    fun k hc hb hk => h.withheld k hc hb (hnot hk)⟩

theorem withVia_transparent {names : List Str} {raw r : Request} (h : Transparent names raw r) :
    Transparent (names ++ [headerVia]) raw (withVia cfg r) :=
      transparent_touches h (injectVia_touches _ _ _)

theorem forwarded_transparent {names : List Str} {raw r : Request} (id : Str)
    (h : Transparent names raw r) :
    Transparent (names ++ forwardingHeaders) raw (forwarded cfg id r) :=
  transparent_touches h (injectForwardingHeaders_touches _ _ _ _)

theorem authorised_transparent {names : List Str} {raw r : Request} (token : Str)
    (h : Transparent names raw r) :
    Transparent (names ++ [headerProxyAuthorization]) raw (authorised token r) :=
  transparent_touches h (.set (List.mem_singleton_self _))

/-- Every request that a session hands to `Request.Write` or `WriteProxy`, on
whichever connection, is the one it read last: with the same method, host,
protocol, framing and kind of body, without the fields of the last hop, and with
every other field but those that the proxy changes on this route. What `net/http`
adds when it writes the request is not part of it. -/
theorem requests_relayed_whole {n : Nat} {p q : List Event} {c : ConnId} {req : Request}
    {answer : List Wire} (h : (run cfg env n).trace = p ++ .sent c req answer :: q) :
    ∃ raw t, lastRead p = some raw ∧ .dial c t ∈ p ∧ Transparent (rewritten raw t) raw req := by
  obtain ⟨log, s, s', rfl, hlog, hs⟩ := run_step h
  have hdial := hlog.dialledFor
  rw [hlog.lastRead_eq]
  have hupstream {c : ConnId} (hu : s.Upstream c) : .dial c .upstream ∈ log.filterMap performed := by
    cases hu with
    | current hc => exact hdial.current c _ hc
    | kept _ hk => exact hdial.kept c hk
  cases hs with
  | sentDirect hc hraw hv =>
    exact ⟨_, _, hraw, hdial.current c _ hc, withVia_transparent (verdict_transparent hv)⟩
  | sentFirst hu hraw hv =>
    refine ⟨_, _, hraw, hupstream hu, ?_⟩
    exact withVia_transparent (authorised_transparent _ (forwarded_transparent _ (verdict_transparent hv)))
  | sentAgain hu hraw hv =>
    refine ⟨_, _, hraw, hupstream hu, ?_⟩
    refine transparent_mono (withVia_transparent (forwarded_transparent _ (verdict_transparent hv))) ?_
    refine List.append_subset.mpr ⟨fun k hk => ?_, List.subset_append_right _ _⟩
    exact List.mem_append_left _ (List.mem_append_left _ hk)

/-- A request with a label for the host and a note for the proxy. -/
def labelledGet : Request :=
  plainGet (str "a.org") ⟨AList.insert (str "X-Label") [str "a"]
    (AList.insert (str "X-Note") [str "b"] (AList.insert headerConnection [str "x-note"] ∅))⟩

theorem requests_relayed_whole_labelled :
    ∃ t, .dial 0 t ∈ (passing plainConfig labelledGet).take 3 ∧
      Transparent (rewritten labelledGet t) labelledGet (passedOn plainConfig labelledGet) := by
  have hlast : lastRead ((passing plainConfig labelledGet).take 3) = some labelledGet := rfl
  have hsent : sentAt (passing plainConfig labelledGet) 3 =
      some (0, passedOn plainConfig labelledGet, [.head (plainResponse 200)]) := rfl
  obtain ⟨raw, t, hraw, hdial, htr⟩ := requests_relayed_whole (split_of_sentAt hsent)
  obtain rfl := Option.some.inj (hlast.symm.trans hraw)
  exact ⟨t, hdial, htr⟩

end SP.Proof
