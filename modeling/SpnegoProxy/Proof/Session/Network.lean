import Mathlib.Data.List.Perm.Subperm
import SpnegoProxy.Proof.Session.Validation
import SpnegoProxy.Spec.Network

/-!
# No request goes round in circles

Each proxy adds its pseudonym to `Via` behind what was there
(`Outbound.via`), so the field names every proxy on the way once the first has
written it, and the check of `validateRequest` finds any of them again
(`journey_never_returns`).
-/

namespace SP.Proof

open SP.Go SP.Impl SP.Spec

variable {cfg : Config} {env : Env}

/-! ## The request that is being served -/

theorem lastRead_of_ne {tr : List Event} {e : Event} (h : requestRead e = none) :
    lastRead (tr ++ [e]) = lastRead tr := by
  simp [lastRead, h]

/-- A session serves the request that it read last. -/
theorem Path.lastRead_eq {tr : List Event} {raw : Request} (h : Path cfg env tr (.held raw)) :
    lastRead tr = some raw := by
  generalize hst : Stage.held raw = st at h
  induction h with
  | start => cases hst
  | snoc _ hs ih =>
    subst hst
    cases hs with
    | read => simp [lastRead, requestRead]
    | token | dialled => rw [lastRead_of_ne rfl]; exact ih rfl

/-- A request is written out for the one read last. -/
theorem sent_for_lastRead {n : Nat} {p q : List Event} {c : ConnId} {req : Request}
    {answer : List Wire} (h : (run cfg env n).trace = p ++ .sent c req answer :: q) :
    ∃ raw r, lastRead p = some raw ∧ verdict cfg raw = .proceed r ∧ Outbound cfg r req := by
  obtain ⟨st, hp, -⟩ := run_path cfg env n
  obtain ⟨st₁, st₂, hp₁, hs, -⟩ := hp.split h
  cases hs with
  | sent hv ho => exact ⟨_, _, hp₁.lastRead_eq, hv, ho⟩

/-! ## What a proxy does to `Via` -/

/-- The `Via` field that `injectVia` makes of one. -/
def viaWith (cfg : Config) (proto via : Str) : Str :=
  if via ≠ [] then via ++ str ", " ++ (proto ++ str " " ++ cfg.pseudonym) else proto ++ str " " ++ cfg.pseudonym

theorem withVia_via (r : Request) :
    (withVia cfg r).header.get headerVia = viaWith cfg r.proto (r.header.get headerVia) := by
  have hentry := appendHeaderValue_entry r.header headerVia (r.proto ++ str " " ++ cfg.pseudonym)
  rw [Header.get, Header.values]
  show (((appendHeaderValue r.header headerVia (r.proto ++ str " " ++ cfg.pseudonym)).entry
    (canonicalKey headerVia)).getD []).headD [] = _
  rw [hentry]
  rfl

/-- Neither the forwarding headers nor a token touch `Via`. -/
theorem Outbound.via {r req : Request} (h : Outbound cfg r req) :
    req.header.get headerVia = viaWith cfg r.proto (r.header.get headerVia) := by
  have hfwd (id : Str) : (forwarded cfg id r).header.get headerVia = r.header.get headerVia :=
    get_congr ((injectForwardingHeaders_touches r cfg.clientAddr cfg.forwarding id).entry _ (by decide))
  have hproto (id : Str) : (forwarded cfg id r).proto = r.proto := rfl
  cases h with
  | direct => exact withVia_via r
  | reused id => rw [withVia_via, hfwd, hproto]
  | first id token =>
    have hauth : (authorised token (forwarded cfg id r)).header.get headerVia = r.header.get headerVia :=
      (get_congr (Header.entry_set_ne (by decide))).trans (hfwd id)
    rw [withVia_via, hauth]
    rfl

/-- `Via` of what is written names the proxy. -/
theorem Outbound.names {r req : Request} (h : Outbound cfg r req) :
    cfg.pseudonym <:+: req.header.get headerVia ∧ req.header.get headerVia ≠ [] := by
  rw [h.via, viaWith]
  have hsuf : cfg.pseudonym <:+ r.proto ++ str " " ++ cfg.pseudonym := List.suffix_append _ _
  have hspace : str " " ≠ [] := by decide
  split
  · exact ⟨(hsuf.trans (List.suffix_append _ _)).isInfix, by simp [hspace]⟩
  · exact ⟨hsuf.isInfix, by simp [hspace]⟩

/-- What `Via` said is kept, if `Connection` does not name it. -/
theorem Outbound.keeps {raw r req : Request} (hv : verdict cfg raw = .proceed r)
    (h : Outbound cfg r req) (hk : canonicalKey headerVia ∉
      (listMembers ((raw.header.entry headerConnection).getD [])).map canonicalKey) :
    raw.header.get headerVia <:+: req.header.get headerVia := by
  obtain ⟨r₀, hr₀, rfl⟩ := verdict_proceed cfg hv
  obtain ⟨-, htouches, -⟩ := applyMaxForwards_entry hr₀
  have hget : (sanitizeHopByHop r₀).header.get headerVia = raw.header.get headerVia := by
    refine get_congr ((sanitizeHopByHop_entry r₀ _).trans ?_)
    rw [if_neg, htouches.entry _ (by decide)]
    rintro (hm | ⟨hm, -⟩)
    · rw [hopByHopNames,
      htouches.entry headerConnection (by decide), List.map_append, List.mem_append] at hm
      exact hm.elim hk (by decide)
    · exact absurd hm (by decide)
  rw [h.via, hget, viaWith]
  split
  · exact ((List.prefix_append _ _).trans (List.prefix_append _ _)).isInfix
  · rename_i hnil
    rw [not_not.mp hnil]
    exact List.nil_infix

/-! ## Journeys -/

/-- A proxy that lets a request go on was not named in its `Via`. -/
theorem not_named_of_proceed {raw r : Request} (h : verdict cfg raw = .proceed r)
    (hne : raw.header.get headerVia ≠ []) : ¬ cfg.pseudonym <:+: raw.header.get headerVia := by
  intro hin
  rw [verdict, if_pos ⟨hne, decide_eq_true hin⟩] at h
  cases h

theorem forwards_outbound {h : Passage} (hf : h.Forwards) :
    ∃ r, verdict h.cfg h.raw = .proceed r ∧ Outbound h.cfg r h.req := by
  obtain ⟨env, n, p, q, c, answer, htr, hlast⟩ := hf
  obtain ⟨raw, r, hraw, hv, ho⟩ := sent_for_lastRead htr
  rw [hlast] at hraw
  obtain rfl := Option.some.inj hraw
  exact ⟨r, hv, ho⟩

/-- What the last proxy of a journey wrote names all of them, and they are
different. -/
structure Distinct (hs : List Passage) (req : Request) : Prop where
  nodup : (hs.map (·.cfg.pseudonym)).Nodup
  named : ∀ h ∈ hs, h.cfg.pseudonym <:+: req.header.get headerVia
  via : req.header.get headerVia ≠ []

theorem Distinct.first {h : Passage} (hf : h.Forwards) : Distinct [h] h.req := by
  obtain ⟨r, -, ho⟩ := forwards_outbound hf
  refine ⟨by simp, ?_, ho.names.2⟩
  intro h' hm
  rw [List.mem_singleton.mp hm]
  exact ho.names.1

theorem Distinct.next {hs : List Passage} {req : Request} {h : Passage} (hd : Distinct hs req)
    (hw : Delivered req h.raw) (hf : h.Forwards) : Distinct (hs ++ [h]) h.req := by
  obtain ⟨r, hv, ho⟩ := forwards_outbound hf
  have hne : h.raw.header.get headerVia ≠ [] := by
    intro hnil
    exact hd.via (List.eq_nil_of_infix_nil (hnil ▸ hw.via))
  have hin : ∀ h' ∈ hs, h'.cfg.pseudonym <:+: h.raw.header.get headerVia :=
    fun h' hm => (hd.named h' hm).trans hw.via
  refine ⟨?_, ?_, ho.names.2⟩
  · rw [List.map_append, List.map_singleton, List.nodup_append]
    refine ⟨hd.nodup, by simp, ?_⟩
    intro a ha b hb
    obtain ⟨h', hm, rfl⟩ := List.mem_map.mp ha
    rw [List.mem_singleton.mp hb]
    exact fun he => not_named_of_proceed hv hne (he ▸ hin h' hm)
  · intro h' hm
    rcases List.mem_append.mp hm with hm | hm
    · exact (hin h' hm).trans (ho.keeps hv hw.kept)
    · rw [List.mem_singleton.mp hm]
      exact ho.names.1

theorem journey_distinct {hs : List Passage} (h : Journey hs) :
    ∃ last, hs.getLast? = some last ∧ Distinct hs last.req := by
  induction h with
  | first hf => exact ⟨_, rfl, .first hf⟩
  | next _ hw hf ih =>
    obtain ⟨last, hlast, hd⟩ := ih
    rw [List.getLast?_concat] at hlast
    obtain rfl := Option.some.inj hlast
    exact ⟨_, List.getLast?_concat, hd.next hw hf⟩

/-- A request passes no proxy twice, whatever the client sent and however it
was routed: the proxies of a journey have different pseudonyms, so there are
no more of them than pseudonyms in the network; and each of them answers the
request with `errProxyLoopDetected` when it comes back. -/
theorem journey_never_returns {hs : List Passage} {last : Passage} (h : Journey (hs ++ [last]))
    {names : List Str} (hnames : ∀ h ∈ hs ++ [last], h.cfg.pseudonym ∈ names) :
    ((hs ++ [last]).map (·.cfg.pseudonym)).Nodup ∧ (hs ++ [last]).length ≤ names.length ∧
    ∀ raw, Delivered last.req raw → ∀ h ∈ hs ++ [last],
      verdict h.cfg raw = .reject errProxyLoopDetected := by
  obtain ⟨last', hlast, hd⟩ := journey_distinct h
  rw [List.getLast?_concat] at hlast
  obtain rfl := Option.some.inj hlast
  refine ⟨hd.nodup, ?_, fun raw hw h' hm => ?_⟩
  · have hsub : (hs ++ [last]).map (·.cfg.pseudonym) ⊆ names := by
      intro s hs'
      obtain ⟨h', hm, rfl⟩ := List.mem_map.mp hs'
      exact hnames h' hm
    simpa using (List.subperm_of_subset hd.nodup hsub).length_le
  · have hne : raw.header.get headerVia ≠ [] :=
    fun hnil => hd.via (List.eq_nil_of_infix_nil (hnil ▸ hw.via))
    rw [verdict, if_pos ⟨hne, decide_eq_true ((hd.named h' hm).trans hw.via)⟩]

/-- What a session writes for its first request, if nothing goes wrong. -/
def passedOn (cfg : Config) (raw : Request) : Request :=
  withVia cfg (authorised (str "dG9r") (forwarded cfg [] (sanitizeHopByHop raw)))

/-- A session in which nothing goes wrong. -/
def passing (cfg : Config) (raw : Request) : List Event :=
  (run cfg (scripted [raw] (str "dG9r") [.head (plainResponse 200)]) 1).trace

def undisturbed (cfg : Config) (raw : Request) : Passage := ⟨cfg, raw, passedOn cfg raw⟩

theorem undisturbed_forwards {cfg : Config} {raw : Request}
    (hs : (sentAt (passing cfg raw) 3).map (fun x => x.2.1) = some (passedOn cfg raw))
    (hl : lastRead ((passing cfg raw).take 3) = some raw) : (undisturbed cfg raw).Forwards := by
  obtain ⟨⟨c, req, answer⟩, hx, rfl⟩ := Option.map_eq_some_iff.mp hs
  exact ⟨_, _, _, _, c, answer, split_of_sentAt hx, hl⟩

/-- A request for the ring of two proxies. -/
def ringGet : Request := plainGet (str "a.org") ⟨∅⟩

def ringFirst : Passage := undisturbed plainConfig ringGet

def ringSecond : Passage := undisturbed { plainConfig with pseudonym := str "py" } ringFirst.req

/-- Back at the first proxy, the request is answered. -/
theorem journey_never_returns_ring :
    Journey ([ringFirst] ++ [ringSecond]) ∧ Delivered ringSecond.req ringSecond.req ∧
    verdict ringFirst.cfg ringSecond.req = .reject errProxyLoopDetected := by
  have hfirst : Journey ([] ++ [ringFirst]) := .first (undisturbed_forwards rfl rfl)
  have hjourney : Journey ([ringFirst] ++ [ringSecond]) :=
    hfirst.next ⟨List.infix_rfl, by decide +kernel⟩ (undisturbed_forwards rfl rfl)
  have hback : Delivered ringSecond.req ringSecond.req := ⟨List.infix_rfl, by decide +kernel⟩
  have hnames : ∀ h ∈ [ringFirst] ++ [ringSecond], h.cfg.pseudonym ∈ [str "px", str "py"] := by
    rintro h hm
    rcases List.mem_append.mp hm with hm | hm <;> rw [List.mem_singleton.mp hm] <;> decide
  obtain ⟨-, -, hloop⟩ := journey_never_returns hjourney hnames
  exact ⟨hjourney, hback, hloop _ hback ringFirst (by simp)⟩

end SP.Proof
