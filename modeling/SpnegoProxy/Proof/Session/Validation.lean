import SpnegoProxy.Framework.Machine
import SpnegoProxy.Proof.Headers
import SpnegoProxy.Proof.Session.Policy
import SpnegoProxy.Proof.Session.Stages

/-!
# The validation pipeline

It runs once for each request, and its loop detection looks at one line.

A session at the stage `held raw` has read `raw` last, and written nothing
out since. The only step that writes a request out leaves that stage, and
what it writes is what one `validateRequest` made of `raw`, with the fields of
its route: so no request skips the pipeline, and none goes through it twice,
in whichever loop it was read and however often the session changes loops.
-/

namespace SP.Proof

open SP.Go SP.Impl SP.Spec

/-- An event that reads or writes out a request. -/
def isTurn : Event → Bool
  | .read _ => true
  | .sent _ _ _ => true
  | _ => false

/-- `raw` was read last, and nothing was written out since. -/
def LastRead (tr : List Event) (raw : Request) : Prop :=
  ∃ p q, tr = p ++ .read (.ok raw) :: q ∧ ∀ e ∈ q, isTurn e = false

/-- `Max-Forwards` is the same, gone (if `Connection` named it), or one less. -/
def DecrementedOnce (h h' : Header) : Prop :=
  h'.entry headerMaxForwards = none ∨ h'.entry headerMaxForwards = h.entry headerMaxForwards ∨
    ∃ n, atoi (h.get headerMaxForwards) = some n ∧ 0 < n ∧
      h'.entry headerMaxForwards = some [itoa (n - 1)]

/-- The `Via` entry of this proxy on the request `raw`. -/
def ownVia (cfg : Config) (raw : Request) : Str := raw.proto ++ str " " ++ cfg.pseudonym

/-- `Via` is the chain that `raw` came with (unless `Connection` named it), which
does not have this proxy in it, and then the entry of this proxy. -/
def ViaOnce (cfg : Config) (raw req : Request) : Prop :=
  ∃ chain, (chain = [] ∨ (chain = raw.header.get headerVia ∧ contains chain cfg.pseudonym = false)) ∧
    req.header.entry headerVia = some [if chain ≠ [] then chain ++ str ", " ++ ownVia cfg raw else ownVia cfg raw]

/-- A request that is written out after `tr` went through the pipeline once. -/
structure Piped (cfg : Config) (tr : List Event) (raw r req : Request) : Prop where
  read : LastRead tr raw
  validated : verdict cfg raw = .proceed r
  outbound : Outbound cfg r req
  maxForwards : DecrementedOnce raw.header req.header
  via : ViaOnce cfg raw req

/-! ## What the pipeline makes of the header -/

theorem canonical_maxForwards : canonicalKey headerMaxForwards = headerMaxForwards :=
  by decide +kernel

theorem canonical_via : canonicalKey headerVia = headerVia := by decide +kernel

/-- `applyMaxForwards` changes `Max-Forwards` only, and by one. -/
theorem applyMaxForwards_entry {raw r : Request} (h : applyMaxForwards raw = some r) :
    r.proto = raw.proto ∧ Touches [headerMaxForwards] raw.header r.header ∧
      (r.header.entry headerMaxForwards = raw.header.entry headerMaxForwards ∨
        ∃ n, atoi (raw.header.get headerMaxForwards) = some n ∧ 0 < n ∧
          r.header.entry headerMaxForwards = some [itoa (n - 1)]) := by
  simp only [applyMaxForwards] at h
  split_ifs at h with h₁ h₂
  · cases h; exact ⟨rfl, .rfl', .inl rfl⟩
  · cases h; exact ⟨rfl, .rfl', .inl rfl⟩
  · split at h
    · cases h; exact ⟨rfl, .rfl', .inl rfl⟩
    · rename_i n hn
      split_ifs at h with h₃
      cases h
      refine ⟨rfl, .set (List.mem_singleton_self _), .inr ⟨n, hn, by omega, ?_⟩⟩
      conv_lhs => rw [← canonical_maxForwards]
      exact Header.entry_set_self

/-- What is left of a field after the hop-by-hop fields were removed. -/
theorem sanitizeHopByHop_keeps (req : Request) (k : Str) :
    (sanitizeHopByHop req).header.entry k = none ∨ (sanitizeHopByHop req).header.entry k = req.header.entry k := by
  rw [sanitizeHopByHop_entry]
  split
  · exact .inl rfl
  · exact .inr rfl

/-- A request that passes the loop detection does not have this proxy in its chain. -/
theorem verdict_via {cfg : Config} {raw r : Request} (h : verdict cfg raw = .proceed r) :
    raw.header.get headerVia = [] ∨ contains (raw.header.get headerVia) cfg.pseudonym = false := by
  by_contra hn
  rw [not_or, Bool.not_eq_false] at hn
  rw [verdict, if_pos hn] at h
  cases h

section

variable {cfg : Config} {raw r req : Request}

/-- The route adds its own fields: `Max-Forwards` and the chain of `Via` are as they were. -/
theorem Outbound.frame (h : Outbound cfg r req) :
    req.header.entry headerMaxForwards = r.header.entry headerMaxForwards ∧
    ∃ x : Request, x.proto = r.proto ∧ x.header.entry headerVia = r.header.entry headerVia ∧
      req = withVia cfg x := by
  have hvia : ∀ x : Request,
    (withVia cfg x).header.entry headerMaxForwards = x.header.entry headerMaxForwards :=
    fun x => (injectVia_touches x.header x.proto cfg.pseudonym).entry _ (by decide +kernel)
  have hfwd : ∀ id, Touches forwardingHeaders r.header (forwarded cfg id r).header := fun id =>
    injectForwardingHeaders_touches r cfg.clientAddr cfg.forwarding id
  have hmf : ∀ id,
    (forwarded cfg id r).header.entry headerMaxForwards = r.header.entry headerMaxForwards :=
    fun id => (hfwd id).entry _ (by decide +kernel)
  have hv : ∀ id, (forwarded cfg id r).header.entry headerVia = r.header.entry headerVia :=
    fun id => (hfwd id).entry _ (by decide +kernel)
  have hauth : ∀ (x : Request) (token k : Str), k ≠ canonicalKey headerProxyAuthorization →
      (authorised token x).header.entry k = x.header.entry k :=
        fun _ _ _ hk => Header.entry_set_ne hk
  cases h with
  | direct => exact ⟨hvia r, r, rfl, rfl, rfl⟩
  | reused id => exact ⟨(hvia _).trans (hmf id), forwarded cfg id r, rfl, hv id, rfl⟩
  | first id token =>
    refine ⟨(hvia _).trans ((hauth _ _ _ (by decide +kernel)).trans (hmf id)),
      authorised token (forwarded cfg id r), rfl, ?_, rfl⟩
    exact (hauth _ _ _ (by decide +kernel)).trans (hv id)

theorem decrementedOnce (hv : verdict cfg raw = .proceed r) (ho : Outbound cfg r req) :
    DecrementedOnce raw.header req.header := by
  obtain ⟨r₀, hmf, rfl⟩ := verdict_proceed cfg hv
  rw [DecrementedOnce, ho.frame.1]
  rcases sanitizeHopByHop_keeps r₀ headerMaxForwards with hn | he
  · exact .inl hn
  · rw [he]
    exact .inr (applyMaxForwards_entry hmf).2.2

/-- What is left of the chain after the validation. -/
theorem verdict_chain (hv : verdict cfg raw = .proceed r) :
    r.proto = raw.proto ∧
      (r.header.get headerVia = [] ∨ r.header.get headerVia = raw.header.get headerVia) := by
  obtain ⟨r₀, hmf, rfl⟩ := verdict_proceed cfg hv
  obtain ⟨hp, ht, -⟩ := applyMaxForwards_entry hmf
  refine ⟨hp, ?_⟩
  have hvia : r₀.header.entry (canonicalKey headerVia) = raw.header.entry (canonicalKey headerVia) :=
    ht.entry _ (by decide +kernel)
  rcases sanitizeHopByHop_keeps r₀ (canonicalKey headerVia) with hn | he
  · exact .inl (by rw [Header.get, Header.values, hn]; rfl)
  · exact .inr (by rw [Header.get, Header.values, he, hvia]; rfl)

theorem viaOnce (hv : verdict cfg raw = .proceed r) (ho : Outbound cfg r req) :
    ViaOnce cfg raw req := by
  obtain ⟨x, hp, hx, rfl⟩ := ho.frame.2
  obtain ⟨hp', hc⟩ := verdict_chain hv
  have hget : x.header.get headerVia = r.header.get headerVia := by
    rw [Header.get, Header.values, canonical_via, hx, Header.get, Header.values, canonical_via]
  refine ⟨r.header.get headerVia, ?_, ?_⟩
  · rcases hc with hc | hc
    · exact .inl hc
    · rcases verdict_via hv with hn | hn
      · exact .inl (hc.trans hn)
      · exact .inr ⟨hc, by rw [hc]; exact hn⟩
  · have he := appendHeaderValue_entry x.header headerVia (ownVia cfg raw)
    rw [canonical_via, hget] at he
    show (appendHeaderValue x.header headerVia (x.proto ++ str " " ++ cfg.pseudonym)).entry headerVia = _
    rw [hp, hp']
    exact he

end

/-! ## Whole runs -/

section

variable {cfg : Config} {env : Env} {tr : List Event} {st st' : Stage} {e : Event}

theorem LastRead.snoc {raw : Request} (h : LastRead tr raw) (he : isTurn e = false) :
    LastRead (tr ++ [e]) raw := by
  obtain ⟨p, q, rfl, hq⟩ := h
  refine ⟨p, q ++ [e], by simp, fun e' he' => ?_⟩
  rcases List.mem_append.mp he' with he' | he'
  · exact hq e' he'
  · rw [List.mem_singleton.mp he', he]

/-- What holds at every stage. -/
structure Pipeline (cfg : Config) (tr : List Event) (st : Stage) : Prop where
  held : ∀ {raw}, st = .held raw → LastRead tr raw
  sent : ∀ {p c req answer q}, tr = p ++ .sent c req answer :: q → ∃ raw r, Piped cfg p raw r req
  /-- After a request that did not pass, nothing is written out. -/
  rejected : ∀ {p raw q}, tr = p ++ .read (.ok raw) :: q → (∀ r, verdict cfg raw ≠ .proceed r) →
    (∀ e ∈ q, requestOf e = none) ∧ (st = .held raw ∨ st = .over)

theorem Pipeline.step (h : Pipeline cfg tr st) (hs : st.Step cfg env tr e st') :
    Pipeline cfg (tr ++ [e]) st' := by
  refine ⟨fun {raw} hr => ?_, fun {p c req answer q} ht => ?_, fun {p raw q} ht hv => ?_⟩
  · subst hr
    cases hs with
    | read => exact ⟨tr, [], rfl, by simp⟩
    | token | dialled => exact (h.held rfl).snoc rfl
  · rcases snoc_split.mp ht with ⟨rfl, rfl, -⟩ | ⟨q', -, ht'⟩
    · cases hs with
      | @sent raw r _ _ _ hv ho => exact ⟨raw, r, h.held rfl, hv, ho, decrementedOnce hv ho, viaOnce hv ho⟩
    · exact h.sent ht'
  · rcases snoc_split.mp ht with ⟨rfl, rfl, rfl⟩ | ⟨q', rfl, ht'⟩
    · cases hs with
      | read => exact ⟨by simp, .inl rfl⟩
    · obtain ⟨hq, hst⟩ := h.rejected ht' hv
      have hend : requestOf e = none ∧ st' = .over := by
        rcases hst with rfl | rfl
        · cases hs with
          | answered | rejected => exact ⟨rfl, rfl⟩
          | mismatched hp | token hp | tokenFailed hp | dialled hp | dialFailed hp | sent hp | connected hp
          | connectFailed hp => exact absurd hp (hv _)
        · cases hs
      refine ⟨fun e' he' => ?_, .inr hend.2⟩
      rcases List.mem_append.mp he' with he' | he'
      · exact hq e' he'
      · rw [List.mem_singleton.mp he', hend.1]

theorem Path.pipeline (h : Path cfg env tr st) : Pipeline cfg tr st := by
  induction h with
  | start => exact ⟨fun h => (nomatch h), fun h => by simp at h, fun h => by simp at h⟩
  | snoc _ hs ih => exact ih.step hs

end

/-- In every run, every request that is written out went through the pipeline
exactly once since it was read, and none that was rejected is written out. -/
theorem pipeline_once (cfg : Config) (env : Env) (n : Nat) :
    (∀ p c req answer q, (run cfg env n).trace = p ++ .sent c req answer :: q → ∃ raw r, Piped cfg p raw r req) ∧
    ∀ p raw q, (run cfg env n).trace = p ++ .read (.ok raw) :: q →
      (∀ r, verdict cfg raw ≠ .proceed r) →
      ∀ e ∈ q, requestOf e = none := by
  obtain ⟨st, hp, -⟩ := run_path cfg env n
  exact ⟨fun _ _ _ _ _ ht => hp.pipeline.sent ht, fun _ _ _ ht hv => (hp.pipeline.rejected ht hv).1⟩

/-- A request for a direct host, and then a `TRACE` that leaves the direct loop. -/
def reroutedTrace : Env :=
  scripted [plainGet (str "a.corp") ⟨∅⟩,
    { plainGet (str "b.org") (Header.set ⟨∅⟩ headerMaxForwards (str "3")) with method := methodTrace }]
    (str "dG9r") [.head (plainResponse 200)]

theorem pipeline_once_reroutedTrace : ∃ p c req answer q raw r,
    (run corpConfig reroutedTrace 3).trace = p ++ .sent c req answer :: q ∧
    Piped corpConfig p raw r req ∧
    req.header.entry headerMaxForwards = some [str "2"] ∧
      req.header.entry headerVia = some [str "HTTP/1.1 px"] := by
  have h : (sentAt (run corpConfig reroutedTrace 3).trace 8).map (fun x =>
      (x.2.1.header.entry headerMaxForwards, x.2.1.header.entry headerVia)) =
      some (some [str "2"], some [str "HTTP/1.1 px"]) := by decide +kernel
  obtain ⟨⟨c, req, answer⟩, hs, he⟩ := Option.map_eq_some_iff.mp h
  obtain ⟨hmf, hvia⟩ := Prod.mk.inj he
  have hsplit := split_of_sentAt hs
  obtain ⟨raw, r, hp⟩ := (pipeline_once corpConfig reroutedTrace 3).1 _ c req answer _ hsplit
  exact ⟨_, c, req, answer, _, raw, r, hsplit, hp, hmf, hvia⟩

/-! ## Loop detection -/

/-- `validateRequest` finds this proxy in the chain. -/
def LoopRejected (cfg : Config) (req : Request) : Prop :=
  verdict cfg req = .reject errProxyLoopDetected

/-- Some `Via` line has the pseudonym in it. -/
def InChain (cfg : Config) (req : Request) : Prop :=
  ∃ line ∈ req.header.values headerVia, contains line cfg.pseudonym = true

/-- The first `Via` line has the pseudonym in it. -/
def LeadsChain (cfg : Config) (req : Request) : Prop :=
  contains (req.header.get headerVia) cfg.pseudonym = true

section

variable {cfg : Config} (hp : cfg.pseudonym ≠ [])
include hp

/-- The loop detection looks at the first line. -/
theorem loopRejected_iff_leadsChain (req : Request) : LoopRejected cfg req ↔ LeadsChain cfg req := by
  constructor
  · intro h
    by_contra hn
    rw [LoopRejected, verdict, if_neg fun hc => hn hc.2] at h
    split at h
    · cases h
    · split at h <;> cases h
  · intro h
    refine if_pos ⟨fun hg => ?_, h⟩
    rw [LeadsChain, hg, contains, decide_eq_true_iff] at h
    exact hp (List.infix_nil.mp h)

/-- A loop is found in a chain however its lines are grouped, if and only if the
first line has the pseudonym whenever some line does; the verdicts on two
requests agree, also if they have the same chain, if and only if the first
lines do. -/
theorem loop_detection_iff :
    (∀ req, (InChain cfg req → LoopRejected cfg req) ↔ (InChain cfg req → LeadsChain cfg req)) ∧
    ∀ req req', (LoopRejected cfg req ↔ LoopRejected cfg req') ↔
      (LeadsChain cfg req ↔ LeadsChain cfg req') := by
  refine ⟨fun req => ?_, fun req req' => ?_⟩
  · rw [loopRejected_iff_leadsChain hp]
  · rw [loopRejected_iff_leadsChain hp, loopRejected_iff_leadsChain hp]

end

/-- A request with the given `Via` lines. -/
def viaGet (lines : List Str) : Request :=
  plainGet (str "h") ⟨AList.insert (canonicalKey headerVia) lines ∅⟩

theorem loop_detection_joined : LoopRejected plainConfig (viaGet [str "1.0 a, 1.1 px"]) := by
  have hp : plainConfig.pseudonym ≠ [] := by decide
  refine ((loop_detection_iff hp).1 _).mpr (fun _ => ?_) ⟨_, List.mem_singleton_self _, by decide +kernel⟩
  unfold LeadsChain
  decide +kernel

/-- The same chain in two lines passes. -/
theorem viaGet_split_passes :
    members (viaGet [str "1.0 a", str "1.1 px"]).header headerVia =
      members (viaGet [str "1.0 a, 1.1 px"]).header headerVia ∧
    LoopRejected plainConfig (viaGet [str "1.0 a, 1.1 px"]) ∧
    InChain plainConfig (viaGet [str "1.0 a", str "1.1 px"]) ∧
    ¬ LoopRejected plainConfig (viaGet [str "1.0 a", str "1.1 px"]) := by
  have hp : plainConfig.pseudonym ≠ [] := by decide
  refine ⟨by decide +kernel, (loopRejected_iff_leadsChain hp _).mpr (by unfold LeadsChain; decide +kernel),
    ⟨str "1.1 px", by decide +kernel, by decide +kernel⟩, ?_⟩
  rw [loopRejected_iff_leadsChain hp]
  unfold LeadsChain
  decide +kernel

end SP.Proof
