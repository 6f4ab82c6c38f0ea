import SpnegoProxy.Proof.Headers
import SpnegoProxy.Proof.Session.Routes

/-!
# Where credentials go

A request carries `Proxy-Authorization` exactly when it is the first one on a
connection to the upstream proxy, and then with the token acquired for that
connection: `verdict` removes what the client sent, no later rewriting writes
the field, and `authorised` is part of one route only.
-/

namespace SP.Proof

open SP.Go SP.Impl

section

variable (cfg : Config)

theorem canonical_proxyAuthorization :
    canonicalKey headerProxyAuthorization = headerProxyAuthorization := by decide

theorem applyMaxForwards_canonical {req r : Request} (h : applyMaxForwards req = some r)
    (hc : req.header.Canonical) : r.header.Canonical := by
  simp only [applyMaxForwards] at h
  split_ifs at h
  · cases h; exact hc
  · cases h; exact hc
  · split at h
    · cases h; exact hc
    · split_ifs at h
      cases h; exact hc.set

/-- A validated request has no `Proxy-Authorization`. -/
theorem verdict_noAuth {req r : Request} (h : verdict cfg req = .proceed r)
    (hc : req.header.Canonical) :
    r.header.Canonical ∧ r.header.entry headerProxyAuthorization = none := by
  obtain ⟨r', hr', rfl⟩ := verdict_proceed cfg h
  refine ⟨sanitizeHopByHop_canonical (applyMaxForwards_canonical hr' hc), ?_⟩
  have hn : headerProxyAuthorization ∈ hopByHopHeaders := by simp [hopByHopHeaders]
  rw [← canonical_proxyAuthorization]
  exact sanitizeHopByHop_removes r' hn

/-- The lines of `Proxy-Authorization` of a request. -/
def authLines (req : Request) : List Str := req.header.lines headerProxyAuthorization

theorem authLines_eq (req : Request) (hc : req.header.Canonical) :
    authLines req = (req.header.entry headerProxyAuthorization).getD [] := by
  rw [authLines, hc.lines_eq, canonical_proxyAuthorization]

theorem withVia_auth {req : Request} (hc : req.header.Canonical) :
    authLines (withVia cfg req) = authLines req := by
  have ht := injectVia_touches req.header req.proto cfg.pseudonym
  rw [authLines_eq req hc, authLines_eq (withVia cfg req) (ht.canonical hc)]
  congr 1
  exact ht.entry _ (by decide)

theorem forwarded_auth {req : Request} (id : Str) (hc : req.header.Canonical) :
    (forwarded cfg id req).header.Canonical ∧ authLines (forwarded cfg id req) = authLines req := by
  have ht := injectForwardingHeaders_touches req cfg.clientAddr cfg.forwarding id
  refine ⟨ht.canonical hc, ?_⟩
  rw [authLines_eq req hc, authLines_eq (forwarded cfg id req) (ht.canonical hc)]
  congr 1
  exact ht.entry _ (by decide)

theorem authorised_auth {req : Request} (token : Str) (hc : req.header.Canonical) :
    (authorised token req).header.Canonical ∧
      authLines (authorised token req) = [negotiateScheme ++ token] := by
  refine ⟨hc.set, ?_⟩
  have he : (authorised token req).header.entry headerProxyAuthorization =
      some [negotiateScheme ++ token] := by
    rw [← canonical_proxyAuthorization]
    exact Header.entry_set_self
  rw [authLines_eq (authorised token req) hc.set, he, Option.getD_some]

/-- After the events `p`, the next request on `c` is the first one on a
connection to the upstream proxy. -/
def FirstUpstream (p : List Event) (c : ConnId) : Prop :=
  .dial c .upstream ∈ p ∧ ∀ req answer, .sent c req answer ∉ p

/-- What may be said of the `Proxy-Authorization` lines of the request `req`
that is written on `c` after the events `p`. -/
structure Confined (p : List Event) (c : ConnId) (req : Request) : Prop where
  iff_first : authLines req ≠ [] ↔ FirstUpstream p c
  /-- The token is the one acquired for the dial. -/
  token : FirstUpstream p c → ∃ p' token, p = p' ++ [.token (.ok token), .dial c .upstream] ∧
    authLines req = [negotiateScheme ++ token]
  direct (host addr : Str) : .dial c (.direct host addr) ∈ p → authLines req = []
  later (r : Request) (a : List Wire) : .sent c r a ∈ p → authLines req = []

theorem Confined.of_none {p : List Event} {c : ConnId} {req : Request} (he : authLines req = [])
    (hf : ¬ FirstUpstream p c) : Confined p c req :=
  ⟨⟨fun hn => absurd he hn, fun hf' => absurd hf' hf⟩, fun hf' => absurd hf' hf, fun _ _ _ => he,
    fun _ _ _ => he⟩

/-- `Proxy-Authorization` is on the first request of every connection to the
upstream proxy, with the token acquired for its dial, and on no other request. -/
theorem credentials_confined (env : Env) (n : Nat) {p q : List Event} {c : ConnId} {req : Request}
    {answer : List Wire}
    (hcanon : ∀ r, .read (.ok r) ∈ (run cfg env n).trace → r.header.Canonical)
    (h : (run cfg env n).trace = p ++ .sent c req answer :: q) : Confined p c req := by
  have hsub : ∀ e ∈ p, e ∈ (run cfg env n).trace := fun e he => by
    rw [h]; exact List.mem_append_left _ he
  have hnone : ∀ {r r'}, .read (.ok r) ∈ p → verdict cfg r = .proceed r' →
      r'.header.Canonical ∧ authLines r' = [] := fun hin hcl => by
    obtain ⟨hc, he⟩ := verdict_noAuth cfg hcl (hcanon _ (hsub _ hin))
    exact ⟨hc, by rw [authLines_eq _ hc, he]; rfl⟩
  cases run_routes cfg env n h with
  | @direct r r' _ host addr hin hcl _ hd _ _ _ _ =>
    obtain ⟨hc, he⟩ := hnone hin hcl
    refine Confined.of_none (by rw [withVia_auth cfg hc, he]) fun ⟨hu, _⟩ => ?_
    cases (run_inv cfg env n).once (hsub _ hd) (hsub _ hu)
  | @reused r r' sent id answer hin hcl _ _ hs =>
    obtain ⟨hc, he⟩ := hnone hin hcl
    obtain ⟨hfc, hf⟩ := forwarded_auth cfg id hc
    exact Confined.of_none (by rw [withVia_auth cfg hfc, hf, he]) fun ⟨_, hn⟩ => hn _ _ hs
  | @first r r' id token p' hin hcl _ hp hn =>
    obtain ⟨hc, -⟩ := hnone hin hcl
    obtain ⟨hac, ha⟩ := authorised_auth token (forwarded_auth cfg id hc).1
    have hd : .dial c .upstream ∈ p := by rw [hp]; simp
    have he : authLines (withVia cfg (authorised token (forwarded cfg id r'))) =
        [negotiateScheme ++ token] := by rw [withVia_auth cfg hac, ha]
    refine ⟨⟨fun _ => ⟨hd, hn⟩, fun _ => ?_⟩, fun _ => ⟨p', token, hp, he⟩, fun host addr hd' => ?_,
      fun _ _ hs => absurd hs (hn _ _)⟩
    · rw [he]; exact List.cons_ne_nil _ _
    · cases (run_inv cfg env n).once (hsub _ hd') (hsub _ hd)

end

/-- A client that sends credentials of its own, twice. -/
def authSample : Env :=
  let req := plainGet (str "example.com") ((⟨∅⟩ : Header).set headerProxyAuthorization (str "Basic eDp5"))
  scripted [req, req] (str "dG9r") [.head (plainResponse 200)]

theorem credentials_confined_authSample : ∃ p q c req answer,
    (run plainConfig authSample 3).trace = p ++ .sent c req answer :: q ∧ Confined p c req ∧
    authLines req = [str "Negotiate dG9r"] := by
  have h : ((sentAt (run plainConfig authSample 3).trace 3).map fun x => authLines x.2.1) =
      some [str "Negotiate dG9r"] := by decide +kernel
  obtain ⟨⟨c, req, answer⟩, hs, he⟩ := Option.map_eq_some_iff.mp h
  refine ⟨_, _, c, req, answer, split_of_sentAt hs, ?_, he⟩
  refine credentials_confined plainConfig authSample 3 (fun r hr => ?_) (split_of_sentAt hs)
  exact read_of_all (P := fun r => r.header.Canonical) (by decide +kernel) hr

end SP.Proof
