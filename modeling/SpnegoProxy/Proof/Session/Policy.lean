import SpnegoProxy.Proof.Hosts
import SpnegoProxy.Proof.Session.Routes

/-!
# The noproxy policy over a whole session

The direct loop compares a request's host with the host its connection was
dialled for, and never asks the matcher again. `covers_of_sameHost` carries
the matcher's answer over from the one host to the other, so that every
request of a run goes where the policy sends it.
-/

namespace SP.Proof

open SP.Go SP.Impl

/-- What the client sends has no `CONNECT`, and no host with white space at
its ends. -/
def PlainReads (tr : List Event) : Prop :=
  ∀ r, .read (.ok r) ∈ tr →
    r.method ≠ methodConnect ∧ beginsWithSpace r.host = false ∧ endsWithSpace r.host = false

/-- The request `req` is written on `c` after `p` as the policy `m` says. -/
structure Routed (m : NoProxyMatcher) (p : List Event) (c : ConnId) (req : Request) : Prop where
  direct_iff : (∃ host addr, .dial c (.direct host addr) ∈ p) ↔ m.covers req.host = true
  upstream_iff : .dial c .upstream ∈ p ↔ m.covers req.host = false
  bound (host addr : Str) : .dial c (.direct host addr) ∈ p →
    sameHost req.host host (str "80") = true

/-- Every request of a run is on a direct connection exactly when the matcher
covers its host, otherwise on an upstream connection, and a direct connection
carries requests for the host it was dialled for only. -/
theorem policy_routing (cfg : Config) {m : NoProxyMatcher} (hm : cfg.noProxy = some m) (env : Env)
    (n : Nat)
    (hreads : PlainReads (run cfg env n).trace) {p q : List Event} {c : ConnId} {req : Request}
    {answer : List Wire} (h : (run cfg env n).trace = p ++ .sent c req answer :: q) :
    Routed m p c req := by
  have hsub : ∀ e ∈ p, e ∈ (run cfg env n).trace := fun e he => by
    rw [h]; exact List.mem_append_left _ he
  have hby : ∀ host, cfg.bypasses host = m.covers host := fun host => by rw [Config.bypasses, hm]
  have honce : ∀ {t t'}, .dial c t ∈ p → .dial c t' ∈ p → t = t' := fun h₁ h₂ =>
    (run_inv cfg env n).once (hsub _ h₁) (hsub _ h₂)
  have hup : .dial c .upstream ∈ p → m.covers req.host = false → Routed m p c req := fun hd hc => by
    refine ⟨⟨fun ⟨host, addr, hd'⟩ => ?_, fun hc' => ?_⟩, ⟨fun _ => hc, fun _ => hd⟩, fun host addr hd' => ?_⟩
    · cases honce hd hd'
    · rw [hc] at hc'; cases hc'
    · cases honce hd hd'
  cases run_routes cfg env n h with
  | @direct r r' r₀ host addr hin hcl _ hd h₀ hh hb hs =>
    obtain ⟨hhost, -⟩ := verdict_host cfg hcl
    obtain ⟨-, hrb, hre⟩ := hreads r (hsub _ hin)
    obtain ⟨-, h₀b, h₀e⟩ := hreads r₀ (hsub _ h₀)
    have hcov : m.covers r'.host = true := by
      rw [hh] at h₀b h₀e
      rw [← hhost] at hrb hre
      rw [covers_of_sameHost m hrb hre h₀b h₀e (by decide) hs, ← hby, hb]
    refine ⟨⟨fun _ => hcov, fun _ => ⟨host, addr, hd⟩⟩, ⟨fun hd' => ?_, fun hc => ?_⟩, fun host' addr' hd' => ?_⟩
    · cases honce hd hd'
    · rw [show (withVia cfg r').host = r'.host from rfl, hcov] at hc
      cases hc
    · cases honce hd hd'
      exact hs
  | @first r r' id token p' _ _ hb hp _ =>
    exact hup (by rw [hp]; simp) (by rw [← hby]; exact hb)
  | @reused r r' sent id answer _ _ hb hd _ =>
    exact hup hd (by rw [← hby]; exact hb)

/-- A session whose noproxy list is `*.corp`. -/
def corpConfig : Config := { plainConfig with noProxy := some (newNoProxyMatcher (str "*.corp")) }

/-- Two requests for a direct host, in two spellings, and one for the upstream. -/
def corpSample : Env :=
  scripted [plainGet (str "a.corp") ⟨∅⟩, plainGet (str "A.corp:80") ⟨∅⟩, plainGet (str "b.org") ⟨∅⟩]
    (str "dG9r") [.head (plainResponse 200)]

/-- The second request stays on the direct connection that was dialled for the first. -/
theorem policy_routing_corpSample : ∃ p q req answer,
    (run corpConfig corpSample 4).trace = p ++ .sent 0 req answer :: q ∧
    req.host = str "A.corp:80" ∧
    Routed (newNoProxyMatcher (str "*.corp")) p 0 req := by
  have h : ((sentAt (run corpConfig corpSample 4).trace 6).map fun x => (x.1, x.2.1.host)) =
      some (0, str "A.corp:80") := by decide +kernel
  obtain ⟨⟨c, req, answer⟩, hs, he⟩ := Option.map_eq_some_iff.mp h
  obtain ⟨rfl, hhost⟩ := Prod.mk.inj he
  refine ⟨_, _, req, answer, split_of_sentAt hs, hhost, ?_⟩
  refine policy_routing corpConfig rfl corpSample 4 (fun r hr => ?_) (split_of_sentAt hs)
  exact read_of_all (P := fun r => r.method ≠ methodConnect ∧ beginsWithSpace r.host = false ∧
    endsWithSpace r.host = false) (by decide +kernel) hr

end SP.Proof
