import SpnegoProxy.Impl.Lifecycle
import SpnegoProxy.Proof.Session.Routes

/-!
# What a session may do with its connections

A session owns at most two connections: the one to the upstream proxy that it
keeps, and one that belongs to the method that is running. It may use the
method's connection while that is open, and the kept one otherwise; what it
writes on them is what the validation made of the request that it read last,
with what the route adds. `Lease.Step` lists the steps, with everything that
must hold for each.
-/

namespace SP.Proof.Life

open SP.Go SP.Impl SP.Impl.Life

/-- The part of the session in an entry. -/
def performed : Entry → Option Event
  | .event e => some e
  | _ => none

/-- What a session holds. -/
structure Lease where
  /-- The request read last. -/
  raw : Option Request := none
  /-- A token that was got for it and not sent yet. -/
  token : Option Str := none
  /-- The kept connection to the upstream proxy. -/
  kept : Option ConnId := none
  /-- The connection of the method that is running, and where it goes. -/
  current : Option (ConnId × Target) := none
  /-- The number of connections dialled. -/
  dialled : Nat := 0

/-- A token is got. -/
def Lease.got (s : Lease) (token : Str) : Lease := { s with token := some token }

/-- The token is sent. -/
def Lease.spent (s : Lease) : Lease := { s with token := none }

/-- A connection is dialled that the session keeps. -/
def Lease.keeps (s : Lease) : Lease := { s with kept := some s.dialled, dialled := s.dialled + 1 }

/-- A method dials a connection. -/
def Lease.opens (s : Lease) (t : Target) : Lease :=
  { s with current := some (s.dialled, t), dialled := s.dialled + 1 }

/-- The method returns. -/
def Lease.leaves (s : Lease) : Lease := { s with current := none }

/-- The connection may be used. -/
inductive Lease.Uses (s : Lease) (c : ConnId) : Prop where
  | current {t : Target} : s.current = some (c, t) → Uses s c
  | kept : s.current = none → s.kept = some c → Uses s c

/-- The connection goes to the upstream proxy and may be used. -/
inductive Lease.Upstream (s : Lease) (c : ConnId) : Prop where
  | current : s.current = some (c, .upstream) → Upstream s c
  | kept : s.current = none → s.kept = some c → Upstream s c

/-- The steps of a session and its deferred closes. -/
inductive Lease.Step (cfg : Config) (s : Lease) : Entry → Lease → Prop where
  | read {r : Request} : Step cfg s (.event (.read (.ok r))) { s with raw := some r, token := none }
  | readFailed {err : ReadErr} : Step cfg s (.event (.read (.error err))) s
  | token {t : Str} : Step cfg s (.event (.token (.ok t))) (s.got t)
  | tokenFailed {err : GoError} : Step cfg s (.event (.token (.error err))) s
  | dialFailed {t : Target} : Step cfg s (.event (.dialFailed t)) s
  /-- The connection to keep: there is none, and a token was got for it. -/
  | dialKept {raw : Request} : s.current = none → s.kept = none → s.token ≠ none →
    s.raw = some raw →
      raw.method ≠ methodConnect → cfg.bypasses raw.host = false →
      Step cfg s (.event (.dial s.dialled .upstream)) s.keeps
  /-- The connection of a tunnel through the upstream proxy. -/
  | dialTunnel {raw : Request} : s.current = none → s.token ≠ none → s.raw = some raw →
      raw.method = methodConnect → cfg.bypasses raw.host = false →
      Step cfg s (.event (.dial s.dialled .upstream)) (s.opens .upstream)
  /-- A direct connection, for the host of the request. -/
  | dialDirect {raw : Request} {addr : Str} : s.current = none → s.raw = some raw →
    cfg.bypasses raw.host = true →
      Step cfg s (.event (.dial s.dialled (.direct raw.host addr))) (s.opens (.direct raw.host addr))
  | sentDirect {c : ConnId} {host addr : Str} {raw r : Request} {answer : List Wire} :
      s.current = some (c, .direct host addr) → s.raw = some raw → verdict cfg raw = .proceed r →
      sameHost raw.host host (str "80") = true →
      Step cfg s (.event (.sent c (withVia cfg r) answer)) s
  /-- The first request on a connection to the upstream proxy carries the token. -/
  | sentFirst {c : ConnId} {raw r : Request} {id token : Str} {answer : List Wire} :
      s.Upstream c → s.raw = some raw → verdict cfg raw = .proceed r → s.token = some token →
      Step cfg s (.event (.sent c (withVia cfg (authorised token (forwarded cfg id r))) answer)) s.spent
  | sentAgain {c : ConnId} {raw r : Request} {id : Str} {answer : List Wire} :
      s.Upstream c → s.raw = some raw → verdict cfg raw = .proceed r → s.token = none →
      Step cfg s (.event (.sent c (withVia cfg (forwarded cfg id r)) answer)) s
  | payload {c : ConnId} {bs : Str} : s.Uses c → Step cfg s (.event (.payload c bs)) s
  | recv {c : ConnId} {resp : Response} : s.Uses c → Step cfg s (.event (.recv c resp)) s
  | wrote {m : ClientMsg} {err : Option Str} : Step cfg s (.event (.wrote m err)) s
  /-- The method that dialled the connection returns. -/
  | closeCurrent {c : ConnId} {t : Target} : s.current = some (c, t) →
    Step cfg s (.closed c) s.leaves
  | closeKept {c : ConnId} : s.current = none → s.kept = some c →
    Step cfg s (.closed c) { s with kept := none }

/-- A log that keeps to the steps, and what is held after it. -/
inductive Leased (cfg : Config) : List Entry → Lease → Prop where
  | start : Leased cfg [] {}
  | snoc {log : List Entry} {s s' : Lease} {e : Entry} : Leased cfg log s → s.Step cfg e s' →
      Leased cfg (log ++ [e]) s'

/-! ## What a step does to a connection -/

/-- The connection that an entry is about. -/
def entryConn : Entry → Option ConnId
  | .event (.dial c _) | .event (.sent c _ _) | .event (.payload c _) | .event (.recv c _) | .closed c => some c
  | _ => none

/-- Something is written on a connection, or read from it. -/
def isUse : Entry → Bool
  | .event (.sent _ _ _) | .event (.payload _ _) | .event (.recv _ _) => true
  | _ => false

def isDial : Entry → Bool
  | .event (.dial _ _) => true
  | _ => false

def isClosed : Entry → Bool
  | .closed _ => true
  | _ => false

/-- The connection is held. -/
def Lease.Open (s : Lease) (c : ConnId) : Prop := s.kept = some c ∨ ∃ t, s.current = some (c, t)

/-- The number of connections held. -/
def Lease.held (s : Lease) : Nat := s.kept.toList.length + s.current.toList.length

theorem Lease.Uses.open {s : Lease} {c : ConnId} (h : s.Uses c) : s.Open c := by
  cases h with
  | current h => exact .inr ⟨_, h⟩
  | kept _ h => exact .inl h

theorem Lease.Upstream.uses {s : Lease} {c : ConnId} (h : s.Upstream c) : s.Uses c := by
  cases h with
  | current h => exact .current h
  | kept h h' => exact .kept h h'

/-- A connection is held once, and was dialled. -/
structure Lease.Sound (s : Lease) : Prop where
  dialled : ∀ c, s.Open c → c < s.dialled
  once : ∀ c t, s.current = some (c, t) → s.kept ≠ some c

/-- What an entry does to the connections. -/
inductive Lease.Effect (s s' : Lease) : Entry → Prop where
  | other {e : Entry} : entryConn e = none → isDial e = false → isClosed e = false →
    s'.Open = s.Open →
      s'.held = s.held → s'.dialled = s.dialled → Effect s s' e
  | use {e : Entry} {c : ConnId} : entryConn e = some c → isUse e = true → isDial e = false →
    isClosed e = false →
      s.Open c → s'.Open = s.Open → s'.held = s.held → s'.dialled = s.dialled → Effect s s' e
  | dial {t : Target} : (∀ c, s'.Open c ↔ s.Open c ∨ c = s.dialled) → s'.held = s.held + 1 →
      s'.dialled = s.dialled + 1 → Effect s s' (.event (.dial s.dialled t))
  | close {c : ConnId} : s.Open c → (∀ c', s'.Open c' ↔ s.Open c' ∧ c' ≠ c) → s.held = s'.held + 1 →
      s'.dialled = s.dialled → Effect s s' (.closed c)

theorem Lease.opens_effect {s : Lease} (hc : s.current = none) (t : Target) :
    s.Effect (s.opens t) (.event (.dial s.dialled t)) := by
  refine .dial (fun c => ?_) ?_ rfl
  · simp only [Open, opens, hc, Option.some.injEq, Prod.mk.injEq, reduceCtorEq, exists_false,
    or_false]
    exact or_congr_right ⟨fun ⟨_, h, _⟩ => h.symm, fun h => ⟨t, h.symm, rfl⟩⟩
  · simp [held, opens, hc]

theorem Lease.keeps_effect {s : Lease} (hk : s.kept = none) (t : Target) :
    s.Effect s.keeps (.event (.dial s.dialled t)) := by
  refine .dial (fun c => ?_) ?_ rfl
  · simp only [Open, keeps, hk, Option.some.injEq, reduceCtorEq, false_or]
    rw [or_comm, eq_comm]
  · simp [held, keeps, hk]
    omega

theorem Lease.Step.effect {cfg : Config} {s s' : Lease} {e : Entry} (h : s.Step cfg e s')
    (hs : s.Sound) : s.Effect s' e := by
  cases h with
  | read | readFailed | token | tokenFailed | dialFailed | wrote => exact .other rfl rfl rfl rfl rfl rfl
  | dialKept hc hk => exact s.keeps_effect hk _
  | dialTunnel hc => exact s.opens_effect hc _
  | dialDirect hc => exact s.opens_effect hc _
  | sentDirect hc => exact .use rfl rfl rfl rfl (.inr ⟨_, hc⟩) rfl rfl rfl
  | sentFirst hu => exact .use rfl rfl rfl rfl hu.uses.open rfl rfl rfl
  | sentAgain hu => exact .use rfl rfl rfl rfl hu.uses.open rfl rfl rfl
  | payload hu => exact .use rfl rfl rfl rfl hu.open rfl rfl rfl
  | recv hu => exact .use rfl rfl rfl rfl hu.open rfl rfl rfl
  | @closeCurrent c t hc =>
    refine .close (.inr ⟨t, hc⟩) (fun c' => ?_) (by simp [held, leaves, hc]) rfl
    have hk : s.kept ≠ some c := hs.once c t hc
    simp only [Open, leaves, hc, reduceCtorEq, exists_false, or_false, Option.some.injEq,
      Prod.mk.injEq]
    constructor
    · rintro h
      exact ⟨.inl h, fun hcc => hk (hcc ▸ h)⟩
    · rintro ⟨h | ⟨_, h, _⟩, hne⟩
      · exact h
      · exact absurd h.symm hne
  | @closeKept c hc hk =>
    refine .close (.inl hk) (fun c' => ?_) (by simp [held, hc, hk]) rfl
    simp [Open, hc, hk, eq_comm]

theorem Lease.Step.sound {cfg : Config} {s s' : Lease} {e : Entry} (h : s.Step cfg e s')
    (hs : s.Sound) : s'.Sound where
  dialled c hc := by
    cases h.effect hs with
    | other _ _ _ ho _ hd => exact hd ▸ hs.dialled c (ho ▸ hc)
    | use _ _ _ _ _ ho _ hd => exact hd ▸ hs.dialled c (ho ▸ hc)
    | dial ho _ hd =>
      rw [hd]
      rcases (ho c).mp hc with hc | rfl
      · exact Nat.lt_succ_of_lt (hs.dialled c hc)
      · exact Nat.lt_succ_self _
    | close _ ho _ hd => exact hd ▸ hs.dialled c ((ho c).mp hc).1
  once c t hc := by
    have hnone {x : ConnId × Target} (h : s.current = none) : s.current ≠ some x := by simp [h]
    cases h with
    | dialKept hc' => exact absurd hc (hnone hc')
    | dialTunnel | dialDirect =>
      cases hc
      exact fun hk => Nat.lt_irrefl _ (hs.dialled _ (.inl hk))
    | closeCurrent => cases hc
    | closeKept hc' => exact absurd hc (hnone hc')
    | _ => exact hs.once c t hc

/-! ## The books of a log -/

/-- The entries about a connection. -/
def lifeOf (c : ConnId) (log : List Entry) : List Entry := log.filter fun e => entryConn e == some c

/-- The connection was dialled and has been used since. -/
def Begun (c : ConnId) (life : List Entry) : Prop :=
  ∃ t uses, life = .event (.dial c t) :: uses ∧ ∀ e ∈ uses, isUse e = true

/-- It was dialled, used, and closed, in this order. -/
def Disposed (c : ConnId) (life : List Entry) : Prop :=
  ∃ open', Begun c open' ∧ life = open' ++ [.closed c]

theorem Begun.use {c : ConnId} {life : List Entry} {e : Entry} (h : Begun c life)
    (he : isUse e = true) : Begun c (life ++ [e]) := by
  obtain ⟨t, uses, rfl, hu⟩ := h
  refine ⟨t, uses ++ [e], rfl, fun e' he' => ?_⟩
  rcases List.mem_append.mp he' with h | h
  · exact hu e' h
  · exact List.mem_singleton.mp h ▸ he

theorem lifeOf_snoc {c : ConnId} {log : List Entry} {e : Entry} (h : entryConn e = some c) :
    lifeOf c (log ++ [e]) = lifeOf c log ++ [e] := by
  simp [lifeOf, h]

theorem lifeOf_snoc_ne {c : ConnId} {log : List Entry} {e : Entry} (h : entryConn e ≠ some c) :
    lifeOf c (log ++ [e]) = lifeOf c log := by
  simp [lifeOf, h]

/-- What the log says of each connection agrees with what is held. -/
structure Ledger (log : List Entry) (s : Lease) : Prop where
  sound : s.Sound
  fresh : ∀ c, s.dialled ≤ c → lifeOf c log = []
  begun : ∀ c, s.Open c → Begun c (lifeOf c log)
  ended : ∀ c, c < s.dialled → ¬ s.Open c → Disposed c (lifeOf c log)
  balance : log.countP isDial = log.countP isClosed + s.held

section

variable {cfg : Config} {log : List Entry} {s s' : Lease} {e : Entry}

theorem Ledger.start : Ledger [] {} where
  sound := ⟨fun c h => by simp [Lease.Open] at h, fun c t h => by cases h⟩
  fresh _ _ := rfl
  begun c h := by simp [Lease.Open] at h
  ended c h := absurd h (Nat.not_lt_zero c)
  balance := rfl

/-- The lives of all connections are as they were. -/
theorem Ledger.other (h : Ledger log s) (hs : s'.Sound) (he : entryConn e = none)
    (hd : isDial e = false)
    (hc : isClosed e = false) (ho : s'.Open = s.Open) (hh : s'.held = s.held)
    (hn : s'.dialled = s.dialled) : Ledger (log ++ [e]) s' := by
  have hlife (c : ConnId) : lifeOf c (log ++ [e]) = lifeOf c log := lifeOf_snoc_ne (by simp [he])
  refine ⟨hs, ?_, ?_, ?_, ?_⟩
  · exact fun c hc => hlife c ▸ h.fresh c (hn ▸ hc)
  · exact fun c hc => hlife c ▸ h.begun c (ho ▸ hc)
  · exact fun c hc hno => hlife c ▸ h.ended c (hn ▸ hc) (ho ▸ hno)
  · simp [List.countP_append, hd, hc, hh, h.balance]

/-- A connection that is held is used. -/
theorem Ledger.use {c : ConnId} (h : Ledger log s) (hs : s'.Sound) (he : entryConn e = some c)
    (hu : isUse e = true)
    (hd : isDial e = false) (hcl : isClosed e = false) (hc : s.Open c) (ho : s'.Open = s.Open)
    (hh : s'.held = s.held) (hn : s'.dialled = s.dialled) : Ledger (log ++ [e]) s' := by
  have hlife (c' : ConnId) (hne : c' ≠ c) : lifeOf c' (log ++ [e]) = lifeOf c' log :=
    lifeOf_snoc_ne (by rw [he]; exact fun h => hne (Option.some.inj h).symm)
  refine ⟨hs, fun c' hc' => ?_, fun c' hc' => ?_, fun c' hlt hno => ?_, ?_⟩
  · have hle : s.dialled ≤ c' := hn ▸ hc'
    rw [hlife c' (Nat.ne_of_gt (Nat.lt_of_lt_of_le (h.sound.dialled c hc) hle))]
    exact h.fresh c' hle
  · by_cases hcc : c' = c
    · subst hcc
      exact lifeOf_snoc he ▸ (h.begun c' hc).use hu
    · exact hlife c' hcc ▸ h.begun c' (ho ▸ hc')
  · rw [ho] at hno
    rw [hlife c' (fun hcc => hno (hcc ▸ hc))]
    exact h.ended c' (hn ▸ hlt) hno
  · simp [List.countP_append, hd, hcl, hh, h.balance]

/-- A connection is dialled: its life begins. -/
theorem Ledger.dial {t : Target} (h : Ledger log s) (hs : s'.Sound)
    (ho : ∀ c, s'.Open c ↔ s.Open c ∨ c = s.dialled)
    (hh : s'.held = s.held + 1) (hn : s'.dialled = s.dialled + 1) :
    Ledger (log ++ [.event (.dial s.dialled t)]) s' := by
  have hlife (c : ConnId) (hne : c ≠ s.dialled) : lifeOf c (log ++ [.event (.dial s.dialled t)]) = lifeOf c log :=
    lifeOf_snoc_ne fun h => hne (Option.some.inj h).symm
  refine ⟨hs, fun c hc => ?_, fun c hc => ?_, fun c hlt hno => ?_, ?_⟩
  · have hlt : s.dialled < c := by omega
    rw [hlife c (Nat.ne_of_gt hlt)]
    exact h.fresh c (Nat.le_of_lt hlt)
  · by_cases hcc : c = s.dialled
    · subst hcc
      refine ⟨t, [], ?_, by simp⟩
      rw [lifeOf_snoc rfl, h.fresh _ (Nat.le_refl _)]
      rfl
    · exact hlife c hcc ▸ h.begun c (((ho c).mp hc).resolve_right hcc)
  · obtain ⟨hno, hne⟩ := not_or.mp (mt (ho c).mpr hno)
    have hne : c ≠ s.dialled := hne
    exact hlife c hne ▸ h.ended c (by omega) hno
  · simp [List.countP_append, isDial, isClosed, hh, h.balance]
    omega

/-- A connection is closed: its life ends. -/
theorem Ledger.close {c : ConnId} (h : Ledger log s) (hs : s'.Sound) (hc : s.Open c)
    (ho : ∀ c', s'.Open c' ↔ s.Open c' ∧ c' ≠ c) (hh : s.held = s'.held + 1)
    (hn : s'.dialled = s.dialled) : Ledger (log ++ [.closed c]) s' := by
  have hlife (c' : ConnId) (hne : c' ≠ c) : lifeOf c' (log ++ [.closed c]) = lifeOf c' log :=
    lifeOf_snoc_ne fun h => hne (Option.some.inj h).symm
  refine ⟨hs, fun c' hc' => ?_, fun c' hc' => ?_, fun c' hlt hno => ?_, ?_⟩
  · have hle : s.dialled ≤ c' := hn ▸ hc'
    rw [hlife c' (Nat.ne_of_gt (Nat.lt_of_lt_of_le (h.sound.dialled c hc) hle))]
    exact h.fresh c' hle
  · obtain ⟨hopen, hne⟩ := (ho c').mp hc'
    exact hlife c' hne ▸ h.begun c' hopen
  · by_cases hcc : c' = c
    · subst hcc
      exact ⟨_, h.begun c' hc, lifeOf_snoc rfl⟩
    · rw [hlife c' hcc]
      exact h.ended c' (hn ▸ hlt) fun hopen => hno ((ho c').mpr ⟨hopen, hcc⟩)
  · simp [List.countP_append, isDial, isClosed, h.balance, hh]
    omega

theorem Leased.ledger (h : Leased cfg log s) : Ledger log s := by
  induction h with
  | start => exact .start
  | snoc _ hs ih =>
    have hsound := hs.sound ih.sound
    cases hs.effect ih.sound with
    | other he hd hc ho hh hn => exact ih.other hsound he hd hc ho hh hn
    | use he hu hd hcl hc ho hh hn => exact ih.use hsound he hu hd hcl hc ho hh hn
    | dial ho hh hn => exact ih.dial hsound ho hh hn
    | close hc ho hh hn => exact ih.close hsound hc ho hh hn

/-- What came before also kept to the steps. -/
theorem Leased.prefix {pre : List Entry} (h : Leased cfg log s) (hp : pre <+: log) :
    ∃ s₀, Leased cfg pre s₀ := by
  induction h with
  | start => exact ⟨{}, List.prefix_nil.mp hp ▸ .start⟩
  | snoc hl hs ih =>
    rcases List.prefix_concat_iff.mp hp with rfl | hp
    · exact ⟨_, hl.snoc hs⟩
    · exact ih hp

/-- No entry is about the client's connection. -/
theorem Leased.not_client (h : Leased cfg log s) :
    ∀ e ∈ log, e ≠ .closedWrite ∧ e ≠ .closedClient := by
  induction h with
  | start => simp
  | snoc _ hs ih =>
    intro e he
    rcases List.mem_append.mp he with he | he
    · exact ih e he
    · rw [List.mem_singleton.mp he]
      cases hs <;> simp

theorem Lease.held_le (s : Lease) : s.held ≤ 2 := by
  have h₁ : s.kept.toList.length ≤ 1 := by cases s.kept <;> simp
  have h₂ : s.current.toList.length ≤ 1 := by cases s.current <;> simp
  exact Nat.add_le_add h₁ h₂

end

end SP.Proof.Life
