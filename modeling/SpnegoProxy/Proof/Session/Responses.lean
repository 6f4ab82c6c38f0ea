import SpnegoProxy.Impl.LocalResponse
import SpnegoProxy.Proof.Headers
import SpnegoProxy.Proof.Session.Pairing
import SpnegoProxy.Proof.Session.Routes
import SpnegoProxy.Spec.Relaying

/-!
# Every response comes from its next hop

At any time, what the next hop on a connection is to send is what the session
has taken from there and what it has yet to take (`Tracked`), whatever the next
hop sends. The parts of a session that take something keep this, and the
others do not touch it (`Neutral`).
-/

namespace SP.Proof

open SP.Go SP.Impl SP.Spec

/-! ## What a response keeps -/

/-- `Via` gets the entry of the proxy, whatever the other fields are. -/
theorem injectVia_entry (h : Header) (proto pseudonym : Str) :
    (injectVia h proto pseudonym).entry headerVia =
    some [if h.get headerVia ≠ [] then h.get headerVia ++ str ", " ++ (proto ++ str " " ++ pseudonym)
      else proto ++ str " " ++ pseudonym] :=
  appendHeaderValue_entry h headerVia _

theorem injectVia_entry_ne {h : Header} {proto pseudonym k : Str} (hk : k ≠ headerVia) :
    (injectVia h proto pseudonym).entry k = h.entry k := by
  refine (injectVia_touches h proto pseudonym).entry k ?_
  rw [List.map_singleton, List.mem_singleton, show canonicalKey headerVia = headerVia by decide]
  exact hk

/-- The fields that `readUpstreamResponse` takes out have canonical names. -/
theorem entry_del_eq {h : Header} {key k : Str} (hc : canonicalKey key = key) :
    (h.del key).entry k = if k = key then none else h.entry k := by
  rw [Header.entry_del, hc]

theorem cleaned_preserves (cfg : Config) (r : Response) :
    Preserves cfg .upstream r (cleaned cfg r) := by
  have hauth : canonicalKey headerProxyAuthenticate = headerProxyAuthenticate := by decide
  have hlen : canonicalKey headerContentLength = headerContentLength := by decide
  have hget : ∀ {h₁ h₂ : Header}, h₁.entry headerVia = h₂.entry headerVia →
    h₁.get headerVia = h₂.get headerVia :=
    fun he => get_congr (by rw [show canonicalKey headerVia = headerVia by decide]; exact he)
  have hentry (k : Str) : ((if DoublyFramed r then r.header.del headerContentLength else r.header).del
      headerProxyAuthenticate).entry k = if k = headerProxyAuthenticate then none
        else if k = headerContentLength ∧ DoublyFramed r then none else r.header.entry k := by
    by_cases hf : DoublyFramed r
    · rw [if_pos hf, entry_del_eq hauth, entry_del_eq hlen]
      simp only [and_iff_left hf]
    · rw [if_neg hf, entry_del_eq hauth]
      simp only [hf, and_false, if_false]
  refine ⟨⟨rfl, rfl⟩, ⟨rfl, rfl, rfl⟩, ⟨rfl, rfl⟩, fun k hk => ?_, ?_, ?_, ?_⟩
  · simp only [List.mem_cons, List.not_mem_nil, or_false, not_or] at hk
    refine (injectVia_entry_ne hk.1).trans ?_
    rw [hentry, if_neg hk.2.1, if_neg fun h => hk.2.2 h.1]
  · refine (injectVia_entry _ _ _).trans ?_
    rw [hget ((hentry headerVia).trans (by rw [if_neg (by decide), if_neg fun h => absurd h.1 (by decide)]))]
  · rw [if_pos rfl]
    refine (injectVia_entry_ne (by decide)).trans ?_
    rw [hentry, if_pos rfl]
  · have hkept : (cleaned cfg r).header.entry headerContentLength =
        if headerContentLength = headerContentLength ∧ DoublyFramed r then none
        else r.header.entry headerContentLength := by
      refine (injectVia_entry_ne (by decide)).trans ?_
      rw [hentry, if_neg (by decide)]
    by_cases hf : DoublyFramed r
    · rw [if_pos ⟨rfl, hf⟩]
      exact ⟨hkept.trans (if_pos ⟨rfl, hf⟩), if_pos hf⟩
    · rw [if_neg fun h => hf h.2]
      exact ⟨hkept.trans (if_neg fun h => hf h.2), if_neg hf⟩

theorem rewrite_preserves {cfg : Config} {t : Target} {r r' : Response}
    (h : rewrite cfg t r = .ok r') : Preserves cfg t r r' := by
  cases t with
  | upstream =>
    simp only [rewrite] at h
    split_ifs at h
    cases h
    exact cleaned_preserves cfg r
  | direct host addr =>
    cases h
    have hdirect : Target.direct host addr ≠ .upstream := fun h => by cases h
    refine ⟨⟨rfl, rfl⟩, ⟨rfl, rfl, rfl⟩, ⟨rfl, rfl⟩,
      fun k hk => injectVia_entry_ne ?_, injectVia_entry _ _ _, ?_, ?_⟩
    · exact fun he => hk (he ▸ List.mem_cons_self)
    · rw [if_neg hdirect]
      exact injectVia_entry_ne (by decide)
    · rw [if_neg fun h => hdirect h.1]
      exact ⟨injectVia_entry_ne (by decide), rfl⟩

/-! ## What is taken off a connection -/

/-- What the next hops are to send is what the session took and what it has
yet to take, and every message it wrote comes from there. -/
structure Tracked (cfg : Config) (w : World) : Prop where
  flow {c : ConnId} {t : Target} : .dial c t ∈ w.trace →
    ∃ ws, queueOn c w.trace = ws ++ w.inbox c ∧ receivedOn c w.trace = accepted cfg t ws
  dialled {c : ConnId} {t : Target} : .dial c t ∈ w.trace → c < w.conns
  once {c : ConnId} {t t' : Target} : .dial c t ∈ w.trace → .dial c t' ∈ w.trace → t = t'
  fresh {c : ConnId} : w.conns ≤ c → queueOn c w.trace = [] ∧ receivedOn c w.trace = [] ∧
    w.inbox c = []
  kept {c : ConnId} : w.proxyConn = some c → .dial c .upstream ∈ w.trace
  came {p q : List Event} {m : ClientMsg} {err : Option Str} : w.trace = p ++ .wrote m err :: q →
    isRelayed m = true → Came cfg p m
  /-- Every error that was answered is a predefined one. -/
  known {pe : ProxyError} {err : Option Str} : .wrote (.error pe) err ∈ w.trace → pe ∈ proxyErrors

theorem Tracked.init (cfg : Config) : Tracked cfg World.init where
  flow h := by cases h
  dialled h := by cases h
  once h := by cases h
  fresh _ := ⟨rfl, rfl, rfl⟩
  kept h := by cases h
  came h := by simp [World.init] at h
  known h := by cases h

theorem queueOn_snoc (c : ConnId) (tr : List Event) (e : Event) :
    queueOn c (tr ++ [e]) = queueOn c tr ++ answerOn c e := by
  simp [queueOn]

theorem receivedOn_snoc (c : ConnId) (tr : List Event) (e : Event) :
    receivedOn c (tr ++ [e]) = receivedOn c tr ++ (recvOn c e).toList := by
  cases h : recvOn c e <;> simp [receivedOn, h]

theorem queueOn_of_nil {c : ConnId} {tr : List Event} {e : Event} (h : answerOn c e = []) :
    queueOn c (tr ++ [e]) = queueOn c tr := by
  rw [queueOn_snoc, h, List.append_nil]

theorem receivedOn_of_none {c : ConnId} {tr : List Event} {e : Event} (h : recvOn c e = none) :
    receivedOn c (tr ++ [e]) = receivedOn c tr := by
  rw [receivedOn_snoc, h, Option.toList_none, List.append_nil]

theorem accepted_append (cfg : Config) (t : Target) (ws ws' : List Wire) :
    accepted cfg t (ws ++ ws') = accepted cfg t ws ++ accepted cfg t ws' := by
  simp [accepted]

/-- An event that neither dials, sends nor receives. -/
def isApart : Event → Bool
  | .dial _ _ | .sent _ _ _ | .recv _ _ => false
  | _ => true

/-- A message that is no error, or a predefined one. -/
def isKnown : ClientMsg → Bool
  | .error pe => proxyErrors.contains pe
  | _ => true

/-- An event that does not pass a response on either. -/
def isNeutral (e : Event) : Bool :=
  match e with
  | .wrote m _ => !isRelayed m && isKnown m
  | e => isApart e

/-- Such an event leaves the connections alone. -/
theorem Tracked.apart {cfg : Config} {w : World} {e : Event} (h : Tracked cfg w)
    (he : isApart e = true)
    (hcame : ∀ m err, e = .wrote m err → isKnown m = true ∧ (isRelayed m = true → Came cfg w.trace m)) :
    Tracked cfg { w with trace := w.trace ++ [e] } := by
  have hmem : ∀ {c t}, .dial c t ∈ w.trace ++ [e] → .dial c t ∈ w.trace := by
    intro c t hm
    rcases List.mem_append.mp hm with hm | hm
    · exact hm
    · rw [← List.mem_singleton.mp hm] at he
      cases he
  have hqueue : ∀ c, queueOn c (w.trace ++ [e]) = queueOn c w.trace :=
    fun c => queueOn_of_nil (by cases e <;> first | rfl | cases he)
  have hrecv : ∀ c, receivedOn c (w.trace ++ [e]) = receivedOn c w.trace :=
    fun c => receivedOn_of_none (by cases e <;> first | rfl | cases he)
  refine ⟨fun {c t} hd => ?_, fun hd => h.dialled (hmem hd), fun hd hd' => h.once (hmem hd) (hmem hd'), fun {c} hc => ?_,
    fun hk => ?_, fun {p q m err} hs hm => ?_, fun {pe err} hp => ?_⟩
  · show ∃ ws, queueOn c (w.trace ++ [e]) = _ ∧ receivedOn c (w.trace ++ [e]) = _
    rw [hqueue, hrecv]
    exact h.flow (hmem hd)
  · show queueOn c (w.trace ++ [e]) = _ ∧ receivedOn c (w.trace ++ [e]) = _ ∧ _
    rw [hqueue, hrecv]
    exact h.fresh hc
  · exact List.mem_append_left _ (h.kept hk)
  · rcases split_last hs with ⟨q', hs'⟩ | ⟨rfl, he⟩
    · exact h.came hs' hm
    · exact (hcame m err he.symm).2 hm
  · rcases List.mem_append.mp hp with hp | hp
    · exact h.known hp
    · exact List.contains_iff_mem.mp (hcame _ err (List.mem_singleton.mp hp).symm).1

theorem Tracked.neutral {cfg : Config} {w : World} {e : Event} (h : Tracked cfg w)
    (he : isNeutral e = true) : Tracked cfg { w with trace := w.trace ++ [e] } := by
  refine h.apart ?_ fun m err hm => ?_
  · cases e <;> first | rfl | cases he
  · rw [hm, isNeutral, Bool.and_eq_true, Bool.not_eq_true'] at he
    refine ⟨he.2, fun hr => ?_⟩
    rw [hr] at he
    cases he.1

/-- From `w` to `w'` the session keeps track, and only adds events. -/
structure Neutral (cfg : Config) (w w' : World) : Prop where
  tracked : Tracked cfg w → Tracked cfg w'
  mem : ∀ e ∈ w.trace, e ∈ w'.trace

instance (cfg : Config) : Std.Refl (Neutral cfg) := ⟨fun _ => ⟨id, fun _ h => h⟩⟩
instance (cfg : Config) : IsTrans World (Neutral cfg) :=
  ⟨fun _ _ _ h h' => ⟨fun ht => h'.tracked (h.tracked ht), fun e he => h'.mem e (h.mem e he)⟩⟩

theorem emit_neutral (cfg : Config) {e : Event} (he : isNeutral e = true) :
    Moves (Neutral cfg) (emit e) :=
  fun _ => ⟨fun h => h.neutral he, fun _ hm => List.mem_append_left _ hm⟩

/-- An event before the last one. -/
theorem mem_of_snoc {tr : List Event} {e e' : Event} (h : e ∈ tr ++ [e']) (hne : e ≠ e') : e ∈ tr := by
  rcases List.mem_append.mp h with h | h
  · exact h
  · exact absurd (List.mem_singleton.mp h) hne

/-- A connection is dialled. -/
theorem Tracked.dial {cfg : Config} {w : World} {t : Target} (h : Tracked cfg w) :
    Tracked cfg { w with trace := w.trace ++ [.dial w.conns t], conns := w.conns + 1 } := by
  have hqueue : ∀ c, queueOn c (w.trace ++ [.dial w.conns t]) = queueOn c w.trace :=
    fun c => queueOn_of_nil rfl
  have hrecv : ∀ c, receivedOn c (w.trace ++ [.dial w.conns t]) = receivedOn c w.trace :=
    fun c => receivedOn_of_none rfl
  refine ⟨fun {c t'} hd => ?_, fun {c t'} hd => ?_, fun {c t₁ t₂} h₁ h₂ => ?_, fun {c} hc => ?_, fun hk => ?_,
    fun {p q m err} hs hm => ?_, fun hp => h.known (mem_of_snoc hp nofun)⟩
  · show ∃ ws, queueOn c (w.trace ++ [.dial w.conns t]) = _ ∧
    receivedOn c (w.trace ++ [.dial w.conns t]) = _
    rw [hqueue, hrecv]
    rcases List.mem_append.mp hd with hd | hd
    · exact h.flow hd
    · cases List.mem_singleton.mp hd
      obtain ⟨hq, hr, hi⟩ := h.fresh (Nat.le_refl w.conns)
      exact ⟨[], by rw [hq, hi]; rfl, hr⟩
  · rcases List.mem_append.mp hd with hd | hd
    · exact Nat.lt_succ_of_lt (h.dialled hd)
    · cases List.mem_singleton.mp hd
      exact Nat.lt_succ_self _
  · rcases List.mem_append.mp h₁ with h₁ | h₁ <;> rcases List.mem_append.mp h₂ with h₂ | h₂
    · exact h.once h₁ h₂
    · cases List.mem_singleton.mp h₂
      exact absurd (h.dialled h₁) (Nat.lt_irrefl _)
    · cases List.mem_singleton.mp h₁
      exact absurd (h.dialled h₂) (Nat.lt_irrefl _)
    · cases List.mem_singleton.mp h₁
      cases List.mem_singleton.mp h₂
      rfl
  · show queueOn c (w.trace ++ [.dial w.conns t]) = _ ∧
    receivedOn c (w.trace ++ [.dial w.conns t]) = _ ∧ _
    rw [hqueue, hrecv]
    exact h.fresh (Nat.le_of_succ_le hc)
  · exact List.mem_append_left _ (h.kept hk)
  · rcases split_last hs with ⟨q', hs'⟩ | ⟨-, he⟩
    · exact h.came hs' hm
    · cases he

/-- A request is written on a connection, and the next hop is to answer it. -/
theorem Tracked.sent {cfg : Config} {w : World} {c : ConnId} {t : Target} {req : Request}
    {answer : List Wire} (h : Tracked cfg w) (hd : .dial c t ∈ w.trace) :
    Tracked cfg { w with trace := w.trace ++ [.sent c req answer],
                         inbox := Function.update w.inbox c (w.inbox c ++ answer) } := by
  have hmem : ∀ {c' t'}, .dial c' t' ∈ w.trace ++ [.sent c req answer] → .dial c' t' ∈ w.trace :=
    fun hm => mem_of_snoc hm nofun
  have hrecv : ∀ c', receivedOn c' (w.trace ++ [.sent c req answer]) = receivedOn c' w.trace :=
    fun c' => receivedOn_of_none rfl
  have hother : ∀ {c'}, c' ≠ c →
    queueOn c' (w.trace ++ [.sent c req answer]) = queueOn c' w.trace :=
    fun hc => queueOn_of_nil (if_neg (Ne.symm hc))
  refine ⟨fun {c' t'} hd' => ?_, fun hd' => h.dialled (hmem hd'), fun hd₁ hd₂ => h.once (hmem hd₁) (hmem hd₂),
    fun {c'} hc => ?_, fun hk => ?_, fun {p q m err} hs hm => ?_, fun hp => h.known (mem_of_snoc hp nofun)⟩
  · show ∃ ws,
    queueOn c' (w.trace ++ [.sent c req answer]) = ws ++ Function.update w.inbox c (w.inbox c ++ answer) c' ∧
      receivedOn c' (w.trace ++ [.sent c req answer]) = _
    rw [hrecv]
    obtain ⟨ws, hq, hr⟩ := h.flow (hmem hd')
    refine ⟨ws, ?_, hr⟩
    by_cases hc : c' = c
    · rw [hc] at hq ⊢
      rw [Function.update_self, queueOn_snoc, answerOn, if_pos rfl, hq, List.append_assoc]
    · rw [Function.update_of_ne hc, hother hc, hq]
  · have hne : c' ≠ c := fun he => absurd (h.dialled hd) (Nat.not_lt.mpr (he ▸ hc))
    show queueOn c' (w.trace ++ [.sent c req answer]) = _ ∧
      receivedOn c' (w.trace ++ [.sent c req answer]) = _ ∧
      Function.update w.inbox c (w.inbox c ++ answer) c' = _
    rw [hrecv, hother hne, Function.update_of_ne hne]
    exact h.fresh hc
  · exact List.mem_append_left _ (h.kept hk)
  · rcases split_last hs with ⟨q', hs'⟩ | ⟨-, he⟩
    · exact h.came hs' hm
    · cases he

/-- Something is taken off a connection of which nothing is accepted. -/
theorem Tracked.take {cfg : Config} {w : World} {c : ConnId} {t : Target} {taken rest : List Wire}
    (h : Tracked cfg w)
    (hd : .dial c t ∈ w.trace) (hi : w.inbox c = taken ++ rest) (ha : accepted cfg t taken = []) :
    Tracked cfg { w with inbox := Function.update w.inbox c rest } := by
  refine ⟨fun {c' t'} hd' => ?_, h.dialled, h.once, fun {c'} hc => ?_, h.kept, h.came, h.known⟩
  · obtain ⟨ws, hq, hr⟩ := h.flow hd'
    by_cases hc : c' = c
    · rw [hc] at hq hr hd' ⊢
      obtain rfl := h.once hd hd'
      refine ⟨ws ++ taken, ?_, ?_⟩
      · show _ = _ ++ Function.update w.inbox c rest c
        rw [Function.update_self, hq, hi, List.append_assoc]
      · rw [accepted_append, ha, List.append_nil, hr]
    · refine ⟨ws, ?_, hr⟩
      show _ = ws ++ Function.update w.inbox c rest c'
      rw [Function.update_of_ne hc]
      exact hq
  · have hne : c' ≠ c := fun he => absurd (h.dialled hd) (Nat.not_lt.mpr (he ▸ hc))
    show _ ∧ _ ∧ Function.update w.inbox c rest c' = _
    rw [Function.update_of_ne hne]
    exact h.fresh hc

/-- The next response is received. -/
theorem Tracked.recv {cfg : Config} {w : World} {c : ConnId} {t : Target} {r r' : Response}
    {rest : List Wire}
    (h : Tracked cfg w) (hd : .dial c t ∈ w.trace) (hi : w.inbox c = .head r :: rest)
    (hr : rewrite cfg t r = .ok r') :
    Tracked cfg { w with trace := w.trace ++ [.recv c r'], inbox := Function.update w.inbox c rest } ∧
      Took cfg w.trace c t r r' rest := by
  have hmem : ∀ {c' t'}, .dial c' t' ∈ w.trace ++ [.recv c r'] → .dial c' t' ∈ w.trace :=
    fun hm => mem_of_snoc hm nofun
  have hqueue : ∀ c', queueOn c' (w.trace ++ [.recv c r']) = queueOn c' w.trace :=
    fun c' => queueOn_of_nil rfl
  have hother : ∀ {c'}, c' ≠ c → receivedOn c' (w.trace ++ [.recv c r']) = receivedOn c' w.trace :=
    fun hc => receivedOn_of_none (if_neg (Ne.symm hc))
  obtain ⟨ws, hq, hrecv⟩ := h.flow hd
  refine ⟨⟨fun {c' t'} hd' => ?_, fun hd' => h.dialled (hmem hd'), fun hd₁ hd₂ => h.once (hmem hd₁) (hmem hd₂),
    fun {c'} hc => ?_, fun hk => ?_, fun {p q m err} hs hm => ?_, fun hp => h.known (mem_of_snoc hp nofun)⟩,
    hd, ⟨ws, by rw [hq, hi], hrecv⟩, hr, rewrite_preserves hr⟩
  · show ∃ ws, queueOn c' (w.trace ++ [.recv c r']) = ws ++ Function.update w.inbox c rest c' ∧
      receivedOn c' (w.trace ++ [.recv c r']) = _
    rw [hqueue]
    by_cases hc : c' = c
    · rw [hc] at hd' ⊢
      obtain rfl := h.once hd (hmem hd')
      refine ⟨ws ++ [.head r], ?_, ?_⟩
      · rw [Function.update_self, hq, hi, List.append_assoc, List.singleton_append]
      · have ha : accepted cfg t [.head r] = [r'] :=
        by simp [accepted, wireHead, hr, Except.toOption]
        rw [receivedOn_snoc, recvOn, if_pos rfl, hrecv, accepted_append, ha]
        rfl
    · rw [Function.update_of_ne hc, hother hc]
      exact h.flow (hmem hd')
  · have hne : c' ≠ c := fun he => absurd (h.dialled hd) (Nat.not_lt.mpr (he ▸ hc))
    show queueOn c' (w.trace ++ [.recv c r']) = _ ∧ receivedOn c' (w.trace ++ [.recv c r']) = _ ∧
      Function.update w.inbox c rest c' = _
    rw [hqueue, hother hne, Function.update_of_ne hne]
    exact h.fresh hc
  · exact List.mem_append_left _ (h.kept hk)
  · rcases split_last hs with ⟨q', hs'⟩ | ⟨-, he⟩
    · exact h.came hs' hm
    · cases he

/-! ## The parts of a session -/

section

variable (cfg : Config) (env : Env)

/-- What a reader makes of what is queued: nothing that is accepted, or the next response. -/
theorem readerFor_cases (t : Target) (ws : List Wire) :
    (∃ err taken, (readerFor cfg t ws).1 = .error err ∧ ws = taken ++ (readerFor cfg t ws).2 ∧ accepted cfg t taken = []) ∨
      ∃ r r', (readerFor cfg t ws).1 = .ok r' ∧ ws = .head r :: (readerFor cfg t ws).2 ∧
        rewrite cfg t r = .ok r' := by
  cases ws with
  | nil => cases t <;> exact .inl ⟨_, [], rfl, rfl, rfl⟩
  | cons x ws =>
    cases x with
    | head r =>
      rw [readerFor_head]
      cases hr : rewrite cfg t r with
      | ok r' => exact .inr ⟨r, r', rfl, rfl, hr⟩
      | error err => exact .inl ⟨err, [.head r], rfl, rfl, by simp [accepted, wireHead, hr, Except.toOption]⟩
    | data bs => cases t <;> exact .inl ⟨_, [.data bs], rfl, rfl, rfl⟩
    | bad err => cases t <;> exact .inl ⟨_, [.bad err], rfl, rfl, rfl⟩

/-- The session has received `r'` last, and what follows it is still on `c`. -/
def LastReceived (cfg : Config) (c : ConnId) (t : Target) (r' : Response) (w : World) : Prop :=
  ∃ p r, w.trace = p ++ [.recv c r'] ∧ Took cfg p c t r r' (w.inbox c)

theorem readOne_tracked {c : ConnId} {t : Target} {w : World} (h : Tracked cfg w)
    (hd : .dial c t ∈ w.trace) :
    WP (readOne c (readerFor cfg t)) w fun x w' => Tracked cfg w' ∧ (∀ e ∈ w.trace, e ∈ w'.trace) ∧
      ∀ r, x = .ok r → LastReceived cfg c t r w' := by
  refine WP.bind_iff.mpr (WP.get_iff.mpr ?_)
  have hcases := readerFor_cases cfg t (w.inbox c)
  generalize readerFor cfg t (w.inbox c) = x at hcases ⊢
  obtain ⟨x, rest⟩ := x
  refine WP.bind_iff.mpr (WP.modify_iff.mpr ?_)
  rcases hcases with ⟨err, taken, hx, hi, ha⟩ | ⟨r, r', hx, hi, hr⟩
  · obtain rfl : x = .error err := hx
    exact ⟨h.take hd hi ha, fun _ he => he, fun _ hr => nomatch hr⟩
  · obtain rfl : x = .ok r' := hx
    obtain ⟨htracked, htook⟩ := h.recv hd hi hr
    refine ⟨htracked, fun _ he => List.mem_append_left _ he, fun r'' hr'' => ?_⟩
    cases hr''
    refine ⟨w.trace, r, rfl, ?_⟩
    show Took cfg w.trace c t r r' (Function.update w.inbox c rest c)
    rw [Function.update_self]
    exact htook

/-- A message is written that comes from where it should. -/
theorem writeClient_tracked {m : ClientMsg} {w : World} (h : Tracked cfg w)
    (hc : Came cfg w.trace m) :
    WP (writeClient env m) w fun _ w' => Tracked cfg w' ∧ ∀ e ∈ w.trace, e ∈ w'.trace := by
  refine WP.bind_iff.mpr (ask_iff.mpr (WP.bind_iff.mpr (emit_iff.mpr ⟨h.apart rfl fun m' err he => ?_, fun _ he =>
    List.mem_append_left _ he⟩)))
  cases he
  exact ⟨by cases hc <;> rfl, fun _ => hc⟩

theorem readThroughInterim_tracked {c : ConnId} {t : Target} (req : Request) (n : Nat) {w : World}
    (h : Tracked cfg w) (hd : .dial c t ∈ w.trace) :
    WP (readThroughInterim env req (readOne c (readerFor cfg t)) n) w fun x w' => Tracked cfg w' ∧
      (∀ e ∈ w.trace, e ∈ w'.trace) ∧ ∀ r, x.resp = some r → LastReceived cfg c t r w' ∧
        isInterimResponse r = false := by
  induction n generalizing w with
  | zero => exact ⟨h, fun _ he => he, fun _ hr => nomatch hr⟩
  | succ n ih =>
    refine WP.bind_iff.mpr ((readOne_tracked cfg h hd).mono fun x w₁ ⟨h₁, hm₁, hx⟩ => ?_)
    cases x with
    | error err => exact ⟨h₁, hm₁, fun _ hr => nomatch hr⟩
    | ok r =>
      have hhas := hx r rfl
      refine WP.ite (fun hf => ⟨h₁, hm₁, fun r' hr' => ?_⟩) fun hi => ?_
      · cases hr'
        exact ⟨hhas, hf⟩
      refine WP.ite (fun _ => ⟨h₁, hm₁, fun _ hr => nomatch hr⟩) fun _ => WP.bind_iff.mpr ?_
      have hrelay : WP (relayInterimResponse env req r) w₁ fun _ w' => Tracked cfg w' ∧ ∀ e ∈ w₁.trace, e ∈ w'.trace := by
        refine WP.ite (fun _ => ⟨h₁, fun _ he => he⟩) fun _ => writeClient_tracked cfg env h₁ ?_
        obtain ⟨p, r₀, hp, htook⟩ := hhas
        refine .interim hp htook ?_
        rw [← rewrite_interim cfg htook.rewritten]
        exact Bool.not_eq_false _ ▸ hi
      refine hrelay.mono fun err w₂ ⟨h₂, hm₂⟩ => ?_
      cases err with
      | some werr => exact ⟨h₂, fun e he => hm₂ e (hm₁ e he), fun _ hr => nomatch hr⟩
      | none =>
        refine (ih h₂ (hm₂ _ (hm₁ _ hd))).mono fun x w₃ ⟨h₃, hm₃, hx₃⟩ => ?_
        exact ⟨h₃, fun e he => hm₃ e (hm₂ e (hm₁ e he)), hx₃⟩

theorem writeRequest_tracked {c : ConnId} {t : Target} (req : Request) {w : World}
    (h : Tracked cfg w) (hd : .dial c t ∈ w.trace) :
    WP (writeRequest env c req) w fun _ w' => Tracked cfg w' ∧ .dial c t ∈ w'.trace := by
  refine WP.bind_iff.mpr (ask_iff.mpr (WP.bind_iff.mpr (ask_iff.mpr (WP.bind_iff.mpr (ask_iff.mpr ?_)))))
  refine WP.bind_iff.mpr (WP.modify_iff.mpr (WP.bind_iff.mpr (emit_iff.mpr ?_)))
  have hsent : Tracked cfg { w with
      trace := w.trace ++ [.sent c req (env.answer c req w.trace)],
      inbox := Function.update w.inbox c (w.inbox c ++ env.answer c req w.trace) } := h.sent hd
  refine WP.ite (fun _ => ?_) fun _ => ⟨hsent, List.mem_append_left _ hd⟩
  have hn : Moves (Neutral cfg) (emit (.payload c (bodyBytes req.body (env.body req w.trace)))) :=
    emit_neutral cfg rfl
  exact WP.bind_iff.mpr ((hn _).mono fun _ w' hw => ⟨hw.tracked hsent, hw.mem _ (List.mem_append_left _ hd)⟩)

/-- What an exchange returns is the response received last, perhaps with `Close` set. -/
def HoldsLast (cfg : Config) (c : ConnId) (t : Target) (x : Option Response) (w : World) : Prop :=
  ∀ r, x = some r → ∃ r₀ close, r = { r₀ with close := r₀.close || close } ∧
    LastReceived cfg c t r₀ w ∧
    isInterimResponse r₀ = false

theorem joinUpload_holds {c : ConnId} {t : Target} {x : ReadResult} {w : World}
    (h : ∀ r, x.resp = some r → LastReceived cfg c t r w ∧ isInterimResponse r = false)
    (u : Upload) : HoldsLast cfg c t (joinUpload x u).resp w := by
  have hset : HoldsLast cfg c t (x.resp.map fun r => { r with close := true }) w := by
    intro r hr
    obtain ⟨r₀, hr₀, rfl⟩ := Option.map_eq_some_iff.mp hr
    exact ⟨r₀, true, by simp, h r₀ hr₀⟩
  rcases u with (_ | werr) | (_ | werr)
  · exact fun r hr => ⟨r, false, by simp, h r hr⟩
  · have hresp : (joinUpload x (.done (some werr))).resp = x.resp.map fun r => { r with close := true } := by
      simp only [joinUpload]
      cases x.resp <;> rfl
    rw [hresp]
    exact hset
  · exact hset
  · exact hset

theorem exchangeRequest_tracked {c : ConnId} {t : Target} (req : Request) {w : World}
    (h : Tracked cfg w) (hd : .dial c t ∈ w.trace) :
    WP (exchangeRequest env c req (readerFor cfg t)) w fun x w' => Tracked cfg w' ∧ .dial c t ∈ w'.trace ∧
      HoldsLast cfg c t x.resp w' := by
  refine WP.ite (fun _ => ?_) fun _ => ?_
  · refine WP.bind_iff.mpr ((writeRequest_tracked cfg env req h hd).mono fun err w₁ ⟨h₁, hd₁⟩ => ?_)
    cases err with
    | some werr => exact ⟨h₁, hd₁, fun _ hr => nomatch hr⟩
    | none =>
      refine WP.bind_iff.mpr (WP.bind_iff.mpr (WP.get_iff.mpr ?_))
      refine (readThroughInterim_tracked cfg env req _ h₁ hd₁).mono fun x w₂ ⟨h₂, hm₂, hx⟩ => ?_
      exact ⟨h₂, hm₂ _ hd₁, fun r hr => ⟨r, false, by simp, hx r hr⟩⟩
  · refine WP.bind_iff.mpr ((writeRequest_tracked cfg env req h hd).mono fun err w₁ ⟨h₁, hd₁⟩ => ?_)
    refine WP.bind_iff.mpr (WP.bind_iff.mpr (WP.get_iff.mpr ?_))
    refine (readThroughInterim_tracked cfg env req _ h₁ hd₁).mono fun x w₂ ⟨h₂, hm₂, hx⟩ => ?_
    exact ⟨h₂, hm₂ _ hd₁, joinUpload_holds cfg hx _⟩

/-- `readBody` takes data only. -/
theorem readBody_eq (ws : List Wire) : ∃ chunks :
    List Str, ws = chunks.map .data ++ (readBody ws).2 := by
  induction ws with
  | nil => exact ⟨[], rfl⟩
  | cons x ws ih =>
    cases x with
    | data bs =>
      obtain ⟨chunks, hws⟩ := ih
      exact ⟨bs :: chunks, by rw [List.map_cons, List.cons_append, readBody, ← hws]⟩
    | head r => exact ⟨[], rfl⟩
    | bad err => exact ⟨[], rfl⟩

/-- The final response, as it is written with a body. -/
theorem LastReceived.final {c : ConnId} {t : Target} {r : Response} {w : World}
    (h : LastReceived cfg c t r w) (hf : isInterimResponse r = false) (close : Bool) (body : Str) :
    Came cfg w.trace (.final { r with close := r.close || close } body) := by
  obtain ⟨p, r₀, hp, htook⟩ := h
  exact .final hp htook ((rewrite_interim cfg htook.rewritten).symm.trans hf)

theorem accepted_data (t : Target) (chunks : List Str) : accepted cfg t (chunks.map .data) = [] := by
  induction chunks with
  | nil => rfl
  | cons bs chunks ih => exact ih

theorem writeResponse_tracked {c : ConnId} {t : Target} {r : Response} {w : World}
    (h : Tracked cfg w) (hd : .dial c t ∈ w.trace) (hr : HoldsLast cfg c t (some r) w) :
    WP (writeResponse env c r) w fun _ w' => Tracked cfg w' ∧ .dial c t ∈ w'.trace := by
  obtain ⟨r₀, close, rfl, hhas, hf⟩ := hr r rfl
  refine WP.bind_iff.mpr (ask_iff.mpr (WP.bind_iff.mpr (WP.get_iff.mpr ?_)))
  obtain ⟨chunks, hws⟩ := readBody_eq (w.inbox c)
  have htake := h.take hd hws (accepted_data cfg t chunks)
  have hcame := hhas.final cfg hf (close || env.ctxDone w.trace) (readBody (w.inbox c)).1
  refine WP.bind_iff.mpr (WP.modify_iff.mpr (WP.bind_iff.mpr ?_))
  have hclose : (if env.ctxDone w.trace = true then { r₀ with close := true } else
      { r₀ with close := r₀.close || close } : Response) = { r₀ with close := r₀.close || (close || env.ctxDone w.trace) } := by
    cases env.ctxDone w.trace <;> simp
  rw [← hclose] at hcame
  exact (writeClient_tracked cfg env htake hcame).mono fun _ _ h' => ⟨h'.1, h'.2 _ hd⟩

theorem writeHTTPError_neutral {pe : ProxyError} (h : pe ∈ proxyErrors) :
    Moves (Neutral cfg) (writeHTTPError env pe) :=
  writeHTTPError_moves env fun _ => emit_neutral cfg (List.contains_iff_mem.mpr h)

/-! The errors that are answered are among the predefined ones. -/

theorem tokenErrorToProxyError_mem (err : GoError) : tokenErrorToProxyError err ∈ proxyErrors := by
  unfold tokenErrorToProxyError
  split_ifs <;> simp [proxyErrors]

theorem dialError_mem (err : DialErr) : dialError err ∈ proxyErrors := by
  unfold dialError
  split <;> simp [proxyErrors]

theorem upstreamResponseError_mem (err : RespErr) : upstreamResponseError err ∈ proxyErrors := by
  cases err <;> simp [upstreamResponseError, proxyErrors]

theorem verdict_reject_mem {req : Request} {pe : ProxyError} (h : verdict cfg req = .reject pe) :
    pe ∈ proxyErrors := by
  unfold verdict at h
  split_ifs at h
  · cases h
    simp [proxyErrors]
  · cases h
    simp [proxyErrors]
  · split at h <;> cases h

variable {cfg env} in
/-- A part of the session that is neutral. -/
theorem Tracked.moves {α : Type} {m : Prog α} {w : World} (h : Tracked cfg w)
    (hm : Moves (Neutral cfg) m) :
    WP m w fun _ w' => Tracked cfg w' := (hm w).mono fun _ _ hn => hn.tracked h

theorem finishRelay_tracked {c : ConnId} {t : Target} (req : Request) {x : Exchange}
    {onErr : RespErr → Prog Unit}
    (he : ∀ e, Moves (Neutral cfg) (onErr e)) {w : World} (h : Tracked cfg w)
    (hd : .dial c t ∈ w.trace) (hx : HoldsLast cfg c t x.resp w) :
    WP (finishRelay env c req x onErr) w fun _ w' => Tracked cfg w' ∧ .dial c t ∈ w'.trace := by
  have hneutral : ∀ {w' : World}, Neutral cfg w w' → Tracked cfg w' ∧ .dial c t ∈ w'.trace :=
    fun hn => ⟨hn.tracked h, hn.mem _ hd⟩
  refine WP.ite (fun _ => WP.bind_iff.mpr ?_) fun _ => WP.ite (fun _ => ⟨h, hd⟩) fun _ => ?_
  · exact (writeHTTPError_neutral cfg env (by simp [proxyErrors]) w).mono fun _ _ hn => hneutral hn
  · split
    next rerr _ => exact WP.bind_iff.mpr ((he rerr w).mono fun _ _ hn => hneutral hn)
    next => exact ⟨h, hd⟩
    next resp _ hresp =>
      rw [hresp] at hx
      refine WP.bind_iff.mpr ((writeResponse_tracked cfg env h hd hx).mono fun _ w' hw => ?_)
      exact WP.ite (fun _ => hw) fun _ => hw

/-- `relayDirect` and the tail of `relayViaUpstream`. -/
theorem relay_tracked {c : ConnId} {t : Target} (req : Request) {onErr : RespErr → Prog Unit}
    (he : ∀ e, Moves (Neutral cfg) (onErr e)) {w : World} (h : Tracked cfg w)
    (hd : .dial c t ∈ w.trace) :
    WP (exchangeRequest env c req (readerFor cfg t) >>= fun x => finishRelay env c req x onErr) w
      fun _ w' => Tracked cfg w' ∧ .dial c t ∈ w'.trace :=
  WP.bind_iff.mpr ((exchangeRequest_tracked cfg env req h hd).mono fun _ _ ⟨h₁, hd₁, hx⟩ =>
    finishRelay_tracked cfg env req he h₁ hd₁ hx)

theorem mem_of_last {tr : List Event} {e : Event} (h : ∃ p, tr = p ++ [e]) : e ∈ tr := by
  obtain ⟨p, rfl⟩ := h
  exact List.mem_append_right _ (List.mem_singleton_self _)

theorem dial_tracked (t : Target) {w : World} (h : Tracked cfg w) :
    WP (dial env t) w fun r w' => Tracked cfg w' ∧ ∀ c, r = .ok c → ∃ p, w'.trace = p ++ [.dial c t] := by
  refine WP.bind_iff.mpr (ask_iff.mpr ?_)
  cases env.dial t w.trace with
  | some err => exact ⟨h.neutral (e := .dialFailed t) rfl, fun _ hc => nomatch hc⟩
  | none =>
    refine ⟨h.dial, fun c hc => ?_⟩
    cases hc
    exact ⟨w.trace, rfl⟩

theorem dialAndAuthUpstream_tracked (req : Request) {w : World} (h : Tracked cfg w) :
    WP (dialAndAuthUpstream env req) w fun o w' =>
      Tracked cfg w' ∧ ∀ c r, o = some (c, r) → .dial c .upstream ∈ w'.trace := by
  refine WP.bind_iff.mpr (ask_iff.mpr (WP.bind_iff.mpr (emit_iff.mpr ?_)))
  have h₁ : ∀ r, Tracked cfg { w with trace := w.trace ++ [.token r] } := fun r => h.neutral rfl
  cases env.getToken w.trace with
  | error terr =>
    refine WP.bind_iff.mpr (((h₁ _).moves (writeHTTPError_neutral cfg env (tokenErrorToProxyError_mem terr))).mono fun _ _ h₂ => ?_)
    exact ⟨h₂, fun _ _ hc => nomatch hc⟩
  | ok token =>
    refine WP.bind_iff.mpr ((dial_tracked cfg env .upstream (h₁ _)).mono fun r w₂ ⟨h₂, hd⟩ => ?_)
    cases r with
    | error derr =>
      refine WP.bind_iff.mpr ((h₂.moves (writeHTTPError_neutral cfg env (dialError_mem derr))).mono fun _ _ h₃ => ?_)
      exact ⟨h₃, fun _ _ hc => nomatch hc⟩
    | ok c =>
      refine ⟨h₂, fun c' r hc => ?_⟩
      cases hc
      exact mem_of_last (hd c rfl)

theorem relayViaUpstream_tracked (req : Request) {w : World} (h : Tracked cfg w) :
    WP (relayViaUpstream cfg env req) w fun _ w' => Tracked cfg w' := by
  refine WP.bind_iff.mpr (ask_iff.mpr (WP.bind_iff.mpr ?_))
  have hconn : ∀ req', WP (upstreamConn env req') w fun o w' =>
      Tracked cfg w' ∧ ∀ c r, o = some (c, r) → .dial c .upstream ∈ w'.trace := by
    intro req'
    refine WP.bind_iff.mpr (WP.get_iff.mpr ?_)
    cases hk : w.proxyConn with
    | some c =>
      refine ⟨h, fun c' r hc => ?_⟩
      cases hc
      exact h.kept hk
    | none => exact dialAndAuthUpstream_tracked cfg env req' h
  refine (hconn _).mono fun o w₁ ⟨h₁, hd⟩ => ?_
  cases o with
  | none => exact h₁
  | some x =>
    obtain ⟨c, r⟩ := x
    have hd := hd c r rfl
    refine WP.bind_iff.mpr (WP.modify_iff.mpr ?_)
    have h₂ : Tracked cfg { w₁ with proxyConn := some c } := by
      refine ⟨h₁.flow, h₁.dialled, h₁.once, h₁.fresh, fun {c'} hk => ?_, h₁.came, h₁.known⟩
      cases hk
      exact hd
    have hanswer : ∀ e, Moves (Neutral cfg) (writeHTTPError env (upstreamResponseError e)) :=
      fun e => writeHTTPError_neutral cfg env (upstreamResponseError_mem e)
    exact (relay_tracked cfg env (t := .upstream) _ hanswer h₂ hd).mono fun _ _ hw => hw.1

theorem validateRequest_neutral (req : Request) (w : World) :
    WP (validateRequest cfg env req) w fun v w' => Neutral cfg w w' ∧ v = verdict cfg req := by
  unfold validateRequest
  cases verdict cfg req with
  | proceed r => exact ⟨refl_of (Neutral cfg) w, rfl⟩
  | reject pe => exact ⟨refl_of (Neutral cfg) w, rfl⟩
  | answered => exact ⟨writeClient_moves env (fun _ => emit_neutral cfg rfl) w, rfl⟩

theorem nextDirectRequest_neutral (host : Str) :
    Moves (Neutral cfg) (nextDirectRequest cfg env host) := by
  refine (readRequest_moves env fun _ => emit_neutral cfg rfl).bind fun r => ?_
  cases r with
  | error err => exact .pure _
  | ok req =>
    refine .ite (fun _ => .pure _) fun _ w => ?_
    refine WP.bind_iff.mpr ((validateRequest_neutral cfg env req w).mono fun v w₁ ⟨hn, hv⟩ => ?_)
    have hafter : ∀ {m : Prog Next}, Moves (Neutral cfg) m → WP m w₁ fun _ w' => Neutral cfg w w' :=
      fun hm => (hm w₁).mono fun _ _ h' => IsTrans.trans _ _ _ hn h'
    cases v with
    | answered => exact hn
    | reject pe => exact hafter ((writeHTTPError_neutral cfg env (verdict_reject_mem cfg hv.symm)).bind fun _ => .pure _)
    | proceed r =>
      exact hafter (.ite (fun _ => (writeHTTPError_neutral cfg env (by simp [proxyErrors])).bind fun _ => .pure _)
        fun _ => .pure _)

theorem directLoop_tracked {c : ConnId} {host addr : Str} (n : Nat) (req : Request) {w : World}
    (h : Tracked cfg w) (hd : .dial c (.direct host addr) ∈ w.trace) :
    WP (directLoop cfg env c host n req) w fun _ w' => Tracked cfg w' := by
  induction n generalizing req w with
  | zero => exact h
  | succ n ih =>
    have hquiet : ∀ _ : RespErr, Moves (Neutral cfg) (pure () : Prog Unit) := fun _ => .pure _
    refine WP.bind_iff.mpr ((relay_tracked cfg env req hquiet h hd).mono fun ok w₁ ⟨h₁, hd₁⟩ => ?_)
    refine WP.ite (fun _ => h₁) fun _ => WP.bind_iff.mpr ?_
    refine (nextDirectRequest_neutral cfg env host w₁).mono fun x w₂ hn => ?_
    cases x with
    | stop => exact hn.tracked h₁
    | reroute req => exact hn.tracked h₁
    | relay req => exact ih req (hn.tracked h₁) (hn.mem _ hd₁)

theorem forwardDirect_tracked (n : Nat) (req : Request) {w : World} (h : Tracked cfg w) :
    WP (forwardDirect cfg env n req) w fun _ w' => Tracked cfg w' := by
  refine WP.bind_iff.mpr ((dial_tracked cfg env _ h).mono fun r w₁ ⟨h₁, hd⟩ => ?_)
  cases r with
  | error err => exact WP.bind_iff.mpr (h₁.moves (writeHTTPError_neutral cfg env (dialError_mem err)))
  | ok c =>
    exact directLoop_tracked cfg env n req h₁ (mem_of_last (hd c rfl))

theorem forwardTunnel_neutral (c : ConnId) (steps : List TunnelStep) :
    Moves (Neutral cfg) (forwardTunnel env c steps) :=
  forwardTunnel_moves env (fun _ => emit_neutral cfg rfl) (fun _ _ => emit_neutral cfg rfl) steps

theorem tunnelDirect_tracked (req : Request) {w : World} (h : Tracked cfg w) :
    WP (tunnelDirect cfg env req) w fun _ w' => Tracked cfg w' := by
  refine WP.bind_iff.mpr ((dial_tracked cfg env _ h).mono fun r w₁ ⟨h₁, hd⟩ => ?_)
  cases r with
  | error err => exact h₁.moves (writeHTTPError_neutral cfg env (dialError_mem err))
  | ok c =>
    obtain ⟨p, hp⟩ := hd c rfl
    refine WP.bind_iff.mpr (WP.bind_iff.mpr ((writeClient_tracked cfg env h₁ (.directOK hp)).mono fun err w₂ ⟨h₂, _⟩ => ?_))
    refine WP.ite (fun _ => WP.bind_iff.mpr (ask_iff.mpr ?_)) fun _ => h₂
    exact h₂.moves (forwardTunnel_neutral cfg env c _)

theorem handleConnectTunnel_tracked {c : ConnId} (req : Request) {w : World} (h : Tracked cfg w)
    (hd : .dial c .upstream ∈ w.trace) :
    WP (handleConnectTunnel cfg env c req) w fun _ w' => Tracked cfg w' := by
  refine WP.bind_iff.mpr (WP.bind_iff.mpr (WP.get_iff.mpr ?_))
  refine (readThroughInterim_tracked cfg env (t := .upstream) req _ h hd).mono fun x w₁ ⟨h₁, _, hx⟩ => ?_
  refine WP.ite (fun _ => h₁) fun _ => ?_
  split
  next err _ => exact h₁.moves (writeHTTPError_neutral cfg env (upstreamResponseError_mem err))
  next => exact h₁
  next resp _ hresp =>
    obtain ⟨hhas, hf⟩ := hx resp hresp
    refine WP.ite (fun _ => ?_) fun hcode => ?_
    · refine WP.bind_iff.mpr (WP.get_iff.mpr (WP.bind_iff.mpr ?_))
      have hcame := hhas.final cfg hf false (readBody (w₁.inbox c)).1
      rw [Bool.or_false] at hcame
      exact (writeClient_tracked cfg env h₁ hcame).mono fun _ _ hw => hw.1
    · have hcame : Came cfg w₁.trace (.connectOK resp) := by
        obtain ⟨p, r, hp, htook⟩ := hhas
        have hcode' := htook.preserves.status.2
        exact .connectOK hp htook (by omega) (by omega)
      refine WP.bind_iff.mpr ((writeClient_tracked cfg env h₁ hcame).mono fun err w₂ ⟨h₂, _⟩ => ?_)
      refine WP.ite (fun _ => WP.bind_iff.mpr (ask_iff.mpr ?_)) fun _ => h₂
      exact h₂.moves (forwardTunnel_neutral cfg env c _)

theorem tunnelViaUpstream_tracked (req : Request) {w : World} (h : Tracked cfg w) :
    WP (tunnelViaUpstream cfg env req) w fun _ w' => Tracked cfg w' := by
  refine WP.bind_iff.mpr (ask_iff.mpr (WP.bind_iff.mpr ?_))
  refine (dialAndAuthUpstream_tracked cfg env _ h).mono fun o w₁ ⟨h₁, hd⟩ => ?_
  cases o with
  | none => exact h₁
  | some x =>
    obtain ⟨c, r⟩ := x
    refine WP.bind_iff.mpr (WP.bind_iff.mpr ?_)
    refine (writeRequest_tracked cfg env _ h₁ (hd c r rfl)).mono fun err w₂ ⟨h₂, hd₂⟩ => ?_
    refine WP.ite (fun _ => h₂.moves (writeHTTPError_neutral cfg env (by simp [proxyErrors]))) fun _ => ?_
    exact handleConnectTunnel_tracked cfg env _ h₂ hd₂

theorem routeRequest_tracked (n : Nat) (req : Request) {w : World} (h : Tracked cfg w) :
    WP (routeRequest cfg env n req) w fun _ w' => Tracked cfg w' := by
  refine WP.ite (fun _ => ?_) fun _ => ?_
  · refine WP.ite (fun _ => ?_) fun _ => ?_
    · exact WP.bind_iff.mpr (tunnelDirect_tracked cfg env req h)
    · exact WP.bind_iff.mpr (forwardDirect_tracked cfg env n _ h)
  · refine WP.ite (fun _ => ?_) fun _ => ?_
    · exact WP.bind_iff.mpr (tunnelViaUpstream_tracked cfg env req h)
    · exact WP.bind_iff.mpr (relayViaUpstream_tracked cfg env req h)

theorem takeRequest_tracked (pending : Option Request) (iter : Nat) {w : World}
    (h : Tracked cfg w) : WP (takeRequest env pending iter) w fun _ w' => Tracked cfg w' := by
  cases pending with
  | some req => exact h
  | none =>
    have hread : Moves (Neutral cfg) (readNextRequest env iter) := by
      refine (readRequest_moves env fun _ => emit_neutral cfg rfl).bind fun r => ?_
      cases r with
      | ok req => exact .pure _
      | error err =>
        exact .ite (fun _ => .pure _) fun _ => (writeHTTPError_neutral cfg env (by simp [proxyErrors])).bind fun _ => .pure _
    exact h.moves hread

theorem runLoop_tracked (n : Nat) (pending : Option Request) (iter : Nat) {w : World}
    (h : Tracked cfg w) : WP (runLoop cfg env n pending iter) w fun _ w' => Tracked cfg w' := by
  induction n generalizing pending iter w with
  | zero => exact h
  | succ n ih =>
    refine WP.bind_iff.mpr ((takeRequest_tracked cfg env pending iter h).mono fun o w₁ h₁ => ?_)
    cases o with
    | none => exact h₁
    | some req =>
      refine WP.bind_iff.mpr ((validateRequest_neutral cfg env req w₁).mono fun v w₂ ⟨hn, hv⟩ => ?_)
      have h₂ := hn.tracked h₁
      cases v with
      | answered => exact h₂
      | reject pe => exact h₂.moves (writeHTTPError_neutral cfg env (verdict_reject_mem cfg hv.symm))
      | proceed req =>
        refine WP.bind_iff.mpr ((routeRequest_tracked cfg env n req h₂).mono fun x w₃ h₃ => ?_)
        exact WP.ite (fun _ => ih x.1 (iter + 1) h₃) fun _ => h₃

end

end SP.Proof
