import SpnegoProxy.Proof.Hosts
import SpnegoProxy.Proof.Session.Routes

/-!
# The addresses that are dialled

`dialDirect` dials a host that has a port as it stands, and joins any other
with the default port. `dial_agrees_iff`: this is the form that `sameHost`
compares, up to letter case, except for a host in brackets without a port
(whose brackets are doubled), for a host in brackets without a colon, and for
white space at the ends. `connect_port_agrees`: the port that `validateRequest`
checks of a `CONNECT` request is the one that `tunnelDirect` dials.
-/

namespace SP.Proof

open SP.Go SP.Impl

/-! ## The canonical form -/

/-- The hosts that `dialDirect` dials in canonical form. -/
structure Dialable (h : Str) : Prop where
  begins : beginsWithSpace h = false
  ends : endsWithSpace h = false
  /-- With a port, brackets stand around a host with a colon. -/
  split {host port : Str} : splitHostPort h = .ok (host, port) → h.head? = some lbrack →
    colon ∈ host
  /-- Without a port, there are none to strip. -/
  unsplit {e : AddrErr} : splitHostPort h = .error e →
    ¬ (h.head? = some lbrack ∧ h.getLast? = some rbrack)

theorem toLower_joinHostPort (h p : Str) :
    toLower (joinHostPort h p) = joinHostPort (toLower h) (toLower p) := by
  simp only [joinHostPort, mem_toLower delim_colon]
  split
  · rw [List.cons_append, toLower_cons delim_lbrack, toLower_append delim_rbrack,
    toLower_cons delim_colon]
    rfl
  · exact toLower_append delim_colon h p

section

variable {h p : Str}

/-- A host and a port are in canonical form unless brackets stand around a
host without a colon. -/
theorem joinHostPort_eq_iff {host port s : Str} (hs : HostPort host port s) :
    s = joinHostPort host port ↔ (s.head? = some lbrack → colon ∈ host) := by
  cases hs with
  | bracketed =>
    simp only [List.head?_cons, forall_const, joinHostPort]
    split
    · rename_i hc
      simp [hc]
    · rename_i hc
      refine iff_of_false (fun he => ?_) hc
      have hl := congrArg List.length he
      simp only [List.length_cons, List.length_append] at hl
      omega
  | plain hh _ hc =>
    have hhead : (host ++ colon :: port).head? ≠ some lbrack := by
      cases host with
      | nil => exact fun he => absurd (Option.some.inj he) (by decide)
      | cons b host => exact fun he => hh.1 (List.mem_cons.mpr (.inl (Option.some.inj he).symm))
    rw [joinHostPort, if_neg hc]
    exact iff_of_true rfl fun he => absurd he hhead

/-- Without white space at its ends, a host with a port. -/
theorem agrees_split_iff (hb : beginsWithSpace h = false) (he : endsWithSpace h = false)
    {host port : Str} (hs : splitHostPort h = .ok (host, port)) :
    toLower (dialTarget h p) = canonHost p h ↔ (h.head? = some lbrack → colon ∈ host) := by
  have hl : splitHostPort (toLower h) = .ok (toLower host, toLower port) :=
    by rw [splitHostPort_toLower, hs]; rfl
  have hd : dialTarget h p = h := by rw [dialTarget, hs]
  have hc : canonHost p h = joinHostPort (toLower host) (toLower port) := by
    simp only [canonHost, trimSpace_eq hb he, hl]
  rw [hd, hc, joinHostPort_eq_iff (HostPort.of_split hl), head_toLower delim_lbrack,
    mem_toLower delim_colon]

/-- Without white space at its ends, a host without a port. -/
theorem agrees_unsplit_iff (hb : beginsWithSpace h = false) (he : endsWithSpace h = false)
    {e : AddrErr} (hs : splitHostPort h = .error e) (hp : colon ∉ p) (hlow : toLower p = p) :
    toLower (dialTarget h p) = canonHost p h ↔
      ¬ (h.head? = some lbrack ∧ h.getLast? = some rbrack) := by
  have hl : splitHostPort (toLower h) = .error e := by rw [splitHostPort_toLower, hs]; rfl
  have hd : toLower (dialTarget h p) = joinHostPort (toLower h) p := by
    simp only [dialTarget, hs, toLower_joinHostPort, hlow]
  have hc : canonHost p h = joinHostPort (stripIPv6Brackets (toLower h)) p := by
    simp only [canonHost, trimSpace_eq hb he, hl]
  rw [hd, hc, ← head_toLower delim_lbrack, ← getLast_toLower delim_rbrack]
  rcases stripIPv6Brackets_cases (toLower h) with ⟨t, ht, hstrip⟩ | ⟨hn, hstrip⟩
  · refine iff_of_false (fun heq => ?_) fun hn => hn ?_
    · obtain ⟨heq, -⟩ := joinHostPort_inj hp hp heq
      have hlen := congrArg List.length (heq.symm.trans ht)
      rw [hstrip] at hlen
      simp only [List.length_cons, List.length_append, List.length_nil] at hlen
      omega
    · rw [ht]
      exact ⟨rfl, getLast_brackets t _ _⟩
  · rw [hstrip]
    exact iff_of_true rfl hn

/-! ## White space -/

theorem length_stripIPv6Brackets (s : Str) : (stripIPv6Brackets s).length ≤ s.length := by
  rcases stripIPv6Brackets_cases s with ⟨t, ht, hs⟩ | ⟨-, hs⟩
  · rw [hs, ht]
    simp only [List.length_cons, List.length_append]
    omega
  · rw [hs]

theorem length_joinHostPort {host port s : Str} (hs : HostPort host port s) :
    host.length < s.length ∧ (joinHostPort host port).length ≤ s.length := by
  cases hs with
  | bracketed =>
    simp only [joinHostPort]
    split <;> simp only [List.length_cons, List.length_append] <;> omega
  | plain _ _ hc =>
    rw [joinHostPort, if_neg hc]
    simp only [List.length_cons, List.length_append]
    omega

/-- A host and a port are that also between bytes that are no delimiters. -/
theorem HostPort.of_cut {host port l m r : Str} (hs : HostPort host port (l ++ m ++ r))
    (hd : ∀ {c : UInt8}, Delim c → c ∉ l ∧ c ∉ r) : ∃ host' port', HostPort host' port' m := by
  obtain ⟨hcl, hcr⟩ := hd delim_colon
  have hcolon : colon ∈ m := by
    have hall : colon ∈ l ++ m ++ r := by
      generalize l ++ m ++ r = s at hs
      cases hs <;> simp
    simpa [hcl, hcr] using hall
  generalize hall : l ++ m ++ r = s at hs
  cases hs with
  | plain hh hp hch hc =>
    -- the first colon of `m` is the one of the string
    obtain ⟨m₁, m₂, rfl, hm₁⟩ := List.eq_append_cons_of_mem hcolon
    have hcut : cutFirst colon (host ++ colon :: port) = some (l ++ m₁, m₂ ++ r) := by
      rw [← hall]
      exact cutFirst_eq_some.mpr ⟨by simp, by simp [hcl, hm₁]⟩
    rw [cutFirst_append hch] at hcut
    obtain ⟨rfl, rfl⟩ := Prod.mk.inj (Option.some.inj hcut)
    simp only [NoBracket, List.mem_append, not_or] at hh hp hc
    exact ⟨m₁, m₂, .plain ⟨hh.1.2, hh.2.2⟩ ⟨hp.1.1, hp.2.1⟩ hm₁ hc.1⟩
  | bracketed hh hp hc =>
    have hl : l = [] := by
      cases l with
      | nil => rfl
      | cons b l =>
        obtain rfl : b = lbrack := (List.cons_eq_cons.mp hall).1
        exact absurd (List.mem_cons_self ..) (hd delim_lbrack).1
    subst hl
    obtain ⟨m₁, m₂, rfl, hm₂⟩ := eq_append_last hcolon
    have hcut : cutLast colon (lbrack :: (host ++ rbrack :: colon :: port)) = some (m₁, m₂ ++ r) := by
      rw [← hall]
      exact cutLast_eq_some.mpr ⟨by simp, by simp [hcr, hm₂]⟩
    rw [show lbrack :: (host ++ rbrack :: colon :: port) = (lbrack :: (host ++ [rbrack])) ++ colon :: port by simp,
      cutLast_append hc] at hcut
    obtain ⟨rfl, rfl⟩ := Prod.mk.inj (Option.some.inj hcut)
    simp only [NoBracket, List.mem_append, not_or] at hp hc
    refine ⟨host, m₂, ?_⟩
    simpa using HostPort.bracketed hh ⟨hp.1.1, hp.2.1⟩ hc.1

/-- White space at an end is dialled, and not in the canonical form. -/
theorem not_agrees_of_space (hsp : beginsWithSpace h = true ∨ endsWithSpace h = true)
    (hp : colon ∉ p) (hlow : toLower p = p) : toLower (dialTarget h p) ≠ canonHost p h := by
  have hlt := length_toLower_trimSpace hsp
  intro heq
  cases hs : splitHostPort h with
  | ok hostport =>
    obtain ⟨host, port⟩ := hostport
    -- what is left without the white space is a host and a port too
    obtain ⟨l, r, hcut, hd⟩ := trimSpace_cut h
    have hhp := HostPort.of_split hs
    rw [hcut] at hhp
    obtain ⟨host', port', ht⟩ := hhp.of_cut hd
    have hl : splitHostPort (toLower (trimSpace h)) = .ok (toLower host', toLower port') := by
      rw [splitHostPort_toLower, ht.split]; rfl
    have hc : canonHost p h = joinHostPort (toLower host') (toLower port') :=
      by simp only [canonHost, hl]
    have hlen := (length_joinHostPort (HostPort.of_split hl)).2
    rw [← hc, ← heq, dialTarget, hs] at hlen
    simp only at hlen
    omega
  | error e =>
    have hd : toLower (dialTarget h p) = joinHostPort (toLower h) p := by
      simp only [dialTarget, hs, toLower_joinHostPort, hlow]
    rw [hd, canonHost] at heq
    split at heq
    · rename_i host port hl
      have hlen := (length_joinHostPort (HostPort.of_split hl)).1
      rw [← (joinHostPort_inj hp (HostPort.of_split hl).port.2 heq).1] at hlen
      omega
    · have hlen := length_stripIPv6Brackets (toLower (trimSpace h))
      rw [← (joinHostPort_inj hp hp heq).1] at hlen
      omega

theorem agrees_iff (hp : colon ∉ p) (hlow : toLower p = p) :
    toLower (dialTarget h p) = canonHost p h ↔ Dialable h := by
  by_cases hsp : beginsWithSpace h = true ∨ endsWithSpace h = true
  · refine iff_of_false (not_agrees_of_space hsp hp hlow) fun hd => ?_
    rw [hd.begins, hd.ends] at hsp
    simp at hsp
  · simp only [not_or, Bool.not_eq_true] at hsp
    obtain ⟨hb, he⟩ := hsp
    cases hs : splitHostPort h with
    | ok hostport =>
      rw [agrees_split_iff hb he hs]
      refine ⟨fun hc => ⟨hb, he, fun hs' => ?_, fun hs' => ?_⟩, fun hd => hd.split hs⟩
      · rw [hs] at hs'; cases hs'; exact hc
      · rw [hs] at hs'; cases hs'
    | error e =>
      rw [agrees_unsplit_iff hb he hs hp hlow]
      refine ⟨fun hn => ⟨hb, he, fun hs' => ?_, fun _ => hn⟩, fun hd => hd.unsplit hs⟩
      rw [hs] at hs'; cases hs'

end

/-! ## Literals -/

/-- A string that parses as an IPv6 address has a colon. -/
theorem colon_mem_of_parseAddr {s : Str} {a : BitVec 128} {zone : Str}
    (h : parseAddr s = .v6 a zone) : colon ∈ s := by
  rw [parseAddr] at h
  split at h
  · rename_i b hb
    split_ifs at h with h₁ h₂
    · rw [parseIPv4] at h
      split at h <;> cases h
    · exact h₂ ▸ List.mem_of_find?_eq_some hb
  · cases h

/-- The host `h` is dialled as the literal that the matcher sees. -/
def DialledAsLiteral (h p : Str) : Prop :=
  ∃ lit port, dialTarget h p = lbrack :: (lit ++ rbrack :: colon :: port) ∧
    toLower lit = matchHost h

theorem dialledAsLiteral {h p : Str} (hd : Dialable h) {a : BitVec 128} {zone : Str}
    (ha : parseAddr (matchHost h) = .v6 a zone) : DialledAsLiteral h p := by
  have hc := colon_mem_of_parseAddr ha
  rw [DialledAsLiteral, dialTarget]
  rw [matchHost] at hc ⊢
  cases hs : splitHostPort h with
  | ok hostport =>
    obtain ⟨host, port⟩ := hostport
    simp only [hs, mem_toLower delim_colon] at hc
    cases HostPort.of_split hs with
    | bracketed => exact ⟨host, port, rfl, rfl⟩
    | plain _ _ hn => exact absurd hc hn
  | error e =>
    have hn := hd.unsplit hs
    have hstrip : stripIPv6Brackets h = h := by
      rcases stripIPv6Brackets_cases h with ⟨t, ht, -⟩ | ⟨-, hstrip⟩
      · exact absurd ⟨by rw [ht]; rfl, by rw [ht, getLast_brackets]⟩ hn
      · exact hstrip
    simp only [hs, hstrip, mem_toLower delim_colon] at hc ⊢
    refine ⟨h, p, ?_, rfl⟩
    rw [joinHostPort, if_pos hc]
    rfl

/-- The default ports of `dialDirect`. -/
def defaultPorts : List Str := [str "80", str "443"]

/-- `dialDirect` dials the form that `sameHost` compares exactly for the hosts
of `Dialable`; these are dialled alike if `sameHost` takes them for the same,
and an IPv6 literal among them is dialled as that literal. -/
theorem dial_agrees_iff {p : Str} (hp : p ∈ defaultPorts) (h : Str) :
    (toLower (dialTarget h p) = canonHost p h ↔ Dialable h) ∧
    (Dialable h → ∀ b, Dialable b → sameHost h b p = true → toLower (dialTarget h p) = toLower (dialTarget b p)) ∧
    (Dialable h → ∀ a zone, parseAddr (matchHost h) = .v6 a zone → DialledAsLiteral h p) := by
  have hport : ∀ p ∈ defaultPorts, colon ∉ p ∧ toLower p = p := by decide +kernel
  obtain ⟨hc, hlow⟩ := hport p hp
  refine ⟨agrees_iff hc hlow, fun hd b hb hsame => ?_, fun hd a zone ha => dialledAsLiteral hd ha⟩
  have hcanon : canonHost p h = canonHost p b := by simpa [sameHost] using hsame
  rw [(agrees_iff hc hlow).mpr hd, (agrees_iff hc hlow).mpr hb, hcanon]

/-- An IPv6 literal with a port, in capitals. -/
def literalHost : Str := str "[2001:DB8::1]:8080"

theorem dial_agrees_literalHost :
    toLower (dialTarget literalHost (str "80")) = canonHost (str "80") literalHost ∧
    DialledAsLiteral literalHost (str "80") := by
  have hs : splitHostPort literalHost = .ok (str "2001:DB8::1", str "8080") := by decide +kernel
  have hd : Dialable literalHost := by
    refine ⟨by decide +kernel, by decide +kernel, fun hs' _ => ?_, fun hs' => ?_⟩
    · rw [hs] at hs'
      cases hs'
      decide +kernel
    · rw [hs] at hs'
      cases hs'
  obtain ⟨hagree, -, hlit⟩ := dial_agrees_iff (p := str "80") (by decide +kernel) literalHost
  exact ⟨hagree.mpr hd, hlit hd 0x20010DB8000000000000000000000001 [] (by decide +kernel)⟩

/-- An IPv6 literal without a port is taken for the one with the default port,
covered as that literal, and dialled with its brackets doubled. -/
theorem bracketedHost_dialled : sameHost (str "[::1]") (str "[::1]:80") (str "80") = true ∧
    parseAddr (matchHost (str "[::1]")) = .v6 1 [] ∧
      dialTarget (str "[::1]") (str "80") = str "[[::1]]:80" ∧
    toLower (dialTarget (str "[::1]") (str "80")) ≠ canonHost (str "80") (str "[::1]") ∧
    toLower (dialTarget (str "[::1]") (str "80")) ≠ toLower (dialTarget (str "[::1]:80") (str "80")) := by
  decide +kernel

/-! ## The port of a tunnel -/

/-- The port of the address that is dialled for a `CONNECT` is the one checked. -/
theorem connectPort_of_dialTarget {h host port : Str}
    (hs : splitHostPort (dialTarget h (str "443")) = .ok (host, port)) : port = connectPort h := by
  rw [dialTarget] at hs
  rw [connectPort]
  cases hh : splitHostPort h with
  | ok hostport =>
    simp only [hh] at hs
    cases hs
    rfl
  | error e =>
    rw [hh] at hs
    have h443 : colon ∉ str "443" := by decide
    exact splitHostPort_joinHostPort h443 hs

section

variable {cfg : Config} {req r : Request}

theorem port_mem_of_verdict (hv : verdict cfg req = .proceed r) (hm : req.method = methodConnect)
    (hne : cfg.connectPorts ≠ []) (hstar : str "*" ∉ cfg.connectPorts) :
    connectPort req.host ∈ cfg.connectPorts := by
  have hallowed : connectPortAllowed (connectPort req.host) cfg.connectPorts = true := by
    rw [verdict] at hv
    split_ifs at hv with _ hport
    by_contra hn
    exact hport ⟨hm, hne, Bool.not_eq_true _ ▸ hn⟩
  rw [connectPortAllowed, Bool.or_eq_true, decide_eq_true_iff, or_iff_right hne,
    List.any_eq_true] at hallowed
  obtain ⟨p, hp, hmatch⟩ := hallowed
  rw [Bool.or_eq_true, decide_eq_true_iff, decide_eq_true_iff] at hmatch
  rcases hmatch with rfl | rfl
  · exact absurd hp hstar
  · exact hp

end

/-- The address that an event of a direct dial has. -/
def dialledAddr : Event → Option Str
  | .dial _ (.direct _ addr) => some addr
  | .dialFailed (.direct _ addr) => some addr
  | _ => none

/-- From `w` to `w'` the session dialled the addresses `addrs` directly. -/
def Dials (addrs : List Str) (w w' : World) : Prop :=
  ∃ es, w'.trace = w.trace ++ es ∧ es.filterMap dialledAddr = addrs

theorem Dials.trans {a b : List Str} {w w' w'' : World} (h : Dials a w w') (h' : Dials b w' w'') :
    Dials (a ++ b) w w'' := by
  obtain ⟨es, ht, rfl⟩ := h
  obtain ⟨es', ht', rfl⟩ := h'
  exact ⟨es ++ es', by rw [ht', ht, List.append_assoc], List.filterMap_append⟩

theorem forwardTunnel_dials (env : Env) (c : ConnId) (steps : List TunnelStep) (w : World) :
    WP (forwardTunnel env c steps) w fun _ w' => Dials [] w w' := by
  induction steps generalizing w with
  | nil => exact ⟨[], (List.append_nil _).symm, rfl⟩
  | cons s steps ih =>
    cases s with
    | up bs =>
      have hup : Dials [] w { w with trace := w.trace ++ [.payload c bs] } := ⟨[_], rfl, rfl⟩
      exact WP.bind_iff.mpr ((ih _).mono fun _ _ h => hup.trans h)
    | down bs =>
      have hdown : WP (writeClient env (.data bs)) w fun _ w' => Dials [] w w' := ⟨[_], rfl, rfl⟩
      exact WP.bind_iff.mpr (hdown.mono fun _ w₁ h₁ => (ih w₁).mono fun _ _ h => h₁.trans h)

/-- `tunnelDirect` dials one address. -/
theorem tunnelDirect_dials (cfg : Config) (env : Env) (r : Request) (w : World) :
    WP (tunnelDirect cfg env r) w fun _ w' => Dials [dialTarget r.host (str "443")] w w' := by
  have hdial : WP (dial env (.direct r.host (dialTarget r.host (str "443")))) w fun _ w' =>
      Dials [dialTarget r.host (str "443")] w w' := by
    refine WP.bind_iff.mpr (ask_iff.mpr ?_)
    cases env.dial _ w.trace with
    | some err => exact ⟨[_], rfl, rfl⟩
    | none => exact ⟨[_], rfl, rfl⟩
  refine WP.bind_iff.mpr (hdial.mono fun x w₁ h₁ => ?_)
  have hwrite : ∀ m,
    WP (writeClient env m) w₁ fun _ w' => Dials [dialTarget r.host (str "443")] w w' :=
    fun m => h₁.trans (b := []) ⟨[_], rfl, rfl⟩
  cases x with
  | error err => exact hwrite _
  | ok c =>
    refine WP.bind_iff.mpr (WP.bind_iff.mpr ((hwrite _).mono fun err w₂ h₂ => WP.ite (fun _ => ?_) fun _ => h₂))
    exact WP.bind_iff.mpr (ask_iff.mpr ((forwardTunnel_dials env c _ w₂).mono fun _ _ h => h₂.trans h))

/-- A `CONNECT` request that passes the gate for ports is dialled at a port of
the list, the one that the gate has judged, or at no port at all. -/
theorem connect_port_agrees (cfg : Config) (env : Env) {req r : Request}
    (hv : verdict cfg req = .proceed r)
    (hm : req.method = methodConnect) (hne : cfg.connectPorts ≠ [])
    (hstar : str "*" ∉ cfg.connectPorts) (w : World) :
    WP (tunnelDirect cfg env r) w fun _ w' => ∃ addr, Dials [addr] w w' ∧
      ∀ host port, splitHostPort addr = .ok (host, port) → port ∈ cfg.connectPorts ∧
        port = connectPort req.host := by
  have hmem := port_mem_of_verdict hv hm hne hstar
  have hhost : r.host = req.host := (verdict_host cfg hv).1
  refine (tunnelDirect_dials cfg env r w).mono fun _ w' h => ⟨_, h, fun host port hs => ?_⟩
  rw [hhost] at hs
  have hport := connectPort_of_dialTarget hs
  exact ⟨hport ▸ hmem, hport⟩

/-- A tunnel to the default port. -/
def gatedConfig : Config := { plainConfig with connectPorts := [str "443", str "8443"] }

def gatedConnect : Request := { plainGet (str "a.example") ⟨∅⟩ with method := methodConnect }

theorem connect_port_agrees_gatedConnect : ∃ r, verdict gatedConfig gatedConnect = .proceed r ∧
    ∀ env w, WP (tunnelDirect gatedConfig env r) w fun _ w' => ∃ addr, Dials [addr] w w' ∧
      ∀ host port, splitHostPort addr = .ok (host, port) →
        port ∈ gatedConfig.connectPorts ∧ port = connectPort gatedConnect.host := by
  have hv : verdict gatedConfig gatedConnect = .proceed (sanitizeHopByHop gatedConnect) := by rfl
  exact ⟨_, hv, fun env w => connect_port_agrees gatedConfig env hv rfl (by decide) (by decide) w⟩

end SP.Proof
