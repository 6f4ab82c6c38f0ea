import SpnegoProxy.Impl.NoProxy
import SpnegoProxy.Proof.Go.Net

/-!
# Two canonical forms of a host

`sameHost` compares hosts in the form `canonHost` gives them, and a noproxy
matcher looks at the form `matchHost` gives them. `matchHost_of_sameHost`:
hosts without white space at their ends that are the same for the one are
the same for the other, whatever bytes they have. The one puts a host in lower case before
it splits off the port, the other after, so the heart of it is that
`net.SplitHostPort` commutes with `strings.ToLower`.
-/

namespace SP.Proof

open SP.Go SP.Impl

theorem delim_colon : Delim colon := .inl rfl
theorem delim_lbrack : Delim lbrack := .inr (.inl rfl)
theorem delim_rbrack : Delim rbrack := .inr (.inr rfl)

/-- The lower case of the host and the port. -/
abbrev lowerPair : Str × Str → Str × Str := Prod.map toLower toLower

theorem checkBrackets_toLower (l r host port : Str) :
    checkBrackets (toLower l) (toLower r) (toLower host) (toLower port) =
      (checkBrackets l r host port).map lowerPair := by
  simp only [checkBrackets, mem_toLower delim_lbrack, mem_toLower delim_rbrack]
  split
  · rfl
  · split <;> rfl

theorem toLower_cons {c : UInt8} (hc : Delim c) (s : Str) : toLower (c :: s) = c :: toLower s :=
  toLower_append hc [] s

/-- `net.SplitHostPort` commutes with `strings.ToLower`. -/
theorem splitHostPort_toLower (s : Str) :
    splitHostPort (toLower s) = (splitHostPort s).map lowerPair := by
  rw [splitHostPort, splitHostPort, cutLast_toLower delim_colon]
  cases cutLast colon s with
  | none => rfl
  | some hp =>
    obtain ⟨host, port⟩ := hp
    simp only [Option.map_some, Prod.map, head_toLower delim_lbrack]
    by_cases hb : s.head? = some lbrack
    · -- a bracketed host: the part after the `]` decides
      obtain ⟨t, rfl⟩ : ∃ t, s = lbrack :: t := by
        cases s with
        | nil => cases hb
        | cons a t => cases hb; exact ⟨t, rfl⟩
      simp only [hb, if_true, toLower_cons delim_lbrack, List.tail_cons,
        cutFirst_toLower delim_rbrack]
      cases cutFirst rbrack t with
      | none => rfl
      | some ba =>
        obtain ⟨before, after⟩ := ba
        cases after with
        | nil => rfl
        | cons b after =>
          simp only [Option.map_some, Prod.map]
          by_cases hc : b = colon
          · subst hc
            simp only [toLower_cons delim_colon, ne_eq, not_true_eq_false, if_false,
              mem_toLower delim_colon]
            split
            · rfl
            · have := checkBrackets_toLower t (colon :: after) before after
              rwa [toLower_cons delim_colon] at this
          · obtain ⟨b', r, hr⟩ :=
            List.exists_cons_of_ne_nil (mt (toLower_eq_nil (b :: after)).mp (List.cons_ne_nil _ _))
            have hb' : b' ≠ colon := by
              rintro rfl
              have := (head_toLower delim_colon (b :: after)).mp (by rw [hr]; rfl)
              exact hc (Option.some.inj this)
            rw [hr]
            simp only [ne_eq, hb', hc, not_false_eq_true, if_true]
            rfl
    · simp only [hb, if_false, mem_toLower delim_colon]
      split
      · rfl
      · exact checkBrackets_toLower s s host port

theorem hasPre_singleton (s : Str) (c : UInt8) : hasPre s [c] = true ↔ s.head? = some c := by
  cases s with
  | nil => simp [hasPre]
  | cons b s =>
    show (c == b && true) = true ↔ some b = some c
    rw [Bool.and_true, beq_iff_eq, Option.some.injEq, eq_comm]

theorem hasSuf_singleton (s : Str) (c : UInt8) : hasSuf s [c] = true ↔ s.getLast? = some c := by
  rw [hasSuf, List.isSuffixOf, List.reverse_singleton, List.getLast?_eq_head?_reverse]
  exact hasPre_singleton s.reverse c

theorem getLast_brackets (t : Str) (a b : UInt8) : (a :: (t ++ [b])).getLast? = some b :=
  List.getLast?_concat (l := a :: t)

/-- Where the brackets stand that `stripIPv6Brackets` removes. -/
theorem stripIPv6Brackets_cases (s : Str) :
    (∃ t, s = lbrack :: (t ++ [rbrack]) ∧ stripIPv6Brackets s = t) ∨
    (¬ (s.head? = some lbrack ∧ s.getLast? = some rbrack) ∧ stripIPv6Brackets s = s) := by
  simp only [stripIPv6Brackets, hasPre_singleton, hasSuf_singleton]
  split
  · rename_i h
    left
    cases s with
    | nil => cases h.1
    | cons a s =>
      have ha : a = lbrack := Option.some.inj h.1
      rcases List.eq_nil_or_concat s with rfl | ⟨t, b, rfl⟩
      · rw [ha] at h
        exact absurd h.2 (by decide)
      · have hb := h.2
        rw [List.concat_eq_append, getLast_brackets] at hb
        have hb : b = rbrack := Option.some.inj hb
        exact ⟨t, by rw [ha, hb, List.concat_eq_append], by simp⟩
  · rename_i h
    exact .inr ⟨h, rfl⟩

theorem stripIPv6Brackets_brackets (t : Str) : stripIPv6Brackets (lbrack :: (t ++ [rbrack])) = t := by
  rcases stripIPv6Brackets_cases (lbrack :: (t ++ [rbrack])) with ⟨u, hu, hs⟩ | ⟨hn, -⟩
  · have hu : t = u := by simpa using hu
    rw [hs, hu]
  · exact absurd ⟨rfl, getLast_brackets t _ _⟩ hn

theorem stripIPv6Brackets_toLower (s : Str) :
    stripIPv6Brackets (toLower s) = toLower (stripIPv6Brackets s) := by
  rcases stripIPv6Brackets_cases s with ⟨t, rfl, ht⟩ | ⟨hn, hs⟩
  · rw [ht, toLower_cons delim_lbrack, toLower_append delim_rbrack]
    exact stripIPv6Brackets_brackets (toLower t)
  · rcases stripIPv6Brackets_cases (toLower s) with ⟨t, ht, -⟩ | ⟨-, hs'⟩
    · refine absurd ⟨?_, ?_⟩ hn
      · rw [← head_toLower delim_lbrack, ht]; rfl
      · rw [← getLast_toLower delim_rbrack, ht, getLast_brackets]
    · rw [hs, hs']

/-! ## The two forms -/

/-- The host that `canonHost` joins with a port. -/
theorem canonHost_eq {s : Str} (hb : beginsWithSpace s = false) (he : endsWithSpace s = false)
    {defaultPort : Str} (hd : colon ∉ defaultPort) :
    ∃ port, colon ∉ port ∧ canonHost defaultPort s = joinHostPort (matchHost s) port := by
  simp only [canonHost, matchHost, trimSpace_eq hb he, splitHostPort_toLower]
  cases h : splitHostPort s with
  | ok hp =>
    have hn := (HostPort.of_split h).port.2
    exact ⟨_, mt (mem_toLower delim_colon _).mp hn, rfl⟩
  | error e => exact ⟨defaultPort, hd, by rw [stripIPv6Brackets_toLower]; rfl⟩

/-- Hosts that are the same for `sameHost` are the same for every noproxy rule. -/
theorem matchHost_of_sameHost {a b : Str} (hab : beginsWithSpace a = false)
    (hae : endsWithSpace a = false)
    (hbb : beginsWithSpace b = false) (hbe : endsWithSpace b = false) {defaultPort : Str}
    (hd : colon ∉ defaultPort) (h : sameHost a b defaultPort = true) : matchHost a = matchHost b := by
  obtain ⟨p, hp, ha⟩ := canonHost_eq hab hae hd
  obtain ⟨p', hp', hb⟩ := canonHost_eq hbb hbe hd
  have h : canonHost defaultPort a = canonHost defaultPort b := by simpa [sameHost] using h
  rw [ha, hb] at h
  exact (joinHostPort_inj hp hp' h).1

theorem covers_of_sameHost (m : NoProxyMatcher) {a b : Str} (hab : beginsWithSpace a = false)
    (hae : endsWithSpace a = false) (hbb : beginsWithSpace b = false)
    (hbe : endsWithSpace b = false)
    {defaultPort : Str} (hd : colon ∉ defaultPort) (h : sameHost a b defaultPort = true) :
    m.covers a = m.covers b := by
  rw [NoProxyMatcher.covers, NoProxyMatcher.covers, NoProxyMatcher.find, NoProxyMatcher.find,
    matchHost_of_sameHost hab hae hbb hbe hd h]

end SP.Proof
