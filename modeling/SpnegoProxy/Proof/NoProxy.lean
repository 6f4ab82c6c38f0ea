import SpnegoProxy.Proof.Go.Case
import SpnegoProxy.Proof.Hosts
import SpnegoProxy.Spec.NoProxy

/-!
# The noproxy matcher decides what its patterns cover

`NewNoProxyMatcher` tries the kinds of a pattern one after the other, and a
wildcard rule compares the last bytes of the host. `newRule_matches_iff`: no
pattern is of two kinds, and the last bytes after a dot are the last labels,
so a rule matches just the hosts that its pattern covers. `noproxy_match_iff`
carries this over to the list of patterns.

The host is put in lower case before it is parsed, and an IP literal among the
patterns never is. `noproxy_case_iff`: the decision ignores letter case except
where it hangs on the letters of a zone.
-/

namespace SP.Proof

open SP.Go SP.Impl SP.Spec

/-! ## Labels -/

theorem labels_inj {s t : Str} (h : labels s = labels t) : s = t := by
  have hjoin : ∀ s : Str, [0x2E].intercalate (labels s) = s :=
    fun s => List.intercalate_splitOn 0x2E
  rw [← hjoin s, h, hjoin]

/-- The last labels of a name are its last bytes, after a dot or from its beginning. -/
theorem labels_suffix_iff {t h : Str} : labels t <:+ labels h ↔ h = t ∨ 0x2E :: t <:+ h := by
  constructor
  · refine splitOn_induction (P := fun h ps => labels t <:+ ps → h = t ∨ 0x2E :: t <:+ h) (fun s hs hsuf => ?_)
      (fun a r ha ih hsuf => ?_) h
    · have hone : labels s = [s] := List.splitOn_eq_singleton hs
      rcases List.suffix_cons_iff.mp hsuf with hl | hl
      · exact .inl (labels_inj (hone.trans hl.symm))
      · exact absurd (List.suffix_nil.mp hl) (List.splitOn_ne_nil _ _)
    · have hcut : labels (a ++ 0x2E :: r) = a :: labels r :=
      List.splitOn_append_cons_self_of_not_mem ha r
      rcases List.suffix_cons_iff.mp hsuf with hl | hl
      · exact .inl (labels_inj (hcut.trans hl.symm))
      · rcases ih hl with rfl | hr
        · exact .inr ⟨a, rfl⟩
        · exact .inr (hr.trans ((List.suffix_cons _ r).trans (List.suffix_append a _)))
  · rintro (rfl | ⟨front, rfl⟩)
    · exact List.suffix_refl _
    · rw [labels, labels, List.splitOn_append_cons_self]
      exact List.suffix_append _ _

/-! ## One pattern -/

theorem toLower_dot (s : Str) : toLower (0x2E :: s) = 0x2E :: toLower s :=
  toLower_append_ascii (c := 0x2E) (by decide) (by decide +kernel) [] s

theorem hasSuf_iff {s t : Str} : hasSuf s t = true ↔ t <:+ s := List.isSuffixOf_iff_suffix

theorem str_dot (s : Str) : str "." ++ s = 0x2E :: s := rfl

theorem str_star_dot (s : Str) : str "*." ++ s = 0x2A :: 0x2E :: s := rfl

/-- What a wildcard rule compares are the last labels. -/
theorem wildcard_iff {s h : Str} {p : Str} :
    NoProxyRule.matches ⟨p, .wildcard (toLower (0x2E :: s))⟩ h (parseAddr h) = true ↔
      labels (toLower s) <:+ labels h := by
  rw [labels_suffix_iff, toLower_dot, NoProxyRule.matches]
  simp only [List.tail_cons, Bool.or_eq_true, beq_iff_eq, hasSuf_iff]

theorem newRule_cidr {p : Str} {c : Prefix} (h : parsePrefix p = some c) :
    newRule p = ⟨p, .cidr c⟩ := by
  have hne : p ≠ str "*" := by
    rintro rfl
    have hstar : parsePrefix (str "*") = none := by decide +kernel
    exact absurd (hstar.symm.trans h) nofun
  simp only [newRule, hne, h, if_false]

theorem newRule_ip {p : Str} (h : parseAddr p ≠ .none) : newRule p = ⟨p, .ip (parseAddr p)⟩ := by
  have hne : p ≠ str "*" := by
    rintro rfl
    exact h (by decide +kernel)
  have hcidr : parsePrefix p = none := by
    by_contra hc
    obtain ⟨c, hc⟩ := Option.ne_none_iff_exists'.mp hc
    exact h (parseAddr_of_parsePrefix hc)
  simp only [newRule, hne, hcidr, if_false]

/-- A beginning that no address has is that of no CIDR. -/
theorem parsePrefix_append {c : Str} (hc : 0x2F ∉ c) (h : ∀ s, parseAddr (c ++ s) = .none)
    (s : Str) : parsePrefix (c ++ s) = none := by
  refine parsePrefix_eq_none fun {a b} hab => ?_
  obtain ⟨heq, -⟩ := cutLast_eq_some.mp hab
  rcases List.append_eq_append_iff.mp heq with ⟨a', rfl, -⟩ | ⟨c', rfl, hb⟩
  · exact h a'
  · cases c' with
    | nil => simpa using h []
    | cons x c' =>
      obtain ⟨rfl, -⟩ := List.cons_eq_cons.mp hb
      exact absurd (List.mem_append_right a (List.mem_cons_self ..)) hc

theorem newRule_dot (s : Str) :
    newRule (str "." ++ s) = ⟨str "." ++ s, .wildcard (toLower (0x2E :: s))⟩ := by
  have hcidr : parsePrefix (0x2E :: s) = none :=
    parsePrefix_append (c := [0x2E]) (by decide) parseAddr_dot s
  simp only [str_dot, newRule, hcidr, parseAddr_dot]
  rfl

theorem newRule_starDot (s : Str) :
    newRule (str "*." ++ s) = ⟨str "*." ++ s, .wildcard (toLower (0x2E :: s))⟩ := by
  have hcidr : parsePrefix (0x2A :: 0x2E :: s) = none :=
    parsePrefix_append (c := [0x2A, 0x2E]) (by decide) parseAddr_star_dot s
  simp only [str_star_dot, newRule, hcidr, parseAddr_star_dot]
  rfl

theorem newRule_name {p : Str} (h : PlainName p) : newRule p = ⟨p, .hostname (toLower p)⟩ := by
  have hsuf : hasPre (if hasPre p (str "*") then p.tail else p) (str ".") = false := by
    rw [Bool.eq_false_iff]
    intro hdot
    split_ifs at hdot with hstar
    · obtain ⟨t, rfl⟩ := List.isPrefixOf_iff_prefix.mp hstar
      obtain ⟨s, hs⟩ := List.isPrefixOf_iff_prefix.mp hdot
      exact h.notStarDot s (congrArg (List.cons 0x2A) hs.symm)
    · obtain ⟨s, hs⟩ := List.isPrefixOf_iff_prefix.mp hdot
      exact h.notDot s hs.symm
  simp only [newRule, h.notAll, h.notCIDR, h.notIP, if_false, hsuf, Bool.false_eq_true]

/-- Every pattern is of one of the kinds. -/
theorem pattern_cases (p : Str) :
    p = str "*" ∨ (∃ c, parsePrefix p = some c) ∨ parseAddr p ≠ .none ∨
    (∃ s, p = str "." ++ s) ∨ (∃ s, p = str "*." ++ s) ∨ PlainName p := by
  by_contra! h
  obtain ⟨hall, hcidr, hip, hdot, hstar, hname⟩ := h
  exact hname ⟨hall, Option.eq_none_iff_forall_ne_some.mpr hcidr, hip, hdot, hstar⟩

/-- A rule matches the hosts that its pattern covers. -/
theorem newRule_matches_iff {p h : Str} : (newRule p).matches h (parseAddr h) = true ↔ Covers p h := by
  constructor
  · intro hm
    rcases pattern_cases p with rfl | ⟨c, hc⟩ | hip | ⟨s, rfl⟩ | ⟨s, rfl⟩ | hname
    · exact .all
    · rw [newRule_cidr hc] at hm
      exact .cidr hc hm
    · rw [newRule_ip hip] at hm
      exact .ip hip (beq_iff_eq.mp hm)
    · rw [newRule_dot, wildcard_iff] at hm
      exact .dot hm
    · rw [newRule_starDot, wildcard_iff] at hm
      exact .starDot hm
    · rw [newRule_name hname] at hm
      exact .name hname (beq_iff_eq.mp hm)
  · intro hc
    cases hc with
    | all => rfl
    | cidr hc hin => rwa [newRule_cidr hc]
    | ip hip heq => rw [newRule_ip hip]; exact beq_iff_eq.mpr heq
    | dot hs => rwa [newRule_dot, wildcard_iff]
    | starDot hs => rwa [newRule_starDot, wildcard_iff]
    | name hname heq => rw [newRule_name hname]; exact beq_iff_eq.mpr heq

theorem newRule_raw (p : Str) : (newRule p).raw = p := by
  rcases pattern_cases p with rfl | ⟨c, hc⟩ | hip | ⟨s, rfl⟩ | ⟨s, rfl⟩ | hname
  · rfl
  · rw [newRule_cidr hc]
  · rw [newRule_ip hip]
  · rw [newRule_dot]
  · rw [newRule_starDot]
  · rw [newRule_name hname]

/-! ## The list of patterns -/

theorem nameOf_matchHost (host : Str) : NameOf host (matchHost host) := by
  rw [matchHost]
  split
  · rename_i h port hs
    exact .ported hs
  · rename_i e he
    rcases stripIPv6Brackets_cases host with ⟨t, hb, hs⟩ | ⟨hn, hs⟩
    · rw [hs]
      exact .bracketed he hb
    · rw [hs]
      refine .bare he fun h hb => hn ?_
      rw [hb]
      exact ⟨rfl, getLast_brackets h _ _⟩

theorem mem_splitCSV {patterns p : Str} :
    p ∈ splitCSV patterns ↔ p ≠ [] ∧ ∃ part ∈ splitComma patterns, trimSpace part = p := by
  simp [splitCSV, and_comm]

theorem splitCSV_append (s t : Str) : splitCSV (s ++ 0x2C :: t) = splitCSV s ++ splitCSV t := by
  rw [splitCSV, splitComma_append, List.map_append, List.filter_append]
  rfl

theorem find_iff {patterns host p : Str} :
    (newNoProxyMatcher patterns).find host = some p ↔ FirstCovering (splitCSV patterns)
    (matchHost host) p := by
  have hraw : NoProxyRule.raw ∘ newRule = id := funext newRule_raw
  have hfind : (newNoProxyMatcher patterns).find host =
      (splitCSV patterns).find? fun p => (newRule p).matches (matchHost host) (parseAddr (matchHost host)) := by
    rw [NoProxyMatcher.find, newNoProxyMatcher, List.find?_map, Option.map_map, hraw, Option.map_id]
    rfl
  rw [hfind, List.find?_eq_some_iff_append]
  simp only [newRule_matches_iff, Bool.not_eq_true', Bool.eq_false_iff, Ne, FirstCovering]
  constructor
  · rintro ⟨hc, l, r, heq, hl⟩
    exact ⟨l, r, heq, hc, hl⟩
  · rintro ⟨l, r, heq, hc, hl⟩
    exact ⟨hc, l, r, heq, hl⟩

theorem covers_iff {patterns host : Str} :
    (newNoProxyMatcher patterns).covers host = true ↔
    ∃ p ∈ splitCSV patterns, Covers p (matchHost host) := by
  simp only [NoProxyMatcher.covers, NoProxyMatcher.find, newNoProxyMatcher, Option.isSome_map,
    List.find?_isSome,
    List.mem_map, exists_exists_and_eq_and, newRule_matches_iff]

/-- `Match` decides whether a pattern covers the host, and returns the first
one that does. The decision depends on the set of the patterns only, and grows
with it. -/
theorem noproxy_match_iff (patterns host : Str) : ∃ h, NameOf host h ∧
    ((newNoProxyMatcher patterns).covers host = true ↔
      ∃ part ∈ splitComma patterns, trimSpace part ≠ [] ∧ Covers (trimSpace part) h) ∧
    (∀ p, (newNoProxyMatcher patterns).find host = some p ↔ FirstCovering (splitCSV patterns) h p) ∧
    (∀ patterns', (∀ p, p ∈ splitCSV patterns' ↔ p ∈ splitCSV patterns) →
      (newNoProxyMatcher patterns').covers host = (newNoProxyMatcher patterns).covers host) ∧
    (∀ patterns', splitCSV patterns ⊆ splitCSV patterns' → (newNoProxyMatcher patterns).covers host = true →
      (newNoProxyMatcher patterns').covers host = true) ∧
    (∀ more, (newNoProxyMatcher (patterns ++ str "," ++ more)).covers host =
      ((newNoProxyMatcher patterns).covers host || (newNoProxyMatcher more).covers host)) := by
  refine ⟨matchHost host, nameOf_matchHost host, ?_, fun p => find_iff, ?_, ?_, ?_⟩
  · rw [covers_iff]
    constructor
    · rintro ⟨p, hp, hc⟩
      obtain ⟨hne, part, hpart, rfl⟩ := mem_splitCSV.mp hp
      exact ⟨part, hpart, hne, hc⟩
    · rintro ⟨part, hpart, hne, hc⟩
      exact ⟨trimSpace part, mem_splitCSV.mpr ⟨hne, part, hpart, rfl⟩, hc⟩
  · intro patterns' hsame
    rw [Bool.eq_iff_iff, covers_iff, covers_iff]
    simp only [hsame]
  · intro patterns' hsub hcov
    rw [covers_iff] at hcov ⊢
    obtain ⟨p, hp, hc⟩ := hcov
    exact ⟨p, hsub hp, hc⟩
  · intro more
    have hsep : patterns ++ str "," ++ more = patterns ++ 0x2C :: more := List.append_assoc ..
    rw [Bool.eq_iff_iff, Bool.or_eq_true, covers_iff, covers_iff, covers_iff, hsep, splitCSV_append]
    simp only [List.mem_append, or_and_right, exists_or]

/-! ## Letter case -/

/-- An IP literal with an ASCII letter in its zone. -/
def Lettered (q : Str) : Prop := ∃ a zone, parseAddr q = .v6 a zone ∧ ∃ b ∈ zone, ¬ Caseless b

/-- The decision on `host` does not depend on the case of ASCII letters. -/
def IgnoresCase (patterns host : Str) : Prop :=
  ∀ patterns' host', foldCase patterns' = foldCase patterns → foldCase host' = foldCase host →
    (newNoProxyMatcher patterns').covers host' = (newNoProxyMatcher patterns).covers host

/-- A pattern without letters in a zone covers `h`. -/
def PlainlyCovered (patterns h : Str) : Prop := ∃ q ∈ splitCSV patterns, ¬ Lettered q ∧ Covers q h

/-- A pattern with letters in its zone covers `h` when it is put in lower case. -/
def ZoneCovered (patterns h : Str) : Prop :=
  ∃ q ∈ splitCSV patterns, Lettered q ∧ Covers (foldCase q) h

/-- No pattern with letters in its zone is needed to cover the host. -/
def CaseSafe (patterns host : Str) : Prop :=
  PlainlyCovered patterns (matchHost host) ∨ ¬ ZoneCovered patterns (matchHost host)

theorem matchHost_eq (host : Str) : matchHost host = match splitHostPort (toLower host) with
    | .ok (h, _) => h
    | .error _ => stripIPv6Brackets (toLower host) := by
  rw [matchHost, splitHostPort_toLower, stripIPv6Brackets_toLower]
  cases splitHostPort host <;> rfl

theorem matchHost_foldCase (host : Str) : matchHost (foldCase host) = matchHost host := by
  rw [matchHost_eq, toLower_foldCase, ← matchHost_eq]

theorem foldCase_matchHost (host : Str) : foldCase (matchHost host) = matchHost host := by
  rw [matchHost]
  split <;> exact foldCase_toLower _

theorem splitCSV_foldCase (s : Str) : splitCSV (foldCase s) = (splitCSV s).map foldCase := by
  have htrim : trimSpace ∘ foldCase = foldCase ∘ trimSpace := funext trimSpace_foldCase
  have hne : (fun q : Str => decide (q ≠ [])) ∘ foldCase = fun q => decide (q ≠ []) := by
    funext q
    simp only [Function.comp_apply, Ne, show foldCase q = [] ↔ q = [] from List.map_eq_nil_iff]
  rw [splitCSV, splitComma,
    splitOn_foldCase (by decide), List.map_map, htrim, ← List.map_map, List.filter_map, hne]
  rfl

theorem foldZone_of_not_lettered {q : Str} (h : ¬ Lettered q) :
    (parseAddr q).foldZone = parseAddr q := by
  cases ha : parseAddr q with
  | none => rfl
  | v4 a => rfl
  | v6 a zone =>
    have hzone : foldCase zone = zone := by
      refine (List.map_congr_left fun b hb => ?_).trans (List.map_id _)
      by_contra hc
      exact h ⟨a, zone, ha, b, hb, fun hl => hc hl.1⟩
    rw [Addr.foldZone, hzone]

/-- The kind of a rule with the zone of its address folded. -/
def RuleKind.foldZone : RuleKind → RuleKind
  | .ip ip => .ip ip.foldZone
  | kind => kind

theorem plainName_foldCase {q : Str} (h : PlainName q) : PlainName (foldCase q) where
  notAll he := h.notAll ((foldCase_eq_iff (by decide +kernel)).mp he)
  notCIDR := (parsePrefix_foldCase q).trans h.notCIDR
  notIP := by rw [parseAddr_foldCase, h.notIP]; rfl
  notDot s he := by
    obtain ⟨v, hv⟩ := eq_append_of_foldCase (by decide +kernel) he
    exact h.notDot v hv
  notStarDot s he := by
    obtain ⟨v, hv⟩ := eq_append_of_foldCase (by decide +kernel) he
    exact h.notStarDot v hv

theorem newRule_foldCase (q : Str) :
    (newRule (foldCase q)).kind = RuleKind.foldZone (newRule q).kind := by
  rcases pattern_cases q with rfl | ⟨c, hc⟩ | hip | ⟨s, rfl⟩ | ⟨s, rfl⟩ | hname
  · rfl
  · rw [newRule_cidr hc, newRule_cidr ((parsePrefix_foldCase q).trans hc)]
    rfl
  · have hfold : parseAddr (foldCase q) ≠ .none := by
      rw [parseAddr_foldCase]
      cases ha : parseAddr q with
      | none => exact absurd ha hip
      | v4 a => exact nofun
      | v6 a zone => exact nofun
    rw [newRule_ip hip, newRule_ip hfold, parseAddr_foldCase]
    rfl
  · have hfold : foldCase (str "." ++ s) = str "." ++ foldCase s := List.map_append ..
    rw [hfold, newRule_dot, newRule_dot, toLower_dot, toLower_dot, toLower_foldCase]
    rfl
  · have hfold : foldCase (str "*." ++ s) = str "*." ++ foldCase s := List.map_append ..
    rw [hfold, newRule_starDot, newRule_starDot, toLower_dot, toLower_dot, toLower_foldCase]
    rfl
  · rw [newRule_name hname, newRule_name (plainName_foldCase hname), toLower_foldCase]
    rfl

theorem covers_foldCase_iff {q h : Str} (hq : ¬ Lettered q) : Covers (foldCase q) h ↔ Covers q h := by
  have hkind : RuleKind.foldZone (newRule q).kind = (newRule q).kind := by
    rcases pattern_cases q with rfl | ⟨c, hc⟩ | hip | ⟨s, rfl⟩ | ⟨s, rfl⟩ | hname
    · rfl
    · rw [newRule_cidr hc]; rfl
    · rw [newRule_ip hip]
      exact congrArg RuleKind.ip (foldZone_of_not_lettered hq)
    · rw [newRule_dot]; rfl
    · rw [newRule_starDot]; rfl
    · rw [newRule_name hname]; rfl
  rw [← newRule_matches_iff, ← newRule_matches_iff, NoProxyRule.matches, NoProxyRule.matches, newRule_foldCase, hkind]

section

variable {q h : Str} {a : BitVec 128} {zone : Str}

theorem covers_v6_iff (hq : parseAddr q = .v6 a zone) : Covers q h ↔ parseAddr h = .v6 a zone := by
  have hip : parseAddr q ≠ .none := by rw [hq]; exact nofun
  rw [← newRule_matches_iff, newRule_ip hip, hq]
  exact beq_iff_eq

/-- The zone of a host in lower case has no capital ASCII letter. -/
theorem foldCase_zone (hh : foldCase h = h) (ha : parseAddr h = .v6 a zone) :
    foldCase zone = zone := by
  have hfold := parseAddr_foldCase h
  rw [hh, ha] at hfold
  exact (Addr.v6.inj hfold).2.symm

theorem covers_foldCase (hh : foldCase h = h) (hc : Covers q h) : Covers (foldCase q) h := by
  by_cases hq : Lettered q
  · obtain ⟨a, zone, ha, -⟩ := hq
    have hzone : parseAddr h = .v6 a zone := (covers_v6_iff ha).mp hc
    have hfold : parseAddr (foldCase q) = .v6 a zone := by
      rw [parseAddr_foldCase, ha, Addr.foldZone, foldCase_zone hh hzone]
    exact (covers_v6_iff hfold).mpr hzone
  · exact (covers_foldCase_iff hq).mpr hc

theorem lettered_foldCase : Lettered (foldCase q) ↔ Lettered q := by
  simp only [Lettered, parseAddr_foldCase]
  cases parseAddr q with
  | none => simp [Addr.foldZone]
  | v4 a => simp [Addr.foldZone]
  | v6 a zone => simp [Addr.foldZone, foldCase, Caseless.fold]

end

/-! ### Which patterns decide -/

theorem plainlyCovered_foldCase {patterns h : Str} :
    PlainlyCovered (foldCase patterns) h ↔ PlainlyCovered patterns h := by
  simp only [PlainlyCovered, splitCSV_foldCase, List.mem_map, exists_exists_and_eq_and,
    lettered_foldCase]
  refine exists_congr fun q => and_congr_right fun _ => and_congr_right fun hq => covers_foldCase_iff hq

theorem zoneCovered_foldCase {patterns h : Str} :
    ZoneCovered (foldCase patterns) h ↔ ZoneCovered patterns h := by
  simp only [ZoneCovered, splitCSV_foldCase, List.mem_map, exists_exists_and_eq_and,
    lettered_foldCase, foldCase_idem]

theorem covers_of_caseSafe {patterns host : Str} (hs : CaseSafe patterns host) :
    (newNoProxyMatcher patterns).covers host = true ↔ PlainlyCovered patterns (matchHost host) := by
  rw [covers_iff]
  constructor
  · rintro ⟨q, hq, hc⟩
    by_cases hl : Lettered q
    · exact hs.resolve_right fun hn => hn ⟨q, hq, hl, covers_foldCase (foldCase_matchHost host) hc⟩
    · exact ⟨q, hq, hl, hc⟩
  · rintro ⟨q, hq, -, hc⟩
    exact ⟨q, hq, hc⟩

theorem subset_of_splitCSV {p q : Str} (hq : q ∈ splitCSV p) : q ⊆ p := by
  obtain ⟨-, part, hpart, rfl⟩ := mem_splitCSV.mp hq
  obtain ⟨l, r, hcut, -⟩ := trimSpace_cut part
  intro b hb
  refine (of_mem_splitOn hpart).2 ?_
  rw [hcut]
  exact List.mem_append_left _ (List.mem_append_right _ hb)

/-- A pattern that is written in capitals has no letter in a zone that is
found in a host. -/
theorem not_lettered_of_upper {p q h : Str} (hq : q ∈ splitCSV (p.map upperByte))
    (hh : foldCase h = h) (hc : Covers q h) : ¬ Lettered q := by
  have hupper : ∀ b : UInt8, lowerByte (upperByte b) = upperByte b → Caseless (upperByte b) :=
    forall_byte (by decide +kernel)
  rintro ⟨a, zone, ha, b, hb, hn⟩
  have hzone : foldCase zone = zone := foldCase_zone hh ((covers_v6_iff ha).mp hc)
  have hlow : lowerByte b = b := List.map_inj_left.mp (hzone.trans (List.map_id zone).symm) b hb
  obtain ⟨b', -, rfl⟩ := List.mem_map.mp (subset_of_splitCSV hq (zone_subset ha hb))
  exact hn (hupper b' hlow)

/-- The decision ignores letter case exactly where it needs no pattern with
letters in a zone: such a pattern matches in lower case only. -/
theorem noproxy_case_iff (patterns host : Str) :
    IgnoresCase patterns host ↔ CaseSafe patterns host := by
  constructor
  · intro hi
    by_contra hs
    obtain ⟨hplain, hzone⟩ := not_or.mp hs
    obtain ⟨q, hq, -, hc⟩ := not_not.mp hzone
    -- in lower case the host is covered, in capitals it is not
    have hlow : (newNoProxyMatcher (foldCase patterns)).covers host = true := by
      refine covers_iff.mpr ⟨foldCase q, ?_, hc⟩
      rw [splitCSV_foldCase]
      exact List.mem_map_of_mem hq
    have hfold : foldCase (patterns.map upperByte) = foldCase patterns := by
      rw [foldCase, List.map_map]
      exact List.map_congr_left fun b _ => (lowerByte_fold b).2.2.1
    have hup : (newNoProxyMatcher (patterns.map upperByte)).covers host ≠ true := by
      rw [Ne, covers_iff]
      rintro ⟨q, hq, hc⟩
      have hcov : PlainlyCovered (patterns.map upperByte) (matchHost host) :=
        ⟨q, hq, not_lettered_of_upper hq (foldCase_matchHost host) hc, hc⟩
      rw [← plainlyCovered_foldCase, hfold, plainlyCovered_foldCase] at hcov
      exact hplain hcov
    rw [hi _ host (foldCase_idem patterns) rfl] at hlow
    rw [hi _ host hfold rfl] at hup
    exact hup hlow
  · intro hs patterns' host' hp hh
    have hhost : matchHost host' = matchHost host :=
      by rw [← matchHost_foldCase, hh, matchHost_foldCase]
    have hplain : PlainlyCovered patterns' (matchHost host') ↔
      PlainlyCovered patterns (matchHost host) := by
      rw [hhost, ← plainlyCovered_foldCase, hp, plainlyCovered_foldCase]
    have hzone : ZoneCovered patterns' (matchHost host') ↔ ZoneCovered patterns (matchHost host) := by
      rw [hhost, ← zoneCovered_foldCase, hp, zoneCovered_foldCase]
    have hs' : CaseSafe patterns' host' := by rwa [CaseSafe, hplain, hzone]
    rw [Bool.eq_iff_iff, covers_of_caseSafe hs', covers_of_caseSafe hs, hplain]

/-- A zone in capitals does not match itself, and does in lower case. -/
theorem zonePattern_not_matched :
    (newNoProxyMatcher (str "fe80::1%ETH0")).covers (str "[fe80::1%ETH0]") = false ∧
    (newNoProxyMatcher (str "fe80::1%eth0")).covers (str "[fe80::1%ETH0]") = true ∧
    ¬ IgnoresCase (str "fe80::1%ETH0") (str "[fe80::1%ETH0]") := by
  have hup : (newNoProxyMatcher (str "fe80::1%ETH0")).covers (str "[fe80::1%ETH0]") = false :=
    by decide +kernel
  have hlow : (newNoProxyMatcher (str "fe80::1%eth0")).covers (str "[fe80::1%ETH0]") = true :=
    by decide +kernel
  refine ⟨hup, hlow, fun hi => ?_⟩
  have h := hi (str "fe80::1%eth0") (str "[fe80::1%ETH0]") (by decide +kernel) rfl
  rw [hup, hlow] at h
  cases h

end SP.Proof
