import SpnegoProxy.Impl.AllowList
import SpnegoProxy.Proof.Go.IP

/-!
# The allowlist decides membership

The address of a client goes through its text, the parser and both forms of an
IPv4 address before it is compared under the masks of the list.
`allowlist_admits_iff`: the guard admits the members of a list with entries,
except that a client with a zone is admitted by none.
-/

namespace SP.Proof

open SP.Go SP.Impl SP.Spec

/-! ## The address of a client -/

section

variable {h p : Str}

theorem extractHost_join (hb : h.head? ≠ some lbrack) (hp : colon ∉ p) :
    extractHost (joinHostPort h p) = h ∨ extractHost (joinHostPort h p) = joinHostPort h p := by
  rw [extractHost]
  cases hs : splitHostPort (joinHostPort h p) with
  | error e => exact .inr rfl
  | ok hp' => exact .inl (host_of_join hb hp hs)

theorem extractHost_join_plain (hb : NoBracket h) (hpb : NoBracket p) (hp : colon ∉ p) :
    extractHost (joinHostPort h p) = h := by
  rw [extractHost, (HostPort.of_join hb hpb hp).split]

end

/-- A port in decimal has neither a bracket nor a colon. -/
theorem itoa_plain (n : Nat) : NoBracket (itoa n) ∧ colon ∉ itoa n := by
  have hdigits := (denotes_itoa n).digits
  refine ⟨⟨fun hb => ?_, fun hb => ?_⟩, fun hb => ?_⟩
  · exact absurd (hdigits _ hb) (by decide)
  · exact absurd (hdigits _ hb) (by decide)
  · exact absurd (hdigits _ hb) (by decide)

/-- What the guard takes the address of a client for. -/
theorem parseIP_client (a : TCPAddr) : parseIP (extractHost a.string) =
    if a.zone = [] then if a.ip.length = 4 then v4InV6 ++ a.ip else a.ip else [] := by
  have hbytes := string_bytes a.valid
  have hl : lbrack ∉ IP.string a.ip := fun hb => absurd (hbytes _ hb) (by decide)
  have hr : rbrack ∉ IP.string a.ip := fun hb => absurd (hbytes _ hb) (by decide)
  obtain ⟨hport, hcolon⟩ := itoa_plain a.port
  rw [TCPAddr.string]
  split_ifs with hz h4
  · rw [extractHost_join_plain ⟨hl, hr⟩ hport hcolon, parseIP_string a.valid, if_pos h4]
  · rw [extractHost_join_plain ⟨hl, hr⟩ hport hcolon, parseIP_string a.valid, if_neg h4]
  · -- the `%` stands in the host, and in the whole address
    have hhead : (IP.string a.ip ++ 0x25 :: a.zone).head? ≠ some lbrack := by
      intro hh
      cases hs : IP.string a.ip with
      | nil =>
        rw [hs] at hh
        exact absurd (Option.some.inj hh) (by decide)
      | cons b t =>
        rw [hs] at hh hl
        exact hl (Option.some.inj hh ▸ List.mem_cons_self ..)
    have hmem : 0x25 ∈ IP.string a.ip ++ 0x25 :: a.zone :=
      List.mem_append_right _ (List.mem_cons_self ..)
    apply parseIP_of_percent
    rcases extractHost_join hhead hcolon with he | he
    · rwa [he]
    · rw [he, joinHostPort]
      split_ifs
      · exact List.mem_append_left _ (List.mem_cons_of_mem _ hmem)
      · exact List.mem_append_left _ hmem

/-! ## Entries -/

theorem contains_slash {e : Str} : contains e (str "/") = true ↔ 0x2F ∈ e := by
  rw [contains, decide_eq_true_iff, show str "/" = [0x2F] from rfl, List.singleton_infix_iff]

theorem slash_not_mem {x : Str} (h : (∃ a, parseAddr x = .v4 a) ∨ ∃ a, parseAddr x = .v6 a []) :
    0x2F ∉ x :=
  fun hb => absurd (parseAddr_bytes h _ hb) (by decide)

theorem dtoi_eq_some {m : Str} {n : Nat} : dtoi m = some n ↔ Denotes m n ∧ n < 0xFFFFFF := by
  rw [dtoi, Option.filter_eq_some_iff, parseDigits_iff, decide_eq_true_iff]

theorem entry_of_parseCIDR {e : Str} {net : IPNet} (h : parseCIDR e = some net) :
    ∃ a n, EntryOf e a n := by
  rw [parseCIDR] at h
  split at h
  · cases h
  rename_i x m hcut
  obtain ⟨rfl, -⟩ := cutFirst_eq_some.mp hcut
  cases hd : dtoi m with
  | none =>
    simp only [hd] at h
    split at h <;> cases h
  | some n =>
    have hn : Denotes m n := (dtoi_eq_some.mp hd).1
    simp only [hd] at h
    split at h
    next a ha =>
      split_ifs at h with hle
      exact ⟨_, n, .cidr4 ha hn hle⟩
    next a ha =>
      split_ifs at h with hle
      exact ⟨_, n, .cidr6 ha hn hle⟩
    next => cases h

/-- What is accepted is an address or a CIDR. -/
theorem entry_of_ok {e : Str} {net : IPNet} (h : parseAllowEntry e = .ok net) :
    ∃ a n, EntryOf e a n := by
  rw [parseAllowEntry] at h
  split at h
  · cases hcidr : parseCIDR e with
    | none =>
      rw [hcidr] at h
      cases h
    | some net => exact entry_of_parseCIDR hcidr
  · have hne : parseIP e ≠ [] := by
      intro hnil
      rw [hnil] at h
      cases h
    rcases parseIP_ne_nil hne with ⟨a, ha⟩ | ⟨a, ha⟩
    · exact ⟨_, _, .addr4 ha⟩
    · exact ⟨_, _, .addr6 ha⟩

section

variable {e x m : Str} {n : Nat}

theorem parseAllowEntry_addr (hs : 0x2F ∉ e) (hne : parseIP e ≠ []) : parseAllowEntry e =
    .ok ⟨parseIP e, if (parseIP e).to4 = none then cidrMask 128 16 else cidrMask 32 4⟩ := by
  rw [parseAllowEntry, if_neg (mt contains_slash.mp hs)]
  dsimp only
  rw [if_neg hne]
  split_ifs
  · rfl
  · rfl

theorem parseAllowEntry_cidr {net : IPNet} (h : parseCIDR (x ++ 0x2F :: m) = some net) :
    parseAllowEntry (x ++ 0x2F :: m) = .ok net := by
  rw [parseAllowEntry, if_pos (contains_slash.mpr (by simp)), h]

theorem parseCIDR_v4 {a : BitVec 32} (ha : parseAddr x = .v4 a) (hd : Denotes m n) (hn : n ≤ 32) :
    parseCIDR (x ++ 0x2F :: m) = some ⟨IP.mask (v4InV6 ++ beBytes 4 a.toNat) (cidrMask n 4),
      cidrMask n 4⟩ := by
  have hm : dtoi m = some n := dtoi_eq_some.mpr ⟨hd, by omega⟩
  rw [parseCIDR, cutFirst_append (slash_not_mem (.inl ⟨a, ha⟩))]
  simp only [ha, hm]
  exact if_pos hn

theorem parseCIDR_v6 {a : BitVec 128} (ha : parseAddr x = .v6 a []) (hd : Denotes m n)
    (hn : n ≤ 128) :
    parseCIDR (x ++ 0x2F :: m) = some ⟨IP.mask (beBytes 16 a.toNat) (cidrMask n 16),
      cidrMask n 16⟩ := by
  have hm : dtoi m = some n := dtoi_eq_some.mpr ⟨hd, by omega⟩
  rw [parseCIDR, cutFirst_append (slash_not_mem (.inr ⟨a, ha⟩))]
  simp only [ha, hm]
  exact if_pos hn

end

/-- The network of a plain entry has the addresses that the entry stands for. -/
theorem entry_represents {e : Str} {a : IP} {n : Nat} (h : EntryOf e a n) (hm : ¬ Mapped a) :
    ∃ net, parseAllowEntry e = .ok net ∧ Represents net a n := by
  cases h with
  | @addr4 _ x ha =>
    have hlen : (beBytes 4 x.toNat).length = 4 := length_beBytes ..
    have hip : parseIP e = v4InV6 ++ beBytes 4 x.toNat := by rw [parseIP, ha]; rfl
    refine ⟨_, parseAllowEntry_addr (slash_not_mem (.inl ⟨x, ha⟩)) (by rw [hip]; simp [v4InV6]), ?_⟩
    rw [hip, to4_mapped (mapped_append hlen), if_neg (by simp)]
    exact represents_addr4 hlen
  | @addr6 _ x ha =>
    have hlen : (beBytes 16 x.toNat).length = 16 := length_beBytes ..
    have hip : parseIP e = beBytes 16 x.toNat := by rw [parseIP, ha]; rfl
    have hne : parseIP e ≠ [] := by
      intro hnil
      rw [← hip, hnil] at hlen
      cases hlen
    refine ⟨_, parseAllowEntry_addr (slash_not_mem (.inr ⟨x, ha⟩)) hne, ?_⟩
    rw [hip, if_pos (to4_of_not_mapped (by rw [hlen]; decide) hm)]
    exact represents_addr6 hlen hm
  | cidr4 ha hd hn =>
    exact ⟨_, parseAllowEntry_cidr (parseCIDR_v4 ha hd hn), represents_cidr4 (length_beBytes ..) hn⟩
  | cidr6 ha hd hn =>
    exact ⟨_, parseAllowEntry_cidr (parseCIDR_v6 ha hd hn),
      represents_cidr6 (length_beBytes ..) hm hn⟩

theorem length_of_entry {e : Str} {a : IP} {n : Nat} (h : EntryOf e a n) : a.length ≠ 0 := by
  cases h <;> rw [length_beBytes] <;> decide

/-- An entry is plain when what stands before its `/` is no mapped address. -/
theorem plain_of_addr {e x : Str} (hx : ((cutFirst 0x2F e).map Prod.fst).getD e = x)
    (h : ∀ v, parseAddr x = .v6 v [] → ¬ Mapped (beBytes 16 v.toNat)) : Plain e := by
  have h4 : ∀ k, ¬ Mapped (beBytes 4 k) := fun k hm => absurd hm.1 (by rw [length_beBytes]; decide)
  intro a n he
  cases he with
  | addr4 _ => exact h4 _
  | addr6 ha =>
    rw [cutFirst_eq_none.mpr (slash_not_mem (.inr ⟨_, ha⟩))] at hx
    exact h _ (hx ▸ ha)
  | cidr4 _ _ _ => exact h4 _
  | cidr6 ha _ _ =>
    rw [cutFirst_append (slash_not_mem (.inr ⟨_, ha⟩))] at hx
    exact h _ (hx ▸ ha)

/-! ## The guard -/

theorem mapM_eq_ok {ε α β : Type} {f : α → Except ε β} {xs : List α} {ys : List β}
    (h : xs.mapM f = .ok ys) : List.Forall₂ (fun x y => f x = .ok y) xs ys := by
  induction xs generalizing ys with
  | nil =>
    cases h
    exact .nil
  | cons x xs ih =>
    rw [List.mapM_cons] at h
    cases hx : f x with
    | error e =>
      rw [hx] at h
      cases h
    | ok y =>
      cases hxs : xs.mapM f with
      | error e =>
        rw [hx, hxs] at h
        cases h
      | ok ys' =>
        rw [hx, hxs] at h
        cases h
        exact .cons hx (ih hxs)

/-- The form in which the address was received does not matter. -/
theorem unmap_parsed {ip : IP} : unmap (if ip.length = 4 then v4InV6 ++ ip else ip) = unmap ip := by
  split_ifs with h4
  · rw [unmap, if_pos (mapped_append h4), drop_mapped, unmap, if_neg]
    intro hm
    rw [hm.1] at h4
    cases h4
  · rfl

theorem unmap_unmap (ip : IP) : unmap (unmap ip) = unmap ip := by
  by_cases hm : Mapped ip
  · have hlen : (ip.drop 12).length = 4 := by rw [List.length_drop, hm.1]
    rw [unmap, unmap, if_pos hm, if_neg]
    intro hm'
    rw [hm'.1] at hlen
    cases hlen
  · simp only [unmap, if_neg hm]

theorem member_unmap {es : List Str} {ip : IP} : Member es (unmap ip) ↔ Member es ip := by
  simp only [Member, unmap_unmap]

theorem not_member_nil {es : List Str} : ¬ Member es [] := by
  rintro ⟨e, -, a, n, he, hlen, -⟩
  exact length_of_entry he hlen

theorem contains_iff {e : Str} {net : IPNet} (h : parseAllowEntry e = .ok net) (hplain : Plain e)
    (ip : IP) : net.contains ip = true ↔
      ∃ a n, EntryOf e a n ∧ a.length = (unmap ip).length ∧ ∀ i < n,
        addrBit a i = addrBit (unmap ip) i := by
  have hrep : ∀ {a n}, EntryOf e a n → Represents net a n := by
    intro a n he
    obtain ⟨net', hok, hrep⟩ := entry_represents he (hplain a n he)
    exact Except.ok.inj (hok.symm.trans h) ▸ hrep
  constructor
  · intro hc
    obtain ⟨a, n, he⟩ := entry_of_ok h
    exact ⟨a, n, he, (hrep he ip).mp hc⟩
  · rintro ⟨a, n, he, hbits⟩
    exact (hrep he ip).mpr hbits

/-- The networks of a list have its members. -/
theorem any_contains_iff {es : List Str} {nets : List IPNet}
    (h : List.Forall₂ (fun e net => parseAllowEntry e = .ok net) es nets) (hplain : ∀ e ∈ es, Plain e) (ip : IP) :
    (nets.any fun net => net.contains ip) = true ↔ Member es ip := by
  induction h with
  | nil => simp [Member]
  | cons he _ ih =>
    obtain ⟨hhead, htail⟩ := List.forall_mem_cons.mp hplain
    rw [List.any_cons, Bool.or_eq_true, contains_iff he hhead, ih htail, Member, Member,
      List.exists_mem_cons_iff]

section

variable {s : Str} {nets : List IPNet} (hp : parseAllowList s = .ok nets)

include hp

theorem parseAllowList_nil : nets = [] ↔ splitCSV s = [] := by
  rw [← List.length_eq_zero_iff, ← (mapM_eq_ok hp).length_eq, List.length_eq_zero_iff]

theorem admitsClient_iff (hplain : ∀ e ∈ splitCSV s, Plain e) (addr : Str) :
    admitsClient nets addr = true ↔
      splitCSV s = [] ∨ Member (splitCSV s) (parseIP (extractHost addr)) := by
  have hnil := parseAllowList_nil hp
  have hany := any_contains_iff (mapM_eq_ok hp) hplain (unmap (parseIP (extractHost addr)))
  rw [member_unmap] at hany
  rw [admitsClient, ipAllowed, to4_getD, Bool.or_eq_true, Bool.or_eq_true, decide_eq_true_iff, hany,
    hnil, ← or_assoc, or_self]

end

/-- The guard of `handleClientCtx` admits the clients whose address is in the
list, for each list that has an entry, except for the members with a zone. -/
theorem allowlist_admits_iff {s : Str} {nets : List IPNet} (hp : parseAllowList s = .ok nets)
    (hplain : ∀ e ∈ splitCSV s, Plain e) (client : TCPAddr) :
    (admitsClient nets client.string = true ↔ Member (splitCSV s) client.ip) ↔
      splitCSV s ≠ [] ∧ (client.zone = [] ∨ ¬ Member (splitCSV s) client.ip) := by
  rw [admitsClient_iff hp hplain, parseIP_client]
  by_cases hnil : splitCSV s = []
  · have hnot : ¬ Member [] client.ip := fun ⟨_, he, _⟩ => nomatch he
    simp [hnil, hnot]
  · by_cases hz : client.zone = []
    · have hmem : Member (splitCSV s) (if client.ip.length = 4 then v4InV6 ++ client.ip else client.ip) ↔
          Member (splitCSV s) client.ip := by
        rw [← member_unmap, unmap_parsed, member_unmap]
      simp [hnil, hz, hmem]
    · -- a zone is parsed as no address, and that is in no network
      simp [hnil, hz, not_member_nil]

/-- `::ffff:10.1.2.3`, as a dual-stack listener reports an IPv4 client. -/
def mappedClient : TCPAddr where
  ip := v4InV6 ++ [10, 1, 2, 3]
  port := 50000
  zone := []
  valid := .inr rfl

theorem mappedClient_admitted :
    parseAllowList (str "10.0.0.0/8") = .ok [⟨[10, 0, 0, 0], [0xFF, 0, 0, 0]⟩] ∧
    (admitsClient [⟨[10, 0, 0, 0], [0xFF, 0, 0, 0]⟩] mappedClient.string = true ↔
      Member (splitCSV (str "10.0.0.0/8")) mappedClient.ip) := by
  have hp : parseAllowList (str "10.0.0.0/8") = .ok [⟨[10, 0, 0, 0], [0xFF, 0, 0, 0]⟩] := by rfl
  have hcsv : splitCSV (str "10.0.0.0/8") = [str "10.0.0.0/8"] := by decide +kernel
  have haddr : parseAddr (str "10.0.0.0") = .v4 0x0A000000 := by decide +kernel
  have hplain : Plain (str "10.0.0.0/8") :=
    plain_of_addr (x := str "10.0.0.0") (by decide +kernel) fun v hv => nomatch haddr.symm.trans hv
  refine ⟨hp, (allowlist_admits_iff hp ?_ mappedClient).mpr ⟨by rw [hcsv]; decide, .inl rfl⟩⟩
  rw [hcsv]
  exact fun e he => List.mem_singleton.mp he ▸ hplain

/-- `fe80::1%eth0`, a client on the link. -/
def linkLocalClient : TCPAddr where
  ip := [0xFE, 0x80, 0, 0, 0, 0, 0, 0, 0, 0, 0, 0, 0, 0, 0, 1]
  port := 50000
  zone := str "eth0"
  valid := .inr rfl

/-- The list of all link-local addresses turns a link-local client away. -/
theorem linkLocalClient_denied : ∃ nets, parseAllowList (str "fe80::/10") = .ok nets ∧
    (∀ e ∈ splitCSV (str "fe80::/10"), Plain e) ∧
    Member (splitCSV (str "fe80::/10")) linkLocalClient.ip ∧
      admitsClient nets linkLocalClient.string = false := by
  have hcsv : splitCSV (str "fe80::/10") = [str "fe80::/10"] := by decide +kernel
  have haddr : parseAddr (str "fe80::") = .v6 0xFE800000000000000000000000000000 [] :=
    by decide +kernel
  have hmask : Denotes (str "10") 10 := parseDigits_iff.mp (by decide +kernel)
  have hentry : EntryOf (str "fe80::/10") _ 10 := .cidr6 haddr hmask (by decide)
  have hplain : Plain (str "fe80::/10") := by
    refine plain_of_addr (x := str "fe80::") (by decide +kernel) fun v hv => ?_
    cases haddr.symm.trans hv
    decide
  refine ⟨_, rfl, ?_, ?_, ?_⟩
  · rw [hcsv]
    exact fun e he => List.mem_singleton.mp he ▸ hplain
  · rw [hcsv]
    exact ⟨_, List.mem_singleton_self _, _, 10, hentry, rfl, by decide +kernel⟩
  · decide +kernel

end SP.Proof
