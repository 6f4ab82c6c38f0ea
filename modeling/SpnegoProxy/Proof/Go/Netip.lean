import SpnegoProxy.Impl.Go.Netip
import SpnegoProxy.Proof.Go.Strings
import Mathlib.Data.List.Basic

/-!
# Addresses and prefixes as text

The bytes of a string that `net/netip` parses (`parseIPv4Fields_bytes`,
`parseIPv6Bytes_bytes`). No string is both a prefix and an address
(`parseAddr_of_parsePrefix`), and none that begins with a dot is either.
-/

namespace SP.Proof

open SP.Go

/-! ## The bytes of an address -/

theorem isDigit_of_parseOctet {s : Str} {n : UInt8} (h : parseOctet s = some n) :
    ∀ b ∈ s, isDigit b = true := by
  rw [parseOctet, parseDigits] at h
  split at h
  · rename_i m hm
    split_ifs at hm with hd
    exact List.all_eq_true.mp hd.2
  · cases h

/-- A dotted address has digits and dots. -/
theorem parseIPv4Fields_bytes {s : Str} {bs : List UInt8} (h : parseIPv4Fields s = some bs) :
    ∀ b ∈ s, isDigit b = true ∨ b = 0x2E := by
  simp only [parseIPv4Fields] at h
  split_ifs at h
  intro b hb
  rcases mem_splitOn (c := 0x2E) hb with hdot | ⟨p, hp, hm⟩
  · exact .inr hdot
  · have hf : parseOctet p ∈ bs.map some := by
      rw [← mapM_eq_some_iff.mp h]
      exact List.mem_map_of_mem hp
    obtain ⟨n, -, hn⟩ := List.mem_map.mp hf
    exact .inl (isDigit_of_parseOctet hn.symm b hm)

/-- A byte of an IPv6 address without a zone. -/
def AddrByte (b : UInt8) : Prop := (hexVal b).isSome = true ∨ b = 0x2E ∨ b = colon

instance (b : UInt8) : Decidable (AddrByte b) :=
  inferInstanceAs (Decidable ((hexVal b).isSome = true ∨ b = 0x2E ∨ b = colon))

theorem addrByte_of_digit {b : UInt8} (h : isDigit b = true ∨ b = 0x2E) : AddrByte b := by
  rcases h with h | h
  · exact .inl (by simp [hexVal, h])
  · exact .inr (.inl h)

theorem parseIPv6Fields_bytes {n : Nat} {ip ip' : List UInt8} {e e' : Option Nat} {s rest : Str}
    (h : parseIPv6Fields n ip e s = some (ip', e', rest)) : ∀ b ∈ s, AddrByte b ∨ b ∈ rest := by
  induction n generalizing ip e s with
  | zero =>
    cases h
    exact fun b hb => .inr hb
  | succ n ih =>
    have hsplit : s = s.takeWhile (fun b => (hexVal b).isSome) ++ s.dropWhile fun b => (hexVal b).isSome :=
      List.takeWhile_append_dropWhile.symm
    have hdigits : ∀ b ∈ s.takeWhile fun b => (hexVal b).isSome, AddrByte b := by
      intro b hb
      have hhex := List.mem_takeWhile_imp hb
      exact .inl hhex
    simp only [parseIPv6Fields] at h
    generalize s.takeWhile (fun b => (hexVal b).isSome) = digits at h hsplit hdigits
    generalize s.dropWhile (fun b => (hexVal b).isSome) = tail at h hsplit
    have hpart : (∀ b ∈ tail, AddrByte b ∨ b ∈ rest) → ∀ b ∈ s, AddrByte b ∨ b ∈ rest := by
      intro ht b hb
      rw [hsplit] at hb
      rcases List.mem_append.mp hb with hb | hb
      · exact .inl (hdigits b hb)
      · exact ht b hb
    have hcolon : ∀ {t : Str}, (∀ b ∈ t, AddrByte b ∨ b ∈ rest) → ∀ b ∈ colon :: t,
      AddrByte b ∨ b ∈ rest := by
      intro t ht b hb
      rcases List.mem_cons.mp hb with rfl | hb
      · exact .inl (.inr (.inr rfl))
      · exact ht b hb
    split at h
    · cases h
    split at h
    · split at h
      · cases h
      · -- the address ends in a dotted one
        obtain ⟨bs, hbs, -⟩ := Option.map_eq_some_iff.mp h
        exact fun b hb => .inl (addrByte_of_digit (parseIPv4Fields_bytes hbs b hb))
    · refine hpart ?_
      cases tail with
      | nil => exact List.forall_mem_nil _
      | cons d t =>
        simp only at h
        split at h
        · cases h
        rename_i hd
        simp only [not_or, not_not] at hd
        obtain ⟨rfl, hne⟩ := hd
        obtain ⟨d, t, rfl⟩ := List.exists_cons_of_ne_nil hne
        refine hcolon ?_
        split at h
        · rename_i hc
          obtain rfl : d = colon := Option.some.inj hc
          split at h
          · cases h
          refine hcolon ?_
          split at h
          · rename_i hnil
            rw [show t = [] from hnil]
            exact List.forall_mem_nil _
          · exact ih h
        · exact ih h

theorem parseIPv6Bytes_bytes {s : Str} {bs : List UInt8} (h : parseIPv6Bytes s = some bs) :
    ∀ b ∈ s, AddrByte b := by
  have hone : ∀ {n ip e t ip' e'}, parseIPv6Fields n ip e t = some (ip', e', []) → ∀ b ∈ t,
    AddrByte b :=
    fun h b hb => (parseIPv6Fields_bytes h b hb).resolve_right List.not_mem_nil
  simp only [parseIPv6Bytes] at h
  split at h
  · rename_i ip e hp
    split_ifs at hp with htwo hnil
    · cases hp
      rw [← List.take_append_drop 2 s, htwo, hnil]
      simp [AddrByte]
    · rw [← List.take_append_drop 2 s, htwo]
      intro b hb
      simp only [List.cons_append, List.nil_append, List.mem_cons] at hb
      rcases hb with rfl | rfl | hb
      · exact .inr (.inr rfl)
      · exact .inr (.inr rfl)
      · exact hone hp b hb
    · exact hone hp
  · cases h

/-! ## What is no address -/

theorem parseIPv4_of_byte {s : Str} {b : UInt8} (hb : b ∈ s) (hn : ¬ AddrByte b) :
    parseIPv4 s = .none := by
  rw [parseIPv4]
  split
  · rename_i bs hbs
    exact absurd (addrByte_of_digit (parseIPv4Fields_bytes hbs b hb)) hn
  · rfl

/-- The part before a zone is an address. -/
theorem parseIPv6_of_byte {s : Str} {b : UInt8}
    (hb : ∀ {a z}, cutFirst 0x25 s = some (a, z) → b ∈ a)
    (hb' : cutFirst 0x25 s = none → b ∈ s) (hn : ¬ AddrByte b) : parseIPv6 s = .none := by
  have hbytes : ∀ {t : Str}, b ∈ t → parseIPv6Bytes t = none := by
    intro t ht
    cases hp : parseIPv6Bytes t with
    | none => rfl
    | some bs => exact absurd (parseIPv6Bytes_bytes hp b ht) hn
  rw [parseIPv6]
  split
  · rfl
  · rename_i a z _ hcut
    rw [hbytes (hb hcut)]
  · rename_i hcut
    rw [hbytes (hb' hcut)]

/-- The bytes that tell the kind of an address. -/
def isKindByte (b : UInt8) : Bool := b = 0x2E ∨ b = colon ∨ b = 0x25

theorem parseAddr_eq (s : Str) : parseAddr s = match s.find? isKindByte with
    | some b => if b = 0x2E then parseIPv4 s else if b = colon then parseIPv6 s else .none
    | none => .none := rfl

theorem parseAddr_cases (s : Str) :
    parseAddr s = .none ∨ parseAddr s = parseIPv4 s ∨ parseAddr s = parseIPv6 s := by
  rw [parseAddr_eq]
  split
  · split_ifs
    · exact .inr (.inl rfl)
    · exact .inr (.inr rfl)
    · exact .inl rfl
  · exact .inl rfl

/-- The text of an address without a zone. -/
theorem parseAddr_bytes {s : Str}
    (h : (∃ ip, parseAddr s = .v4 ip) ∨ ∃ ip, parseAddr s = .v6 ip []) : ∀ b ∈ s, AddrByte b := by
  intro b hb
  by_contra hn
  have hv4 : parseIPv4 s = .none := parseIPv4_of_byte hb hn
  have hv6 : parseIPv6 s = .none ∨ ∃ a c zone, parseIPv6 s = .v6 a (c :: zone) := by
    rw [parseIPv6]
    split
    · exact .inl rfl
    · rename_i a zone hne hcut
      obtain ⟨c, zone, rfl⟩ := List.exists_cons_of_ne_nil hne
      split
      · exact .inr ⟨_, c, zone, rfl⟩
      · exact .inl rfl
    · cases hbs : parseIPv6Bytes s with
      | none => exact .inl rfl
      | some bs => exact absurd (parseIPv6Bytes_bytes hbs b hb) hn
  have hpar : parseAddr s = .none ∨ ∃ a c zone, parseAddr s = .v6 a (c :: zone) := by
    rcases parseAddr_cases s with ha | ha | ha
    · exact .inl ha
    · exact .inl (ha.trans hv4)
    · rwa [ha]
  rcases hpar with ha | ⟨a, c, zone, ha⟩ <;> rcases h with ⟨ip, hip⟩ | ⟨ip,
    hip⟩ <;> cases ha.symm.trans hip

/-- The zone of an address is a part of its text. -/
theorem zone_subset {s : Str} {a : BitVec 128} {zone : Str} (h : parseAddr s = .v6 a zone) :
    zone ⊆ s := by
  have hv6 : parseIPv6 s = .v6 a zone := by
    rcases parseAddr_cases s with ha | ha | ha
    · rw [ha] at h
      cases h
    · rw [ha, parseIPv4] at h
      split at h <;> cases h
    · rw [← ha, h]
  rw [parseIPv6] at hv6
  split at hv6
  · cases hv6
  · rename_i b z _ hcut
    obtain ⟨rfl, -⟩ := cutFirst_eq_some.mp hcut
    split at hv6
    · obtain ⟨-, rfl⟩ := Addr.v6.inj hv6
      exact fun c hc => List.mem_append_right _ (List.mem_cons_of_mem _ hc)
    · cases hv6
  · split at hv6
    · obtain ⟨-, rfl⟩ := Addr.v6.inj hv6
      exact List.nil_subset s
    · cases hv6

theorem parseAddr_dot (s : Str) : parseAddr (0x2E :: s) = .none := by
  have hf : parseOctet [] = none := rfl
  rw [parseAddr_eq]
  show parseIPv4 (0x2E :: s) = .none
  have hs : (0x2E :: s : Str).splitOn 0x2E = [] :: s.splitOn 0x2E :=
    List.splitOn_append_cons_self_of_not_mem List.not_mem_nil s
  rw [parseIPv4, parseIPv4Fields]
  simp only [hs, List.mapM_cons, hf]
  split
  · rename_i h
    split_ifs at h
    cases h
  · rfl

theorem parseAddr_star_dot (s : Str) : parseAddr (0x2A :: 0x2E :: s) = .none := by
  rw [parseAddr_eq]
  show parseIPv4 (0x2A :: 0x2E :: s) = .none
  exact parseIPv4_of_byte (List.mem_cons_self ..) (by decide +kernel)

/-- No prefix begins with what is no address. -/
theorem parsePrefix_eq_none {p : Str}
    (h : ∀ {a b}, cutLast 0x2F p = some (a, b) → parseAddr a = .none) : parsePrefix p = none := by
  rw [parsePrefix]
  split
  · rfl
  · rename_i a b hcut
    rw [h hcut]
    split_ifs <;> rfl

/-- A prefix begins with an address that has no zone. -/
theorem addr_of_parsePrefix {p : Str} {c : Prefix} (h : parsePrefix p = some c) :
    ∃ a b, p = a ++ 0x2F :: b ∧ ((∃ ip, parseAddr a = .v4 ip) ∨ ∃ ip, parseAddr a = .v6 ip []) := by
  rw [parsePrefix] at h
  split at h
  · cases h
  rename_i a b hcut
  obtain ⟨rfl, -⟩ := cutLast_eq_some.mp hcut
  refine ⟨a, b, rfl, ?_⟩
  split at h
  · cases h
  split at h
  · rename_i ip n ha _
    exact .inl ⟨ip, ha⟩
  · rename_i ip n ha _
    exact .inr ⟨ip, ha⟩
  · cases h

/-- A prefix is no address: its slash is before any zone. -/
theorem parseAddr_of_parsePrefix {p : Str} {c : Prefix} (h : parsePrefix p = some c) :
    parseAddr p = .none := by
  have hslash : ¬ AddrByte 0x2F := by decide
  obtain ⟨a, b, rfl, hv⟩ := addr_of_parsePrefix h
  have hmem : (0x2F : UInt8) ∈ a ++ 0x2F :: b := by simp
  have hz : 0x25 ∉ a := fun hz => absurd (parseAddr_bytes hv _ hz) (by decide)
  rcases parseAddr_cases (a ++ 0x2F :: b) with ha | ha | ha
  · exact ha
  · rw [ha]
    exact parseIPv4_of_byte hmem hslash
  · rw [ha]
    refine parseIPv6_of_byte (fun {x z} hcut => ?_) (fun _ => hmem) hslash
    obtain ⟨he, -⟩ := cutFirst_eq_some.mp hcut
    rcases List.append_eq_append_iff.mp he with ⟨t, rfl, ht⟩ | ⟨t, rfl, ht⟩
    · cases t with
      | nil => exact absurd (List.cons_eq_cons.mp ht).1 (by decide)
      | cons d t =>
        rw [(List.cons_eq_cons.mp ht).1]
        simp
    · cases t with
      | nil => exact absurd (List.cons_eq_cons.mp ht).1 (by decide)
      | cons d t =>
        obtain ⟨rfl, -⟩ := List.cons_eq_cons.mp ht
        exact absurd (by simp) hz

end SP.Proof
