import SpnegoProxy.Proof.Go.Net
import SpnegoProxy.Proof.Go.Netip
import SpnegoProxy.Proof.Go.Strconv
import SpnegoProxy.Spec.AllowList

/-!
# IP addresses: masks, and their text

Two addresses agree under a mask exactly when they agree on its bits
(`masked_eq_iff`). What is printed of an address is parsed as that address
(`parseIP_string`).
-/

namespace SP.Proof

open SP.Go SP.Spec

/-! ## Masks -/

/-- The byte of a mask that has `n` bits from its front on. -/
def byteMask (n : Nat) : UInt8 := if 8 ≤ n then 0xFF else ~~~((0xFF : UInt8) >>> n.toUInt8)

theorem cidrMask_succ (n l : Nat) : cidrMask n (l + 1) = byteMask n :: cidrMask (n - 8) l := rfl

theorem length_cidrMask (n l : Nat) : (cidrMask n l).length = l := by
  induction l generalizing n with
  | zero => rfl
  | succ l ih => rw [cidrMask_succ, List.length_cons, ih]

theorem testBit_byteMask (n : Nat) : ∀ j < 8, (byteMask n).toNat.testBit j = decide (8 - n ≤ j) := by
  have hsmall : ∀ n < 8, ∀ j < 8, (byteMask n).toNat.testBit j = decide (8 - n ≤ j) := by decide
  have hlarge : ∀ j < 8, (0xFF : UInt8).toNat.testBit j = true := by decide
  intro j hj
  by_cases hn : n < 8
  · exact hsmall n hn j hj
  · rw [byteMask, if_pos (Nat.le_of_not_lt hn), hlarge j hj]
    exact (decide_eq_true (by omega)).symm

theorem byte_eq_iff {x y : UInt8} : x = y ↔ ∀ j < 8, x.toNat.testBit j = y.toNat.testBit j := by
  refine ⟨fun h j _ => by rw [h], fun h => UInt8.toNat_inj.mp (Nat.eq_of_testBit_eq fun j => ?_)⟩
  by_cases hj : j < 8
  · exact h j hj
  · have hlt : ∀ z : UInt8, z.toNat.testBit j = false := fun z =>
      Nat.testBit_lt_two_pow (Nat.lt_of_lt_of_le z.toNat_lt (Nat.pow_le_pow_right (by decide) (Nat.le_of_not_lt hj)))
    rw [hlt x, hlt y]

/-- Two bytes under a mask. -/
theorem and_byteMask_iff {x y : UInt8} {n : Nat} : x &&& byteMask n = y &&& byteMask n ↔
    ∀ i < 8, i < n → x.toNat.testBit (7 - i) = y.toNat.testBit (7 - i) := by
  rw [byte_eq_iff]
  simp only [UInt8.toNat_and, Nat.testBit_and]
  constructor
  · intro h i hi hin
    have hbit := h (7 - i) (by omega)
    rwa [testBit_byteMask n _ (by omega), decide_eq_true (by omega), Bool.and_true, Bool.and_true] at hbit
  · intro h j hj
    rw [testBit_byteMask n j hj]
    by_cases hn : 8 - n ≤ j
    · have hbit := h (7 - j) (by omega) (by omega)
      rw [show 7 - (7 - j) = j by omega] at hbit
      rw [hbit]
    · rw [decide_eq_false hn, Bool.and_false, Bool.and_false]

theorem addrBit_cons_lt {x : UInt8} {a : IP} {i : Nat} (hi : i < 8) :
    addrBit (x :: a) i = x.toNat.testBit (7 - i) := by
  rw [addrBit, Nat.div_eq_of_lt hi, Nat.mod_eq_of_lt hi]
  rfl

theorem addrBit_cons_add {x : UInt8} {a : IP} {i : Nat} : addrBit (x :: a) (i + 8) = addrBit a i := by
  rw [addrBit, Nat.add_div_right i (by decide), Nat.add_mod_right]
  rfl

theorem masked_eq_iff {l n : Nat} {a c : IP} (ha : a.length = l) (hc : c.length = l)
    (hn : n ≤ 8 * l) :
    a.zipWith (· &&& ·) (cidrMask n l) = c.zipWith (· &&& ·) (cidrMask n l) ↔ ∀ i < n,
      addrBit a i = addrBit c i := by
  induction l generalizing n a c with
  | zero =>
    have hz : n = 0 := by omega
    simp [hz, List.length_eq_zero_iff.mp ha, List.length_eq_zero_iff.mp hc]
  | succ l ih =>
    obtain ⟨x, a, rfl⟩ := List.exists_cons_of_length_eq_add_one ha
    obtain ⟨y, c, rfl⟩ := List.exists_cons_of_length_eq_add_one hc
    rw [cidrMask_succ, List.zipWith_cons_cons, List.zipWith_cons_cons, List.cons_eq_cons,
      and_byteMask_iff,
      ih (Nat.succ.inj ha) (Nat.succ.inj hc) (by omega)]
    constructor
    · rintro ⟨hx, htail⟩ i hi
      by_cases h8 : i < 8
      · rw [addrBit_cons_lt h8, addrBit_cons_lt h8]
        exact hx i h8 hi
      · obtain ⟨k, rfl⟩ := Nat.exists_eq_add_of_le' (Nat.le_of_not_lt h8)
        rw [addrBit_cons_add, addrBit_cons_add]
        exact htail k (by omega)
    · intro h
      refine ⟨fun i h8 hi => ?_, fun k hk => ?_⟩
      · have hbit := h i hi
        rwa [addrBit_cons_lt h8, addrBit_cons_lt h8] at hbit
      · have hbit := h (k + 8) (by omega)
        rwa [addrBit_cons_add, addrBit_cons_add] at hbit

/-! ## Networks -/

section

variable {ip : IP}

theorem to4_of_length (h : ip.length = 4) : ip.to4 = some ip := by
  rw [IP.to4, if_pos h]

theorem to4_mapped (h : Mapped ip) : ip.to4 = some (ip.drop 12) := by
  rw [IP.to4, if_neg (by rw [h.1]; decide), if_pos (show _ ∧ _ from h)]

theorem to4_of_not_mapped (h : ip.length ≠ 4) (hm : ¬ Mapped ip) : ip.to4 = none := by
  rw [IP.to4, if_neg h, if_neg (show ¬ (_ ∧ _) from hm)]

theorem mapped_append {p : IP} (h : p.length = 4) : Mapped (v4InV6 ++ p) :=
  ⟨by rw [List.length_append, h]; rfl, List.take_left' rfl⟩

/-- `To4`, or else the address itself, reads the mapped form as IPv4. -/
theorem to4_getD (ip : IP) : ip.to4.getD ip = unmap ip := by
  by_cases h4 : ip.length = 4
  · rw [to4_of_length h4, unmap, if_neg fun hm => by rw [hm.1] at h4; cases h4]
    rfl
  by_cases hm : Mapped ip
  · rw [to4_mapped hm, unmap, if_pos hm]
    rfl
  · rw [to4_of_not_mapped h4 hm, unmap, if_neg hm]
    rfl

end

/-- The network `net` contains the addresses that agree with `a` on `n` bits. -/
def Represents (net : IPNet) (a : IP) (n : Nat) : Prop :=
  ∀ ip, net.contains ip = true ↔ a.length = (unmap ip).length ∧ ∀ i < n,
    addrBit a i = addrBit (unmap ip) i

/-- The network number may have bits behind the mask. -/
theorem represents {net : IPNet} {a : IP} {n : Nat} (number : IP) (l : Nat)
    (h : net.numberAndMask = (number, cidrMask n l))
    (hlen : number.length = l) (ha : a.length = l) (hn : n ≤ 8 * l)
    (hmask : number.zipWith (· &&& ·) (cidrMask n l) = a.zipWith (· &&& ·) (cidrMask n l)) :
    Represents net a n := by
  intro ip
  simp only [IPNet.contains, h, to4_getD, hmask, hlen, Bool.and_eq_true, decide_eq_true_eq,
    beq_iff_eq, ha]
  rw [eq_comm (a := l)]
  exact and_congr_right fun hip => masked_eq_iff ha hip hn

theorem zipWith_and_idem {a m : List UInt8} :
    (a.zipWith (· &&& ·) m).zipWith (· &&& ·) m = a.zipWith (· &&& ·) m := by
  induction a generalizing m with
  | nil => rfl
  | cons x a ih =>
    cases m with
    | nil => rfl
    | cons y m =>
      rw [List.zipWith_cons_cons, List.zipWith_cons_cons, ih, UInt8.and_assoc, UInt8.and_self]

theorem length_masked {a : IP} {n l : Nat} (h : a.length = l) :
    (a.zipWith (· &&& ·) (cidrMask n l)).length = l := by
  rw [List.length_zipWith, length_cidrMask, h, Nat.min_self]

section

variable {p a : IP} {n : Nat}

theorem drop_mapped (p : IP) : (v4InV6 ++ p).drop 12 = p := List.drop_left' rfl

theorem mask_mapped (h : p.length = 4) :
    IP.mask (v4InV6 ++ p) (cidrMask n 4) = p.zipWith (· &&& ·) (cidrMask n 4) := by
  obtain ⟨hlen, htake⟩ := mapped_append h
  simp [IP.mask, length_cidrMask, hlen, htake, drop_mapped, h]

theorem mask_v6 (h : a.length = 16) :
    IP.mask a (cidrMask n 16) = a.zipWith (· &&& ·) (cidrMask n 16) := by
  simp [IP.mask, length_cidrMask, h]

/-- An address of IPv4. -/
theorem represents_addr4 (h : p.length = 4) : Represents ⟨v4InV6 ++ p, cidrMask 32 4⟩ p 32 := by
  refine represents p 4 ?_ h h (by decide) rfl
  simp [IPNet.numberAndMask, to4_mapped (mapped_append h), length_cidrMask, drop_mapped, h]

/-- A CIDR of IPv4. -/
theorem represents_cidr4 (h : p.length = 4) (hn : n ≤ 32) :
    Represents ⟨IP.mask (v4InV6 ++ p) (cidrMask n 4), cidrMask n 4⟩ p n := by
  have hlen : (p.zipWith (· &&& ·) (cidrMask n 4)).length = 4 := length_masked h
  rw [mask_mapped h]
  refine represents _ 4 ?_ hlen h hn zipWith_and_idem
  simp [IPNet.numberAndMask, to4_of_length hlen, length_cidrMask, h]

/-- An address of IPv6. -/
theorem represents_addr6 (h : a.length = 16) (hm : ¬ Mapped a) :
    Represents ⟨a, cidrMask 128 16⟩ a 128 := by
  refine represents a 16 ?_ h h (by decide) rfl
  have h4 : a.length ≠ 4 := by rw [h]; decide
  simp [IPNet.numberAndMask, to4_of_not_mapped h4 hm, length_cidrMask, h]

theorem cidrMask_add (n k l : Nat) : cidrMask n (k + l) = cidrMask n k ++ cidrMask (n - 8 * k) l := by
  induction k generalizing n with
  | zero => simp [cidrMask]
  | succ k ih =>
    rw [Nat.succ_add, cidrMask_succ, cidrMask_succ, ih, List.cons_append,
      show n - 8 - 8 * k = n - 8 * (k + 1) by omega]

theorem cidrMask_full (n l : Nat) (h : 8 * l ≤ n) : cidrMask n l = List.replicate l 0xFF := by
  induction l generalizing n with
  | zero => rfl
  | succ l ih => rw [cidrMask_succ, ih (n - 8) (by omega), byteMask, if_pos (by omega), List.replicate_succ]

theorem zipWith_and_full {a : IP} {l : Nat} (h : a.length = l) :
    a.zipWith (· &&& ·) (List.replicate l 0xFF) = a := by
  subst h
  induction a with
  | nil => rfl
  | cons x a ih =>
    have hx : ∀ x : UInt8, x &&& 0xFF = x := forall_byte (by decide +kernel)
    rw [List.length_cons, List.replicate_succ, List.zipWith_cons_cons, ih, hx]

/-- A mask makes no address IPv4-mapped. -/
theorem not_mapped_masked (h : a.length = 16) (hm : ¬ Mapped a) :
    ¬ Mapped (a.zipWith (· &&& ·) (cidrMask n 16)) := by
  rintro ⟨-, htake⟩
  by_cases hn : 96 ≤ n
  · -- the mask keeps the first twelve bytes
    refine hm ⟨h, ?_⟩
    have hlen : (a.take 12).length = 12 := by rw [List.length_take, h]; rfl
    rw [cidrMask_add n 12 4, List.take_zipWith, List.take_left' (length_cidrMask n 12),
      cidrMask_full n 12 (by omega)] at htake
    rwa [zipWith_and_full hlen] at htake
  · -- it clears a bit of the twelfth
    have hbyte : ∀ k < 8, ∀ x : UInt8, x &&& byteMask k ≠ 0xFF := by
      intro k hk x hx
      have hlow := congrArg (·.toNat.testBit 0) hx
      simp only [UInt8.toNat_and, Nat.testBit_and, testBit_byteMask k 0 (by decide)] at hlow
      rw [decide_eq_false (by omega), Bool.and_false] at hlow
      exact absurd hlow (by decide)
    have hmask : (cidrMask n 16)[11]? = some (byteMask (n - 88)) := by
      rw [cidrMask_add n 11 5,
        List.getElem?_append_right (by rw [length_cidrMask]), length_cidrMask]
      rfl
    have h11 : 11 < a.length := by rw [h]; decide
    have hx := congrArg (·[11]?) htake
    simp only [List.getElem?_take_of_lt (show 11 < 12 by decide), List.getElem?_zipWith, hmask,
      List.getElem?_eq_getElem h11] at hx
    exact hbyte (n - 88) (by omega) _ (Option.some.inj hx)

/-- A CIDR of IPv6. -/
theorem represents_cidr6 (h : a.length = 16) (hm : ¬ Mapped a) (hn : n ≤ 128) :
    Represents ⟨IP.mask a (cidrMask n 16), cidrMask n 16⟩ a n := by
  have hlen : (a.zipWith (· &&& ·) (cidrMask n 16)).length = 16 := length_masked h
  have h4 : (a.zipWith (· &&& ·) (cidrMask n 16)).length ≠ 4 := by rw [hlen]; decide
  rw [mask_v6 h]
  refine represents _ 16 ?_ hlen h hn zipWith_and_idem
  simp [IPNet.numberAndMask, to4_of_not_mapped h4 (not_mapped_masked h hm), length_cidrMask, h]

end

/-! ## Bytes and fields -/

theorem length_beBytes (k n : Nat) : (beBytes k n).length = k := by
  induction k generalizing n with
  | zero => rfl
  | succ k ih => rw [beBytes, List.length_append, ih, List.length_singleton]

theorem beVal_snoc (bs : List UInt8) (b : UInt8) : beVal (bs ++ [b]) = beVal bs * 256 + b.toNat := by
  rw [beVal, List.foldl_append]
  rfl

theorem beVal_lt (bs : List UInt8) : beVal bs < 2 ^ (8 * bs.length) := by
  induction bs using List.reverseRecOn with
  | nil => decide
  | append_singleton bs b ih =>
    have hb := b.toNat_lt
    rw [beVal_snoc, List.length_append, List.length_singleton, Nat.mul_add, Nat.pow_add]
    omega

theorem beBytes_beVal {bs : List UInt8} {k : Nat} (h : bs.length = k) : beBytes k (beVal bs) = bs := by
  subst h
  induction bs using List.reverseRecOn with
  | nil => rfl
  | append_singleton bs b ih =>
    have hb := b.toNat_lt
    have hdiv : (beVal bs * 256 + b.toNat) / 256 = beVal bs := by omega
    have hmod : (beVal bs * 256 + b.toNat).toUInt8 = b := by
      rw [← UInt8.toNat_inj]
      show (beVal bs * 256 + b.toNat) % 256 = b.toNat
      omega
    rw [beVal_snoc, List.length_append, List.length_singleton, beBytes, hdiv, ih, hmod]

theorem toNat_ofNat_beVal {bs : List UInt8} {w : Nat} (h : w = 8 * bs.length) :
    (BitVec.ofNat w (beVal bs)).toNat = beVal bs := by
  rw [BitVec.toNat_ofNat, Nat.mod_eq_of_lt]
  rw [h]
  exact beVal_lt bs

/-- The bytes of fields. -/
def bytes16 (fs : List Nat) : List UInt8 :=
  fs.flatMap fun x => [(x / 256).toUInt8, (x % 256).toUInt8]

theorem bytes16_append (fs gs : List Nat) : bytes16 (fs ++ gs) = bytes16 fs ++ bytes16 gs :=
  List.flatMap_append

theorem length_bytes16 (fs : List Nat) : (bytes16 fs).length = 2 * fs.length := by
  induction fs with
  | nil => rfl
  | cons x fs ih =>
    show (bytes16 fs).length + 2 = _
    rw [ih, List.length_cons]
    omega

theorem fields16_spec {k : Nat} {ip : List UInt8} (h : ip.length = 2 * k) :
    (fields16 ip).length = k ∧ (∀ x ∈ fields16 ip, x < 65536) ∧ bytes16 (fields16 ip) = ip := by
  induction k generalizing ip with
  | zero =>
    rw [List.length_eq_zero_iff.mp h]
    exact ⟨rfl, fun x hx => (nomatch hx), rfl⟩
  | succ k ih =>
    obtain ⟨a, t, rfl⟩ := List.exists_cons_of_length_eq_add_one (n := 2 * k + 1) h
    obtain ⟨b, ip, rfl⟩ := List.exists_cons_of_length_eq_add_one (n := 2 * k) (Nat.succ.inj h)
    obtain ⟨hlen, hlt, hbytes⟩ := ih (Nat.succ.inj (Nat.succ.inj h))
    have ha := a.toNat_lt
    have hb := b.toNat_lt
    refine ⟨by rw [fields16, List.length_cons, hlen], List.forall_mem_cons.mpr ⟨by omega, hlt⟩, ?_⟩
    show (_ / 256).toUInt8 :: (_ % 256).toUInt8 :: bytes16 (fields16 ip) = _
    rw [hbytes]
    have hdiv : (a.toNat * 256 + b.toNat) / 256 = a.toNat := by omega
    have hmod : (a.toNat * 256 + b.toNat) % 256 = b.toNat := by omega
    rw [hdiv, hmod]
    simp

/-! ## Hexadecimal fields -/

theorem hexVal_hexDigit : ∀ d < 16, hexVal (hexDigit d) = some d := by decide

/-- The text of a field: at most `k` hexadecimal digits that denote `x`. -/
structure FieldText (k x : Nat) (s : Str) : Prop where
  nonempty : s ≠ []
  short : s.length ≤ k
  digits : ∀ b ∈ s, (hexVal b).isSome = true
  value : s.foldl (fun n b => n * 16 + (hexVal b).getD 0) 0 = x

theorem FieldText.digit {d : Nat} (hd : d < 16) : FieldText 1 d [hexDigit d] := by
  refine ⟨by simp, by simp, ?_, ?_⟩
  · simp [hexVal_hexDigit d hd]
  · simp [hexVal_hexDigit d hd]

theorem FieldText.snoc {k x d : Nat} {s : Str} (h : FieldText k x s) (hd : d < 16) :
    FieldText (k + 1) (x * 16 + d) (s ++ [hexDigit d]) := by
  refine ⟨by simp, by simpa using h.short, ?_, ?_⟩
  · rw [List.forall_mem_append]
    exact ⟨h.digits, by simp [hexVal_hexDigit d hd]⟩
  · rw [List.foldl_append, h.value]
    simp [hexVal_hexDigit d hd]

theorem hex_snoc {x : Nat} (h : 16 ≤ x) (hx : x < 65536) :
    hex x = hex (x / 16) ++ [hexDigit (x % 16)] := by
  have h3 : ¬ 0x1000 ≤ x / 16 := by omega
  have h2 : 0x100 ≤ x / 16 ↔ 0x1000 ≤ x := by omega
  have h1 : 0x10 ≤ x / 16 ↔ 0x100 ≤ x := by omega
  have d2 : x / 16 / 0x100 % 16 = x / 0x1000 := by omega
  have d1 : x / 16 / 0x10 % 16 = x / 0x100 % 16 := by omega
  simp only [hex, h3, h2, h1, d2, d1, h, if_true, if_false, List.nil_append]

theorem fieldText_hex {k x : Nat} (hk : k ≤ 3) (hx : x < 16 ^ (k + 1)) :
    FieldText (k + 1) x (hex x) := by
  induction k generalizing x with
  | zero =>
    have hx : x < 16 := hx
    have hone : hex x = [hexDigit x] := by
      simp only [hex,
        show ¬ 0x1000 ≤ x by omega, show ¬ 0x100 ≤ x by omega, show ¬ 0x10 ≤ x by omega, if_false,
        List.nil_append, Nat.mod_eq_of_lt hx]
    rw [hone]
    exact .digit hx
  | succ k ih =>
    have hpow : 16 ^ (k + 1) * 16 = 16 ^ (k + 1 + 1) := (Nat.pow_succ ..).symm
    have hmax : 16 ^ (k + 1 + 1) ≤ 16 ^ 4 := Nat.pow_le_pow_right (by decide) (by omega)
    by_cases h16 : 16 ≤ x
    · have h :=
      (ih (by omega) (x := x / 16) (by omega)).snoc (d := x % 16) (Nat.mod_lt x (by decide))
      rwa [Nat.div_add_mod', ← hex_snoc h16 (by omega)] at h
    · have h :=
      ih (by omega) (x := x) (Nat.lt_of_lt_of_le (Nat.lt_of_not_le h16) (Nat.le_self_pow (by omega) 16))
      exact ⟨h.nonempty, Nat.le_succ_of_le h.short, h.digits, h.value⟩

section

variable {x : Nat} (hx : x < 65536) (n : Nat) (ip : List UInt8) (e : Option Nat)

include hx

/-- The parser on a field and what follows it, up to the next colon. -/
theorem parseIPv6Fields_hex {r : Str} (hr : r = [] ∨ ∃ t, r = colon :: t) :
    (hex x ++ r).takeWhile (fun b => (hexVal b).isSome) = hex x ∧ (hex x ++ r).dropWhile (fun b => (hexVal b).isSome) = r ∧
      r.head? ≠ some 0x2E := by
  have hdigits := (fieldText_hex (k := 3) (by decide) hx).digits
  rw [List.takeWhile_append_of_pos hdigits, List.dropWhile_append_of_pos hdigits]
  rcases hr with rfl | ⟨t, rfl⟩
  · exact ⟨List.append_nil _, rfl, nofun⟩
  · exact ⟨List.append_nil _, rfl, by rw [List.head?_cons]; decide⟩

theorem parseIPv6Fields_last :
    parseIPv6Fields (n + 1) ip e (hex x) = some (ip ++ bytes16 [x], e, []) := by
  obtain ⟨hne, hshort, -, hval⟩ := fieldText_hex (k := 3) (by decide) hx
  obtain ⟨htake, hdrop, hdot⟩ := parseIPv6Fields_hex hx (.inl rfl)
  rw [List.append_nil] at htake hdrop
  simp only [parseIPv6Fields, htake, hdrop, hval, hne, hdot, Nat.not_lt.mpr hshort, or_self,
    if_false]
  rfl

theorem parseIPv6Fields_next {t : Str} (ht : t ≠ []) (hc : t.head? ≠ some colon) :
    parseIPv6Fields (n + 1) ip e (hex x ++ colon :: t) = parseIPv6Fields n (ip ++ bytes16 [x]) e t := by
  obtain ⟨hne, hshort, -, hval⟩ := fieldText_hex (k := 3) (by decide) hx
  obtain ⟨htake, hdrop, hdot⟩ := parseIPv6Fields_hex hx (.inr ⟨t, rfl⟩)
  simp only [parseIPv6Fields, htake, hdrop, hval, hne, hdot, Nat.not_lt.mpr hshort, or_self,
    if_false, ht, hc,
    not_true_eq_false, ne_eq]
  rfl

theorem parseIPv6Fields_ellipsis (t : Str) :
    parseIPv6Fields (n + 1) ip none (hex x ++ colon :: colon :: t) =
    if t = [] then some (ip ++ bytes16 [x], some (ip ++ bytes16 [x]).length, [])
    else parseIPv6Fields n (ip ++ bytes16 [x]) (some (ip ++ bytes16 [x]).length) t := by
  obtain ⟨hne, hshort, -, hval⟩ := fieldText_hex (k := 3) (by decide) hx
  obtain ⟨htake, hdrop, -⟩ := parseIPv6Fields_hex hx (.inr ⟨colon :: t, rfl⟩)
  simp only [parseIPv6Fields, htake, hdrop, hval, hne, Nat.not_lt.mpr hshort, or_self, if_false,
    not_true_eq_false,
    ne_eq, List.head?_cons, if_true, List.tail_cons, reduceCtorEq]
  rfl

end

/-! ## The text of an IPv6 address -/

theorem joinFields_singleton (x : Nat) : joinFields [x] = hex x := by
  simp [joinFields, List.intercalate]

theorem joinFields_cons (x : Nat) {gs : List Nat} (hg : gs ≠ []) :
    joinFields (x :: gs) = hex x ++ colon :: joinFields gs := by
  obtain ⟨y, gs, rfl⟩ := List.exists_cons_of_ne_nil hg
  rw [joinFields, List.map_cons, List.map_cons, List.intercalate_cons_cons, List.append_assoc]
  rfl

section

variable {gs : List Nat} (hg : gs ≠ []) (hlt : ∀ x ∈ gs, x < 65536)

include hg hlt

/-- The text of fields begins with a digit. -/
theorem joinFields_head : ∃ b t, joinFields gs = b :: t ∧ (hexVal b).isSome = true := by
  obtain ⟨x, gs, rfl⟩ := List.exists_cons_of_ne_nil hg
  obtain ⟨hne, -, hdigits, -⟩ := fieldText_hex (k := 3) (by decide) (hlt x (List.mem_cons_self ..))
  obtain ⟨b, t, hbt⟩ := List.exists_cons_of_ne_nil hne
  have hb : (hexVal b).isSome = true := hdigits b (by rw [hbt]; exact List.mem_cons_self ..)
  by_cases hgs : gs = []
  · rw [hgs, joinFields_singleton]
    exact ⟨b, t, hbt, hb⟩
  · rw [joinFields_cons x hgs, hbt]
    exact ⟨b, _, rfl, hb⟩

theorem joinFields_ne : joinFields gs ≠ [] ∧ (joinFields gs).head? ≠ some colon := by
  obtain ⟨b, t, hbt, hb⟩ := joinFields_head hg hlt
  rw [hbt]
  refine ⟨List.cons_ne_nil _ _, fun h => ?_⟩
  rw [Option.some.inj h] at hb
  exact absurd hb (by decide)

end

theorem bytes16_cons (x : Nat) (gs : List Nat) : bytes16 (x :: gs) = bytes16 [x] ++ bytes16 gs :=
  bytes16_append [x] gs

/-- The fields before the last are taken one after the other, whatever follows. -/
theorem parseIPv6Fields_init {gs : List Nat} {x : Nat} (hlt : ∀ y ∈ gs, y < 65536) (hx : x < 65536)
    (n : Nat) (ip : List UInt8) (e : Option Nat) (t : Str) :
    parseIPv6Fields (n + gs.length) ip e (joinFields (gs ++ [x]) ++ t) =
      parseIPv6Fields n (ip ++ bytes16 gs) e (hex x ++ t) := by
  induction gs generalizing ip with
  | nil =>
    rw [List.nil_append, joinFields_singleton, show bytes16 [] = [] from rfl, List.append_nil]
    rfl
  | cons y gs ih =>
    obtain ⟨hy, hgs⟩ := List.forall_mem_cons.mp hlt
    have hall : ∀ z ∈ gs ++ [x], z < 65536 := by
      intro z hz
      rcases List.mem_append.mp hz with hz | hz
      · exact hgs z hz
      · rw [List.mem_singleton.mp hz]
        exact hx
    obtain ⟨b, s, hbs, hb⟩ := joinFields_head (by simp) hall
    have hc : (joinFields (gs ++ [x]) ++ t).head? ≠ some colon := by
      rw [hbs]
      exact fun h => absurd (Option.some.inj h ▸ hb) (by decide)
    rw [List.cons_append,
      joinFields_cons y (by simp), List.append_assoc, List.cons_append, List.length_cons,
      ← Nat.add_assoc, parseIPv6Fields_next hy _ ip e (by simp [hbs]) hc, ih hgs, List.append_assoc, ← bytes16_cons]

section

variable {gs : List Nat} (hg : gs ≠ []) (hlt : ∀ x ∈ gs,
  x < 65536) {n : Nat} (hn : gs.length ≤ n) (ip : List UInt8)

include hg hlt hn

/-- The parser stands before the last field. -/
theorem parseIPv6Fields_toLast : ∃ fs x, gs = fs ++ [x] ∧ x < 65536 ∧ ∀ e t,
    parseIPv6Fields n ip e (joinFields gs ++ t) =
      parseIPv6Fields (n - gs.length + 1) (ip ++ bytes16 fs) e (hex x ++ t) := by
  obtain ⟨fs, x, rfl⟩ := (List.eq_nil_or_concat' gs).resolve_left hg
  have hx : x < 65536 := hlt x (by simp)
  refine ⟨fs, x, rfl, hx, fun e t => ?_⟩
  rw [List.length_append, List.length_singleton] at hn ⊢
  rw [← parseIPv6Fields_init (fun y hy => hlt y (by simp [hy])) hx,
    show n - (fs.length + 1) + 1 + fs.length = n by omega]

theorem parseIPv6Fields_join (e : Option Nat) :
    parseIPv6Fields n ip e (joinFields gs) = some (ip ++ bytes16 gs, e, []) := by
  obtain ⟨fs, x, rfl, hx, hlast⟩ := parseIPv6Fields_toLast hg hlt hn ip
  rw [← List.append_nil (joinFields _), hlast, List.append_nil, parseIPv6Fields_last hx, List.append_assoc,
    ← bytes16_append]

theorem parseIPv6Fields_join_ellipsis (t : Str) :
    parseIPv6Fields n ip none (joinFields gs ++ colon :: colon :: t) =
      if t = [] then some (ip ++ bytes16 gs, some (ip ++ bytes16 gs).length, [])
      else parseIPv6Fields (n - gs.length) (ip ++ bytes16 gs) (some (ip ++ bytes16 gs).length) t := by
  obtain ⟨fs, x, rfl, hx, hlast⟩ := parseIPv6Fields_toLast hg hlt hn ip
  rw [hlast, parseIPv6Fields_ellipsis hx, List.append_assoc, ← bytes16_append]

end

/-! ### The run of zeros -/

/-- The zeros of a list from the position `i` on. -/
theorem zeros_at {fs : List Nat} {i l : Nat} (hl : ((fs.drop i).takeWhile (· = 0)).length = l) :
    fs = fs.take i ++ List.replicate l 0 ++ fs.drop (i + l) := by
  have hzeros : (fs.drop i).takeWhile (· = 0) = List.replicate l 0 :=
    List.eq_replicate_iff.mpr ⟨hl, fun x hx => by simpa using List.mem_takeWhile_imp hx⟩
  have hrest : (fs.drop i).dropWhile (· = 0) = fs.drop (i + l) := by
    rw [← List.drop_drop]
    nth_rewrite 2 [← List.takeWhile_append_dropWhile (p := (· = 0)) (l := fs.drop i)]
    rw [List.drop_left' hl]
  rw [← hzeros, ← hrest, List.append_assoc, List.takeWhile_append_dropWhile, List.take_append_drop]

/-- A run of zeros as `zeroRun` finds it: there is none, or it stands there. -/
def RunAt (fs : List Nat) (run : Nat × Nat) : Prop :=
  run.2 = 0 ∨ 2 ≤ run.2 ∧ fs = fs.take run.1 ++ List.replicate run.2 0 ++ fs.drop (run.1 + run.2)

theorem runAt_zeroRun (fs : List Nat) : RunAt fs (zeroRun fs) := by
  have hfold : ∀ (is : List Nat) (best : Nat × Nat), RunAt fs best →
    RunAt fs (is.foldl (fun best i =>
      if 2 ≤ ((fs.drop i).takeWhile (· = 0)).length ∧ best.2 < ((fs.drop i).takeWhile (· = 0)).length then
        (i, ((fs.drop i).takeWhile (· = 0)).length) else best) best) := by
    intro is
    induction is with
    | nil => exact fun best h => h
    | cons i is ih =>
      intro best h
      rw [List.foldl_cons]
      refine ih _ ?_
      split_ifs with hl
      · exact .inr ⟨hl.1, zeros_at rfl⟩
      · exact h
  exact hfold (List.range 8) (0, 0) (.inl rfl)

/-! ### Round trip -/

theorem bytes16_zeros (l : Nat) : bytes16 (List.replicate l 0) = List.replicate (2 * l) 0 := by
  induction l with
  | zero => rfl
  | succ l ih =>
    rw [List.replicate_succ, bytes16_cons, ih]
    rfl

theorem joinFields_nil : joinFields [] = [] := rfl

/-- The text of an address with `::` for a run of zeros. -/
theorem parseIPv6Bytes_ellipsis {fs gs : List Nat} (hf : ∀ x ∈ fs, x < 65536)
    (hg : ∀ x ∈ gs, x < 65536) (hlen : fs.length + gs.length < 8) :
    parseIPv6Bytes (joinFields fs ++ colon :: colon :: joinFields gs) =
      some (bytes16 fs ++ List.replicate (16 - 2 * (fs.length + gs.length)) 0 ++ bytes16 gs) := by
  generalize hs : joinFields fs ++ colon :: colon :: joinFields gs = s
  have hparsed : (if s.take 2 = [colon, colon] then
      if s.drop 2 = [] then some ([], some 0, []) else parseIPv6Fields 8 [] (some 0) (s.drop 2)
      else parseIPv6Fields 8 [] none s) = some (bytes16 fs ++ bytes16 gs, some (bytes16 fs).length,
        []) := by
    subst hs
    by_cases hnil : fs = []
    · subst hnil
      rw [joinFields_nil, List.nil_append]
      show (if joinFields gs = [] then _ else parseIPv6Fields 8 [] (some 0) (joinFields gs)) = _
      by_cases hgs : gs = []
      · rw [hgs]
        rfl
      · rw [if_neg (joinFields_ne hgs hg).1, parseIPv6Fields_join hgs hg (by omega)]
        rfl
    · obtain ⟨b, t, hbt, hb⟩ := joinFields_head hnil hf
      have hdigit : (joinFields fs ++ colon :: colon :: joinFields gs).take 2 ≠ [colon, colon] := by
        rw [hbt]
        exact fun h => absurd ((List.cons_eq_cons.mp h).1 ▸ hb) (by decide)
      rw [if_neg hdigit, parseIPv6Fields_join_ellipsis hnil hf (by omega), List.nil_append]
      by_cases hgs : gs = []
      · rw [hgs, if_pos joinFields_nil, show bytes16 [] = [] from rfl, List.append_nil]
      · rw [if_neg (joinFields_ne hgs hg).1, parseIPv6Fields_join hgs hg (by omega)]
  have hbytes : (bytes16 fs ++ bytes16 gs).length = 2 * (fs.length + gs.length) := by
    rw [List.length_append, length_bytes16, length_bytes16]
    omega
  rw [parseIPv6Bytes]
  simp only [hparsed, hbytes,
    if_pos (show 2 * (fs.length + gs.length) < 16 by omega), List.take_left, List.drop_left]

theorem parseIPv6Bytes_format6 {ip : List UInt8} (h : ip.length = 16) :
    parseIPv6Bytes (format6 ip) = some ip := by
  obtain ⟨hlen, hlt, hbytes⟩ := fields16_spec (k := 8) h
  rw [format6]
  generalize fields16 ip = fs at hlen hlt hbytes
  simp only
  rcases runAt_zeroRun fs with hrun | ⟨h2, hrun⟩
  · have hne : fs ≠ [] := by
      rintro rfl
      cases hlen
    obtain ⟨b, t, hbt, hb⟩ := joinFields_head hne hlt
    have hdigit : (joinFields fs).take 2 ≠ [colon, colon] := by
      rw [hbt]
      exact fun h => absurd ((List.cons_eq_cons.mp h).1 ▸ hb) (by decide)
    rw [if_pos hrun, parseIPv6Bytes]
    simp only [if_neg hdigit, parseIPv6Fields_join hne hlt (Nat.le_of_eq hlen), List.nil_append,
      hbytes, h, if_true]
  · rw [if_neg (by omega)]
    generalize (zeroRun fs).1 = i at hrun
    generalize (zeroRun fs).2 = l at h2 hrun
    have hsub : (∀ x ∈ fs.take i, x < 65536) ∧ ∀ x ∈ fs.drop (i + l), x < 65536 :=
      ⟨fun x hx => hlt x (List.mem_of_mem_take hx), fun x hx => hlt x (List.mem_of_mem_drop hx)⟩
    have hsum := congrArg List.length hrun
    rw [List.length_append, List.length_append, List.length_replicate, hlen] at hsum
    have hzeros : 16 - 2 * ((fs.take i).length + (fs.drop (i + l)).length) = 2 * l := by omega
    have hall : bytes16 fs = bytes16 (fs.take i) ++ List.replicate (2 * l) 0 ++ bytes16 (fs.drop (i + l)) := by
      rw [← bytes16_zeros, ← bytes16_append, ← bytes16_append, ← hrun]
    rw [parseIPv6Bytes_ellipsis hsub.1 hsub.2 (by omega), hzeros, ← hall, hbytes]

/-! ## The text of an address is parsed as the address -/

/-- The bytes that tell the kind of an address are all `c`. -/
theorem find_kind {s : Str} {c : UInt8} (hc : c ∈ s) (hk : isKindByte c = true)
    (h : ∀ b ∈ s, isKindByte b = true → b = c) : s.find? isKindByte = some c := by
  cases hf : s.find? isKindByte with
  | none => exact absurd hk (List.find?_eq_none.mp hf c hc)
  | some b => rw [h b (List.mem_of_find?_eq_some hf) (List.find?_some hf)]

theorem parseOctet_itoa : ∀ b : UInt8, parseOctet (itoa b.toNat) = some b :=
  forall_byte (by decide +kernel)

theorem parseIPv4Fields_format4 {p : List UInt8} (h : p.length = 4) :
    parseIPv4Fields (format4 p) = some p := by
  have hne : (p.map fun b => itoa b.toNat) ≠ [] := by
    intro hnil
    rw [List.map_eq_nil_iff.mp hnil] at h
    cases h
  have hdot : ∀ l ∈ p.map fun b => itoa b.toNat, 0x2E ∉ l := by
    intro l hl hm
    obtain ⟨b, -, rfl⟩ := List.mem_map.mp hl
    exact absurd ((denotes_itoa b.toNat).digits _ hm) (by decide)
  have hsplit : (format4 p).splitOn 0x2E = p.map fun b => itoa b.toNat := List.splitOn_intercalate 0x2E hdot hne
  have hmap : (p.map fun b => itoa b.toNat).mapM parseOctet = some p := by
    rw [mapM_eq_some_iff, List.map_map]
    exact List.map_congr_left fun b _ => parseOctet_itoa b
  simp only [parseIPv4Fields, hsplit, List.length_map, h, hmap, if_true]

/-- A dotted address is told by its dots. -/
theorem parseAddr_of_fields {s : Str} {p : List UInt8} (h : parseIPv4Fields s = some p) :
    parseAddr s = .v4 (BitVec.ofNat 32 (beVal p)) := by
  have hdot : 0x2E ∈ s := by
    by_contra hn
    rw [parseIPv4Fields, List.splitOn_eq_singleton hn] at h
    cases h
  have hkind : ∀ b ∈ s, isKindByte b = true → b = 0x2E := by
    have hdigit : ∀ b : UInt8, isDigit b = true → isKindByte b = false :=
      forall_byte (by decide +kernel)
    intro b hb hk
    rcases parseIPv4Fields_bytes h b hb with hd | hd
    · rw [hdigit b hd] at hk
      cases hk
    · exact hd
  rw [parseAddr_eq, find_kind hdot (by decide) hkind]
  show parseIPv4 s = _
  rw [parseIPv4, h]

theorem joinFields_bytes {gs : List Nat} (hlt : ∀ x ∈ gs, x < 65536) :
    ∀ b ∈ joinFields gs, (hexVal b).isSome = true ∨ b = colon := by
  induction gs with
  | nil => exact fun b hb => (nomatch hb)
  | cons x gs ih =>
    obtain ⟨hx, hgs⟩ := List.forall_mem_cons.mp hlt
    have hdigits := (fieldText_hex (k := 3) (by decide) hx).digits
    intro b hb
    by_cases hnil : gs = []
    · rw [hnil, joinFields_singleton] at hb
      exact .inl (hdigits b hb)
    · rw [joinFields_cons x hnil, List.mem_append, List.mem_cons] at hb
      rcases hb with hb | hb | hb
      · exact .inl (hdigits b hb)
      · exact .inr hb
      · exact ih hgs b hb

/-- The text of an IPv6 address has digits and colons. -/
theorem format6_bytes {ip : List UInt8} (h : ip.length = 16) :
    colon ∈ format6 ip ∧ ∀ b ∈ format6 ip, (hexVal b).isSome = true ∨ b = colon := by
  obtain ⟨hlen, hlt, -⟩ := fields16_spec (k := 8) h
  rw [format6]
  generalize fields16 ip = fs at hlen hlt
  simp only
  split_ifs
  · obtain ⟨x, gs, rfl⟩ := List.exists_cons_of_length_eq_add_one hlen
    have hne : gs ≠ [] := by
      rintro rfl
      cases hlen
    refine ⟨?_, joinFields_bytes hlt⟩
    rw [joinFields_cons x hne]
    exact List.mem_append_right _ (List.mem_cons_self ..)
  · refine ⟨List.mem_append_right _ (List.mem_cons_self ..), fun b hb => ?_⟩
    rw [List.mem_append, List.mem_cons, List.mem_cons] at hb
    rcases hb with hb | hb | hb | hb
    · exact joinFields_bytes (fun x hx => hlt x (List.mem_of_mem_take hx)) b hb
    · exact .inr hb
    · exact .inr hb
    · exact joinFields_bytes (fun x hx => hlt x (List.mem_of_mem_drop hx)) b hb

theorem parseAddr_format6 {ip : List UInt8} (h : ip.length = 16) :
    parseAddr (format6 ip) = .v6 (BitVec.ofNat 128 (beVal ip)) [] := by
  have hhex : ∀ b : UInt8, (hexVal b).isSome = true → isKindByte b = false :=
    forall_byte (by decide +kernel)
  obtain ⟨hcolon, hbytes⟩ := format6_bytes h
  have hkind : ∀ b ∈ format6 ip, isKindByte b = true → b = colon := by
    intro b hb hk
    rcases hbytes b hb with hd | hd
    · rw [hhex b hd] at hk
      cases hk
    · exact hd
  have hzone : cutFirst 0x25 (format6 ip) = none :=
    cutFirst_eq_none.mpr fun hm => absurd (hkind _ hm (by decide)) (by decide)
  rw [parseAddr_eq, find_kind hcolon (by decide) hkind]
  show parseIPv6 (format6 ip) = _
  rw [parseIPv6, hzone]
  simp only [parseIPv6Bytes_format6 h]

/-- `ParseIP` of what `String` prints is the address, in 16 bytes. -/
theorem parseIP_string {ip : IP} (h : ip.length = 4 ∨ ip.length = 16) :
    parseIP (IP.string ip) = if ip.length = 4 then v4InV6 ++ ip else ip := by
  have h4 : ∀ {p : IP}, p.length = 4 → parseIP (format4 p) = v4InV6 ++ p := by
    intro p hp
    rw [parseIP, parseAddr_of_fields (parseIPv4Fields_format4 hp)]
    show v4InV6 ++ beBytes 4 _ = _
    rw [toNat_ofNat_beVal (by rw [hp]), beBytes_beVal hp]
  rcases h with h | h
  · rw [IP.string, to4_of_length h, if_pos h]
    exact h4 h
  have hne : ip.length ≠ 4 := by rw [h]; decide
  rw [if_neg hne, IP.string]
  by_cases hm : Mapped ip
  · have hdrop : (ip.drop 12).length = 4 := by rw [List.length_drop, h]
    rw [to4_mapped hm]
    show parseIP (format4 (ip.drop 12)) = ip
    rw [h4 hdrop, ← hm.2, List.take_append_drop]
  · rw [to4_of_not_mapped hne hm]
    show parseIP (format6 ip) = ip
    rw [parseIP, parseAddr_format6 h]
    show beBytes 16 _ = ip
    rw [toNat_ofNat_beVal (by rw [h]), beBytes_beVal h]

theorem string_bytes {ip : IP} (h : ip.length = 4 ∨ ip.length = 16) :
    ∀ b ∈ IP.string ip, AddrByte b := by
  have h4 : ∀ {p : IP}, p.length = 4 → ∀ b ∈ format4 p, AddrByte b := fun hp b hb =>
    addrByte_of_digit (parseIPv4Fields_bytes (parseIPv4Fields_format4 hp) b hb)
  rw [IP.string]
  rcases h with h | h
  · rw [to4_of_length h]
    exact h4 h
  · by_cases hm : Mapped ip
    · rw [to4_mapped hm]
      exact h4 (by rw [List.length_drop, h])
    · rw [to4_of_not_mapped (by rw [h]; decide) hm]
      intro b hb
      rcases (format6_bytes h).2 b hb with hx | hx
      · exact .inl hx
      · exact .inr (.inr hx)

theorem parseIP_ne_nil {s : Str} (h : parseIP s ≠ []) :
    (∃ a, parseAddr s = .v4 a) ∨ ∃ a, parseAddr s = .v6 a [] := by
  rw [parseIP] at h
  split at h
  · exact absurd rfl h
  · exact absurd rfl h
  · rename_i hne hz
    cases hp : parseAddr s with
    | none => exact absurd hp hne
    | v4 a => exact .inl ⟨a, rfl⟩
    | v6 a zone =>
      cases zone with
      | nil => exact .inr ⟨a, rfl⟩
      | cons b zone => exact absurd hp (hz a b zone)

/-- `ParseIP` reads no address with a zone. -/
theorem parseIP_of_percent {s : Str} (h : 0x25 ∈ s) : parseIP s = [] := by
  by_contra hne
  exact absurd (parseAddr_bytes (parseIP_ne_nil hne) _ h) (by decide)

end SP.Proof
