import SpnegoProxy.Proof.Go.Http
import SpnegoProxy.Proof.Go.Netip
import SpnegoProxy.Proof.Go.Strconv

/-!
# ASCII letter case

`foldCase` puts the ASCII letters of a string in lower case and changes
nothing else. An ASCII byte is a character of its own, so folding commutes with
cutting a string into characters, fields and parts; `toLower` does not see it,
and `net/netip` sees it in the zone of an address only (`parseAddr_foldCase`).
-/

namespace SP.Go

open SP.Proof

theorem foldCase_idem (s : Str) : foldCase (foldCase s) = foldCase s := by
  rw [foldCase, foldCase, List.map_map]
  exact List.map_congr_left fun b _ => (lowerByte_fold b).2.1

/-! ## Characters -/

theorem lowerByte_lt : ∀ b : UInt8, lowerByte b < 0x80 ↔ b < 0x80 := forall_byte (by decide +kernel)

theorem lowerByte_wide {b : UInt8} (h : ¬ b < 0x80) : lowerByte b = b :=
  forall_byte (P := fun b => ¬ b < 0x80 → lowerByte b = b) (by decide +kernel) b h

theorem isCont_lowerByte : ∀ b : UInt8, isCont (lowerByte b) = isCont b :=
  forall_byte (by decide +kernel)

/-- The lower case of an ASCII character. -/
def foldRune (r : Nat) : Nat := if r < 0x80 then (lowerByte r.toUInt8).toNat else r

/-- Only the first range of letters has ASCII letters. -/
theorem toLowerRune_ascii {r : Nat} (h : r < 0x80) :
    toLowerRune r = if 0x41 ≤ r ∧ r ≤ 0x5A then r + 32 else r := by
  have hrest : ∀ e ∈ caseRanges.tail, 0x80 ≤ e.lo := by decide +kernel
  have hnone : caseRanges.tail.find? (·.has r) = none := by
    refine List.find?_eq_none.mpr fun e he hr => ?_
    have hlo := hrest e he
    simp only [CaseRange.has, Bool.and_eq_true, decide_eq_true_eq] at hr
    omega
  have hfirst : CaseRange.has ⟨0x41, 0x5A, 1, 32⟩ r = decide (0x41 ≤ r ∧ r ≤ 0x5A) := by
    simp [CaseRange.has, Nat.mod_one]
  rw [toLowerRune,
    show caseRanges = ⟨0x41, 0x5A, 1,
      32⟩ :: caseRanges.tail from rfl, List.find?_cons, hfirst, hnone]
  by_cases hr : 0x41 ≤ r ∧ r ≤ 0x5A
  · rw [decide_eq_true hr, if_pos hr]
    rfl
  · rw [decide_eq_false hr, if_neg hr]

theorem toLowerRune_foldRune (r : Nat) : toLowerRune (foldRune r) = toLowerRune r := by
  have h : ∀ r < 0x80, foldRune r < 0x80 ∧
    (if 0x41 ≤ foldRune r ∧ foldRune r ≤ 0x5A then foldRune r + 32 else foldRune r) =
      if 0x41 ≤ r ∧ r ≤ 0x5A then r + 32 else r := by decide +kernel
  by_cases hr : r < 0x80
  · rw [toLowerRune_ascii (h r hr).1, toLowerRune_ascii hr, (h r hr).2]
  · rw [foldRune, if_neg hr]

theorem isSpace_foldRune (r : Nat) : isSpace (foldRune r) = isSpace r := by
  have h : ∀ r < 0x80, isSpace (foldRune r) = isSpace r := by decide +kernel
  by_cases hr : r < 0x80
  · exact h r hr
  · rw [foldRune, if_neg hr]

theorem decode2_foldCase (a : UInt8) (s : Str) : decode2 a (foldCase s) = decode2 a s := by
  cases s with
  | nil => rfl
  | cons b s =>
    by_cases hb : isCont b = true
    · simp only [foldCase, List.map_cons, decode2, lowerByte_wide (isCont_wide hb)]
    · simp [foldCase, decode2, valid2, isCont_lowerByte, hb]

theorem decode3_foldCase (a : UInt8) (s : Str) : decode3 a (foldCase s) = decode3 a s := by
  rcases s with _ | ⟨b, _ | ⟨c, s⟩⟩
  · rfl
  · rfl
  · by_cases h : isCont b = true ∧ isCont c = true
    · simp only [foldCase, List.map_cons, decode3, lowerByte_wide (isCont_wide h.1),
      lowerByte_wide (isCont_wide h.2)]
    · have hv : valid3 a (lowerByte b) (lowerByte c) = false ∧ valid3 a b c = false := by
        simp only [valid3, isCont_lowerByte]
        rcases not_and_or.mp h with h | h <;> simp [h]
      simp [foldCase, decode3, hv]

theorem decode4_foldCase (a : UInt8) (s : Str) : decode4 a (foldCase s) = decode4 a s := by
  rcases s with _ | ⟨b, _ | ⟨c, _ | ⟨d, s⟩⟩⟩
  · rfl
  · rfl
  · rfl
  · by_cases h : isCont b = true ∧ isCont c = true ∧ isCont d = true
    · simp only [foldCase, List.map_cons, decode4, lowerByte_wide (isCont_wide h.1),
      lowerByte_wide (isCont_wide h.2.1),
        lowerByte_wide (isCont_wide h.2.2)]
    · have hv : valid4 a (lowerByte b) (lowerByte c) (lowerByte d) = false ∧
      valid4 a b c d = false := by
        simp only [valid4, isCont_lowerByte]
        rcases not_and_or.mp h with h | h
        · simp [h]
        · rcases not_and_or.mp h with h | h <;> simp [h]
      simp [foldCase, decode4, hv]

/-- A character and its bytes, folded. -/
def foldPair (x : Nat × Str) : Nat × Str := (foldRune x.1, foldCase x.2)

theorem decodeRune_foldCase (a : UInt8) (s : Str) :
    decodeRune (lowerByte a) (foldCase s) = foldPair (decodeRune a s) := by
  by_cases ha : a < 0x80
  · have hn : a.toNat < 0x80 := UInt8.lt_iff_toNat_lt.mp ha
    rw [decodeRune, if_pos ((lowerByte_lt a).mpr ha), decodeRune, if_pos ha, foldPair, foldRune,
      if_pos hn]
    simp [foldCase]
  · obtain ⟨hr, hb⟩ := (decodeRune_ok a s).wide ha
    have hbytes : foldCase (decodeRune a s).2 = (decodeRune a s).2 :=
      (List.map_congr_left fun b hm => lowerByte_wide (hb b hm)).trans (List.map_id _)
    have hsame : decodeRune a (foldCase s) = decodeRune a s := by
      simp only [decodeRune, decode2_foldCase, decode3_foldCase, decode4_foldCase]
    rw [foldPair, hbytes, foldRune, if_neg (Nat.not_lt.mpr hr), lowerByte_wide ha, hsame]

theorem runesFrom_foldCase (k : Nat) (s : Str) :
    runesFrom k (foldCase s) = (runesFrom k s).map foldPair := by
  induction s generalizing k with
  | nil => cases k <;> rfl
  | cons a s ih =>
    cases k with
    | zero =>
      have hlen : (foldPair (decodeRune a s)).2.length = (decodeRune a s).2.length :=
        List.length_map _
      show decodeRune (lowerByte a) (foldCase s) :: runesFrom ((decodeRune (lowerByte a) (foldCase s)).2.length - 1)
        (foldCase s) = _
      rw [decodeRune_foldCase, hlen, ih]
      rfl
    | succ k => exact ih k

theorem runes_foldCase (s : Str) : runes (foldCase s) = (runes s).map foldPair :=
  runesFrom_foldCase 0 s

/-- Lower case does not depend on the case of the letters. -/
theorem toLower_foldCase (s : Str) : toLower (foldCase s) = toLower s := by
  rw [toLower, runes_foldCase, List.flatMap_map]
  simp only [foldPair, toLowerRune_foldRune]
  rfl

/-- The lower-case column has no capital ASCII letter. -/
theorem toLowerRune_ne_upper (r : Nat) : ¬ (0x41 ≤ toLowerRune r ∧ toLowerRune r ≤ 0x5A) := by
  have hranges : ∀ e ∈ caseRanges,
    ¬ ((e.lo : Int) + e.delta ≤ 0x5A ∧ 0x41 ≤ (e.hi : Int) + e.delta) := by decide +kernel
  rw [toLowerRune]
  cases h : caseRanges.find? (·.has r) with
  | none =>
    rintro ⟨h₁, h₂⟩
    have hfirst := List.find?_eq_none.mp h ⟨0x41, 0x5A, 1, 32⟩ (List.mem_cons_self ..)
    exact hfirst (by simp [CaseRange.has, h₁, h₂, Nat.mod_one])
  | some e =>
    have hr := List.find?_some h
    simp only [CaseRange.has, Bool.and_eq_true, decide_eq_true_eq] at hr
    rintro ⟨h₁, h₂⟩
    have h₁ : 0x41 ≤ ((r : Int) + e.delta).toNat := h₁
    have h₂ : ((r : Int) + e.delta).toNat ≤ 0x5A := h₂
    exact hranges e (List.mem_of_find?_eq_some h) ⟨by omega, by omega⟩

theorem foldCase_toLower (s : Str) : foldCase (toLower s) = toLower s := by
  refine (List.map_congr_left fun b hb => ?_).trans (List.map_id _)
  rw [lowerByte]
  split_ifs with hup
  · obtain ⟨x, -, hx⟩ := List.mem_flatMap.mp hb
    have h₁ : 0x41 ≤ b.toNat := UInt8.le_iff_toNat_le.mp hup.1
    have h₂ : b.toNat ≤ 0x5A := UInt8.le_iff_toNat_le.mp hup.2
    have hx := (mem_encodeRune (UInt8.lt_iff_toNat_lt.mpr (Nat.lt_of_le_of_lt h₂ (by decide))) _).mp hx
    exact absurd ⟨hx ▸ h₁, hx ▸ h₂⟩ (toLowerRune_ne_upper x.1)
  · rfl

theorem trimSpace_foldCase (s : Str) : trimSpace (foldCase s) = foldCase (trimSpace s) := by
  have hp : (fun x : Nat × Str => isSpace x.1) ∘ foldPair = fun x => isSpace x.1 :=
    funext fun x => isSpace_foldRune x.1
  rw [trimSpace, runes_foldCase]
  simp only [List.dropWhile_map, hp, ← List.map_reverse, List.flatMap_map]
  rw [foldCase, trimSpace, List.map_flatMap]
  rfl

/-! ## Cutting -/

/-- A byte that is no ASCII letter. -/
def Caseless (c : UInt8) : Prop := lowerByte c = c ∧ upperByte c = c

instance (c : UInt8) : Decidable (Caseless c) := inferInstanceAs (Decidable (_ ∧ _))

theorem Caseless.lowerByte_iff {c : UInt8} (hc : Caseless c) (b : UInt8) :
    lowerByte b = c ↔ b = c := by
  have hb : b = lowerByte b ∨ b = upperByte b :=
    forall_byte (P := fun b => b = lowerByte b ∨ b = upperByte b) (by decide +kernel) b
  constructor
  · intro h
    rcases hb with hb | hb
    · rw [hb, h]
    · rw [hb, ← (lowerByte_fold b).1, h, hc.2]
  · rintro rfl
    exact hc.1

theorem foldCase_eq_iff {t : Str} (ht : ∀ c ∈ t, Caseless c) {s : Str} : foldCase s = t ↔ s = t := by
  induction s generalizing t with
  | nil => cases t <;> simp [foldCase]
  | cons b s ih =>
    cases t with
    | nil => simp [foldCase]
    | cons c t =>
      rw [foldCase, List.map_cons, List.cons_eq_cons, List.cons_eq_cons,
        (ht c (List.mem_cons_self ..)).lowerByte_iff,
        ← foldCase, ih fun c hc => ht c (List.mem_cons_of_mem _ hc)]

theorem eq_append_of_foldCase {t : Str} (ht : ∀ c ∈ t, Caseless c) {s u : Str}
    (h : foldCase s = t ++ u) : ∃ v, s = t ++ v := by
  obtain ⟨t', v, rfl, ht', -⟩ := List.map_eq_append_iff.mp h
  exact ⟨v, by rw [(foldCase_eq_iff ht).mp ht']⟩

theorem Caseless.fold : ∀ b : UInt8, Caseless (lowerByte b) ↔ Caseless b :=
  forall_byte (by decide +kernel)

section

variable {c : UInt8} (hc : Caseless c) (s : Str)

include hc

theorem head_foldCase : (foldCase s).head? = some c ↔ s.head? = some c := by
  cases s with
  | nil => rfl
  | cons b s => simp [foldCase, hc.lowerByte_iff]

theorem mem_foldCase : c ∈ foldCase s ↔ c ∈ s := by
  simp [foldCase, hc.lowerByte_iff]

theorem foldCase_append (t : Str) : foldCase (s ++ c :: t) = foldCase s ++ c :: foldCase t := by
  rw [foldCase, List.map_append, List.map_cons, hc.1]
  rfl

theorem cutFirst_foldCase :
    cutFirst c (foldCase s) = (cutFirst c s).map (Prod.map foldCase foldCase) :=
  cutFirst_comm (foldCase_append hc) (mem_foldCase hc) s

theorem cutLast_foldCase :
    cutLast c (foldCase s) = (cutLast c s).map (Prod.map foldCase foldCase) :=
  cutLast_comm (foldCase_append hc) (mem_foldCase hc) s

theorem splitOn_foldCase : (foldCase s).splitOn c = (s.splitOn c).map foldCase :=
  splitOn_map hc.lowerByte_iff s

end

/-! ## Numbers and addresses -/

theorem isDigit_lowerByte : ∀ b : UInt8, isDigit (lowerByte b) = isDigit b :=
  forall_byte (by decide +kernel)

theorem lowerByte_of_isDigit {b : UInt8} (h : isDigit b = true) : lowerByte b = b :=
  forall_byte (P := fun b => isDigit b = true → lowerByte b = b) (by decide +kernel) b h

theorem hexVal_lowerByte : ∀ b : UInt8, hexVal (lowerByte b) = hexVal b :=
  forall_byte (by decide +kernel)

theorem parseDigits_foldCase (s : Str) : parseDigits (foldCase s) = parseDigits s := by
  have hall : (foldCase s).all isDigit = s.all isDigit := by
    rw [foldCase, List.all_map]
    exact List.all_congr rfl isDigit_lowerByte
  by_cases hd : s.all isDigit = true
  · have hs : foldCase s = s :=
      (List.map_congr_left fun b hb => lowerByte_of_isDigit (List.all_eq_true.mp hd b hb)).trans (List.map_id _)
    rw [hs]
  · rw [parseDigits, hall, if_neg fun h => hd h.2, parseDigits, if_neg fun h => hd h.2]

theorem atoi_foldCase (s : Str) : atoi (foldCase s) = atoi s := by
  cases s with
  | nil => rfl
  | cons b t =>
    have hminus : lowerByte b = 0x2D ↔ b = 0x2D := Caseless.lowerByte_iff (by decide) b
    have hplus : lowerByte b = 0x2B ↔ b = 0x2B := Caseless.lowerByte_iff (by decide) b
    have hfold : foldCase (b :: t) = lowerByte b :: foldCase t := rfl
    by_cases h₁ : b = 0x2D
    · rw [hfold, hminus.mpr h₁, h₁, atoi, parseDigits_foldCase]
      rfl
    by_cases h₂ : b = 0x2B
    · rw [hfold, hplus.mpr h₂, h₂, atoi, parseDigits_foldCase]
      rfl
    · rw [hfold, atoi_unsigned (mt hminus.mp h₁) (mt hplus.mp h₂),
      ← hfold, parseDigits_foldCase, atoi_unsigned h₁ h₂]

theorem parseOctet_foldCase (s : Str) : parseOctet (foldCase s) = parseOctet s := by
  have hlen : (foldCase s).length = s.length := List.length_map _
  simp only [parseOctet, parseDigits_foldCase, hlen, Ne, head_foldCase (c := 0x30) (by decide)]

theorem parseIPv4Fields_foldCase (s : Str) : parseIPv4Fields (foldCase s) = parseIPv4Fields s := by
  have hf : parseOctet ∘ foldCase = parseOctet := funext parseOctet_foldCase
  simp only [parseIPv4Fields,
    splitOn_foldCase (c := 0x2E) (by decide), List.length_map, List.mapM_map, hf]

theorem parseIPv6Fields_foldCase (n : Nat) (ip : List UInt8) (e : Option Nat) (s : Str) :
    parseIPv6Fields n ip e (foldCase s) = (parseIPv6Fields n ip e s).map fun x => (x.1, x.2.1, foldCase x.2.2) := by
  induction n generalizing ip e s with
  | zero => rfl
  | succ n ih =>
    have hp : (fun b => (hexVal b).isSome) ∘ lowerByte = fun b => (hexVal b).isSome :=
      funext fun b => by simp only [Function.comp_apply, hexVal_lowerByte]
    have htake : (foldCase s).takeWhile (fun b => (hexVal b).isSome) = foldCase (s.takeWhile fun b => (hexVal b).isSome) := by
      rw [foldCase, List.takeWhile_map, hp]
      rfl
    have hdrop : (foldCase s).dropWhile (fun b => (hexVal b).isSome) = foldCase (s.dropWhile fun b => (hexVal b).isSome) := by
      rw [foldCase, List.dropWhile_map, hp]
      rfl
    simp only [parseIPv6Fields, htake, hdrop, parseIPv4Fields_foldCase]
    generalize s.takeWhile (fun b => (hexVal b).isSome) = digits
    generalize s.dropWhile (fun b => (hexVal b).isSome) = rest
    have hnil : ∀ s : Str, foldCase s = [] ↔ s = [] := fun s => List.map_eq_nil_iff
    have hlen : (foldCase digits).length = digits.length := List.length_map _
    have hacc : (foldCase digits).foldl (fun n b => n * 16 + (hexVal b).getD 0) 0 =
        digits.foldl (fun n b => n * 16 + (hexVal b).getD 0) 0 := by
      rw [foldCase, List.foldl_map]
      simp only [hexVal_lowerByte]
    simp only [hnil, hlen, hacc, head_foldCase (c := 0x2E) (by decide)]
    split
    · rfl
    split
    · split
      · rfl
      · rw [Option.map_map]
        rfl
    cases rest with
    | nil => rfl
    | cons b t =>
      have hb : lowerByte b = colon ↔ b = colon := Caseless.lowerByte_iff (by decide) b
      have htail : (foldCase t).tail = foldCase t.tail := List.map_tail.symm
      have hfold : foldCase (b :: t) = lowerByte b :: foldCase t := rfl
      simp only [hfold, Ne, hb, head_foldCase (c := colon) (by decide), htail, hnil, ih]
      split_ifs <;> rfl

theorem parseIPv6Bytes_foldCase (s : Str) : parseIPv6Bytes (foldCase s) = parseIPv6Bytes s := by
  have htake : (foldCase s).take 2 = [colon, colon] ↔ s.take 2 = [colon, colon] := by
    rw [foldCase, ← List.map_take, ← foldCase, foldCase_eq_iff (by decide +kernel)]
  have hdrop : (foldCase s).drop 2 = foldCase (s.drop 2) := List.map_drop.symm
  have hnil : foldCase (s.drop 2) = [] ↔ s.drop 2 = [] := List.map_eq_nil_iff
  simp only [parseIPv6Bytes, htake, hdrop, hnil, parseIPv6Fields_foldCase]
  split_ifs
  · rfl
  · rcases parseIPv6Fields 8 [] (some 0) (s.drop 2) with _ | ⟨ip, e, _ | ⟨b, t⟩⟩ <;> rfl
  · rcases parseIPv6Fields 8 [] none s with _ | ⟨ip, e, _ | ⟨b, t⟩⟩ <;> rfl

/-- An address with its zone folded. -/
def Addr.foldZone : Addr → Addr
  | .v6 a zone => .v6 a (foldCase zone)
  | ip => ip

theorem parseIPv6_foldCase (s : Str) : parseIPv6 (foldCase s) = (parseIPv6 s).foldZone := by
  rw [parseIPv6, parseIPv6, cutFirst_foldCase (by decide)]
  rcases cutFirst 0x25 s with _ | ⟨a, _ | ⟨z, zone⟩⟩
  · simp only [Option.map_none, parseIPv6Bytes_foldCase]
    cases parseIPv6Bytes s <;> rfl
  · rfl
  · have hz : foldCase (z :: zone) = lowerByte z :: foldCase zone := rfl
    simp only [Option.map_some, Prod.map, hz, parseIPv6Bytes_foldCase]
    cases parseIPv6Bytes a <;> rfl

theorem parseIPv4_foldCase (s : Str) : parseIPv4 (foldCase s) = (parseIPv4 s).foldZone := by
  rw [parseIPv4, parseIPv4, parseIPv4Fields_foldCase]
  cases parseIPv4Fields s <;> rfl

/-- The letter case of an address is kept in its zone only. -/
theorem parseAddr_foldCase (s : Str) : parseAddr (foldCase s) = (parseAddr s).foldZone := by
  have hk : isKindByte ∘ lowerByte = isKindByte := funext (forall_byte (by decide +kernel))
  have hfind : (foldCase s).find? isKindByte = (s.find? isKindByte).map lowerByte := by
    rw [foldCase, List.find?_map, hk]
  rw [parseAddr_eq, parseAddr_eq, hfind]
  cases s.find? isKindByte with
  | none => rfl
  | some b =>
    simp only [Option.map_some,
      Caseless.lowerByte_iff (c := 0x2E) (by decide), Caseless.lowerByte_iff (c := colon) (by decide),
      parseIPv4_foldCase, parseIPv6_foldCase]
    split_ifs <;> rfl

theorem parsePrefix_foldCase (s : Str) : parsePrefix (foldCase s) = parsePrefix s := by
  have hlen : ∀ s : Str, (foldCase s).length = s.length := fun s => List.length_map _
  have hdig : ∀ b : UInt8, (0x31 ≤ lowerByte b ∧ lowerByte b ≤ 0x39) ↔ (0x31 ≤ b ∧ b ≤ 0x39) :=
    forall_byte (by decide +kernel)
  have hhead : ∀ s : Str, ((foldCase s).head?.any fun c => decide (0x31 ≤ c ∧ c ≤ 0x39)) =
      s.head?.any fun c => decide (0x31 ≤ c ∧ c ≤ 0x39) := by
    intro s
    cases s with
    | nil => rfl
    | cons b s => simp only [foldCase, List.map_cons, List.head?_cons, Option.any_some, hdig]
  rw [parsePrefix, parsePrefix, cutLast_foldCase (by decide)]
  rcases cutLast 0x2F s with _ | ⟨a, b⟩
  · rfl
  simp only [Option.map_some, Prod.map, hlen, hhead, parseAddr_foldCase, atoi_foldCase]
  split
  · rfl
  rcases parseAddr a with _ | ip | ⟨ip, _ | ⟨z, zone⟩⟩ <;> rfl

end SP.Go
