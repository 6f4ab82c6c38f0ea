import SpnegoProxy.Impl.Go.Strings
import Mathlib.Data.List.TakeWhile

/-!
# Characters and ASCII delimiters

An ASCII byte is a character of its own wherever it stands in a string, so
that cutting a string at one and decoding it can be done in either order
(`runes_append`). `strings.ToLower` keeps `:`, `[` and `]`, and makes none of
them from another character (`toLower_append`, `mem_toLower`): it commutes
with cutting at them (`cutFirst_toLower`, `cutLast_toLower`).
-/

namespace SP.Go

/-! ## Decoding -/

/-- What is decided for each of the 256 bytes. -/
theorem forall_byte {P : UInt8 → Prop} (h : ∀ i : Fin 256, P (UInt8.ofFin i)) (b : UInt8) : P b :=
  h b.toFin

theorem isCont_ascii {c : UInt8} (hc : c < 0x80) : isCont c = false := by
  have h : ¬ (0x80 : UInt8) ≤ c := UInt8.not_le.mpr hc
  simp [isCont, h]

/-- The first character ends before an ASCII byte that follows. -/
theorem decodeRune_append {c : UInt8} (hc : c < 0x80) (a : UInt8) (s t : Str) :
    decodeRune a (s ++ c :: t) = decodeRune a s := by
  have h := isCont_ascii hc
  have h₂ : decode2 a (s ++ c :: t) = decode2 a s := by
    cases s <;> simp [decode2, valid2, h]
  have h₃ : decode3 a (s ++ c :: t) = decode3 a s := by
    rcases s with _ | ⟨b, _ | ⟨b', s⟩⟩
    · cases t <;> simp [decode3, valid3, h]
    · simp [decode3, valid3, h]
    · simp [decode3]
  have h₄ : decode4 a (s ++ c :: t) = decode4 a s := by
    rcases s with _ | ⟨b, _ | ⟨b', _ | ⟨b'', s⟩⟩⟩
    · rcases t with _ | ⟨d, _ | ⟨d', t⟩⟩ <;> simp [decode4, valid4, h]
    · cases t <;> simp [decode4, valid4, h]
    · simp [decode4, valid4, h]
    · simp [decode4]
  simp only [decodeRune, h₂, h₃, h₄]

/-- The first character `x` of `a :: s`: its bytes are a beginning of the
string, and none of them is ASCII unless the character is. -/
structure Decoded (a : UInt8) (s : Str) (x : Nat × Str) : Prop where
  bytes : x.2 = a :: s.take (x.2.length - 1)
  ascii : a < 0x80 → x = (a.toNat, [a])
  wide : ¬ a < 0x80 → 0x80 ≤ x.1 ∧ ∀ b ∈ x.2, ¬ b < 0x80

theorem isCont_wide {b : UInt8} (h : isCont b = true) : ¬ b < 0x80 := by
  simp only [isCont, Bool.and_eq_true, decide_eq_true_eq] at h
  exact UInt8.not_lt.mpr h.1

theorem decode2_ok {a : UInt8} {s : Str} {x : Nat × Str} (ha : ¬ a < 0x80)
    (h : decode2 a s = some x) : Decoded a s x := by
  rcases s with _ | ⟨b, s⟩
  · cases h
  · simp only [decode2] at h
    split_ifs at h with hv
    cases h
    simp only [valid2, Bool.and_eq_true, decide_eq_true_eq] at hv
    refine ⟨rfl, fun hn => absurd hn ha, fun _ => ⟨?_, ?_⟩⟩
    · have h₁ : 0xC2 ≤ a.toNat := UInt8.le_iff_toNat_le.mp hv.1.1
      have h₂ : a.toNat ≤ 0xDF := UInt8.le_iff_toNat_le.mp hv.1.2
      omega
    · simpa using ⟨UInt8.not_lt.mp ha, UInt8.not_lt.mp (isCont_wide hv.2)⟩

theorem decode3_ok {a : UInt8} {s : Str} {x : Nat × Str} (ha : ¬ a < 0x80)
    (h : decode3 a s = some x) : Decoded a s x := by
  rcases s with _ | ⟨b, _ | ⟨c, s⟩⟩
  · cases h
  · cases h
  · simp only [decode3] at h
    split_ifs at h with hv
    cases h
    simp only [valid3, Bool.and_eq_true, Bool.or_eq_true, bne_iff_ne, decide_eq_true_eq] at hv
    obtain ⟨⟨⟨⟨⟨h₁, h₂⟩, hb⟩, hc⟩, h₃⟩, -⟩ := hv
    refine ⟨rfl, fun hn => absurd hn ha, fun _ => ⟨?_, ?_⟩⟩
    · have h₁ : 0xE0 ≤ a.toNat := UInt8.le_iff_toNat_le.mp h₁
      have h₂ : a.toNat ≤ 0xEF := UInt8.le_iff_toNat_le.mp h₂
      simp only [isCont, Bool.and_eq_true, decide_eq_true_eq] at hb
      have hb' : b.toNat ≤ 0xBF := UInt8.le_iff_toNat_le.mp hb.2
      -- an overlong form would be of a character below `0x800`
      rcases h₃ with h₃ | h₃
      · have h₃ : a.toNat ≠ 0xE0 := fun he => h₃ (UInt8.toNat_inj.mp he)
        omega
      · have h₃ : 0xA0 ≤ b.toNat := UInt8.le_iff_toNat_le.mp h₃
        simp only [low6]
        omega
    · simpa using ⟨UInt8.not_lt.mp ha, UInt8.not_lt.mp (isCont_wide hb),
      UInt8.not_lt.mp (isCont_wide hc)⟩

theorem decode4_ok {a : UInt8} {s : Str} {x : Nat × Str} (ha : ¬ a < 0x80)
    (h : decode4 a s = some x) : Decoded a s x := by
  rcases s with _ | ⟨b, _ | ⟨c, _ | ⟨d, s⟩⟩⟩
  · cases h
  · cases h
  · cases h
  · simp only [decode4] at h
    split_ifs at h with hv
    cases h
    simp only [valid4, Bool.and_eq_true, Bool.or_eq_true, bne_iff_ne, decide_eq_true_eq] at hv
    obtain ⟨⟨⟨⟨⟨⟨h₁, h₂⟩, hb⟩, hc⟩, hd⟩, h₃⟩, -⟩ := hv
    refine ⟨rfl, fun hn => absurd hn ha, fun _ => ⟨?_, ?_⟩⟩
    · have h₁ : 0xF0 ≤ a.toNat := UInt8.le_iff_toNat_le.mp h₁
      have h₂ : a.toNat ≤ 0xF4 := UInt8.le_iff_toNat_le.mp h₂
      simp only [isCont, Bool.and_eq_true, decide_eq_true_eq] at hb
      have hb' : b.toNat ≤ 0xBF := UInt8.le_iff_toNat_le.mp hb.2
      rcases h₃ with h₃ | h₃
      · have h₃ : a.toNat ≠ 0xF0 := fun he => h₃ (UInt8.toNat_inj.mp he)
        omega
      · have h₃ : 0x90 ≤ b.toNat := UInt8.le_iff_toNat_le.mp h₃
        simp only [low6]
        omega
    · simpa using ⟨UInt8.not_lt.mp ha, UInt8.not_lt.mp (isCont_wide hb),
        UInt8.not_lt.mp (isCont_wide hc), UInt8.not_lt.mp (isCont_wide hd)⟩

theorem decodeRune_ok (a : UInt8) (s : Str) : Decoded a s (decodeRune a s) := by
  by_cases ha : a < 0x80
  · rw [decodeRune, if_pos ha]
    exact ⟨by simp, fun _ => rfl, fun hn => absurd ha hn⟩
  · rw [decodeRune, if_neg ha]
    cases h₂ : decode2 a s with
    | some x => exact decode2_ok ha h₂
    | none =>
      cases h₃ : decode3 a s with
      | some x => exact decode3_ok ha h₃
      | none =>
        cases h₄ : decode4 a s with
        | some x => exact decode4_ok ha h₄
        | none =>
          refine ⟨by simp, fun hn => absurd hn ha, fun _ => ⟨show 0x80 ≤ runeError by decide, ?_⟩⟩
          simpa using UInt8.not_lt.mp ha

theorem decodeRune_length (a : UInt8) (s : Str) : (decodeRune a s).2.length - 1 ≤ s.length := by
  have h := congrArg List.length (decodeRune_ok a s).bytes
  simp only [List.length_cons, List.length_take] at h
  omega

theorem runesFrom_append {c : UInt8} (hc : c < 0x80) (s t : Str) {k : Nat} (hk : k ≤ s.length) :
    runesFrom k (s ++ c :: t) = runesFrom k s ++ (c.toNat, [c]) :: runes t := by
  induction s generalizing k with
  | nil =>
    have hk : k = 0 := by simpa using hk
    rw [hk]
    show decodeRune c t :: runesFrom ((decodeRune c t).2.length - 1) t = _
    rw [(decodeRune_ok c t).ascii hc]
    rfl
  | cons a s ih =>
    cases k with
    | zero =>
      rw [List.cons_append, runesFrom, decodeRune_append hc, ih (decodeRune_length a s)]
      rfl
    | succ k => exact ih (Nat.le_of_succ_le_succ hk)

/-- Decoding the parts around an ASCII byte. -/
theorem runes_append {c : UInt8} (hc : c < 0x80) (s t : Str) :
    runes (s ++ c :: t) = runes s ++ (c.toNat, [c]) :: runes t :=
  runesFrom_append hc s t (Nat.zero_le _)

/-- The characters of an ASCII string are its bytes. -/
theorem runes_ascii {s : Str} (h : ∀ b ∈ s, b < 0x80) :
    runes s = s.map fun b => (b.toNat, [b]) := by
  induction s with
  | nil => rfl
  | cons b s ih =>
    obtain ⟨hb, hs⟩ := List.forall_mem_cons.mp h
    have hrunes : runes (b :: s) = (b.toNat, [b]) :: runes s := runes_append hb [] s
    rw [hrunes, ih hs, List.map_cons]

theorem runesFrom_bytes (k : Nat) (s : Str) : (runesFrom k s).flatMap Prod.snd = s.drop k := by
  induction s generalizing k with
  | nil => simp [runesFrom]
  | cons a s ih =>
    cases k with
    | zero =>
      rw [runesFrom, List.flatMap_cons, ih, List.drop_zero]
      nth_rewrite 1 [(decodeRune_ok a s).bytes]
      rw [List.cons_append, List.take_append_drop]
    | succ k => rw [runesFrom, ih, List.drop_succ_cons]

/-- The bytes of the characters are those of the string. -/
theorem runes_bytes (s : Str) : (runes s).flatMap Prod.snd = s := runesFrom_bytes 0 s

section

variable {a : UInt8} {t u : Str} {x : Nat × Str}

theorem decode2_append :
    decode2 a t = some x ↔ decode2 a (t ++ u) = some x ∧ x.2.length - 1 ≤ t.length := by
  rcases t with _ | ⟨b, t⟩
  · refine ⟨fun h => (nomatch h), fun ⟨h, hl⟩ => ?_⟩
    rcases u with _ | ⟨b, u⟩
    · cases h
    · simp only [List.nil_append, decode2] at h
      split_ifs at h
      cases h
      simp at hl
  · simp only [List.cons_append, decode2]
    refine ⟨fun h => ⟨h, ?_⟩, fun h => h.1⟩
    split_ifs at h
    cases h
    simp

theorem decode3_append :
    decode3 a t = some x ↔ decode3 a (t ++ u) = some x ∧ x.2.length - 1 ≤ t.length := by
  by_cases ht : 2 ≤ t.length
  · obtain ⟨b, c, t, rfl⟩ : ∃ b c t', t = b :: c :: t' := by
      rcases t with _ | ⟨b, _ | ⟨c, t⟩⟩ <;> simp at ht ⊢
    simp only [List.cons_append, decode3]
    refine ⟨fun h => ⟨h, ?_⟩, fun h => h.1⟩
    split_ifs at h
    cases h
    simp
  · have hn : decode3 a t = none := by
      rcases t with _ | ⟨b, _ | ⟨c, t⟩⟩ <;> first | rfl | simp at ht
    rw [hn]
    refine ⟨fun h => (nomatch h), fun ⟨h, hl⟩ => ?_⟩
    rcases hs : t ++ u with _ | ⟨b, _ | ⟨c, s⟩⟩ <;> rw [hs] at h
    · cases h
    · cases h
    · simp only [decode3] at h
      split_ifs at h
      cases h
      exact absurd hl ht

theorem decode4_append :
    decode4 a t = some x ↔ decode4 a (t ++ u) = some x ∧ x.2.length - 1 ≤ t.length := by
  by_cases ht : 3 ≤ t.length
  · obtain ⟨b, c, d, t, rfl⟩ : ∃ b c d t', t = b :: c :: d :: t' := by
      rcases t with _ | ⟨b, _ | ⟨c, _ | ⟨d, t⟩⟩⟩ <;> simp at ht ⊢
    simp only [List.cons_append, decode4]
    refine ⟨fun h => ⟨h, ?_⟩, fun h => h.1⟩
    split_ifs at h
    cases h
    simp
  · have hn : decode4 a t = none := by
      rcases t with _ | ⟨b, _ | ⟨c, _ | ⟨d, t⟩⟩⟩ <;> first | rfl | simp at ht
    rw [hn]
    refine ⟨fun h => (nomatch h), fun ⟨h, hl⟩ => ?_⟩
    rcases hs : t ++ u with _ | ⟨b, _ | ⟨c, _ | ⟨d, s⟩⟩⟩ <;> rw [hs] at h
    · cases h
    · cases h
    · cases h
    · simp only [decode4] at h
      split_ifs at h
      cases h
      exact absurd hl ht

/-- A character that fits into `t` is decoded without what follows `t`. -/
theorem decodeRune_of_fits (h : (decodeRune a (t ++ u)).2.length - 1 ≤ t.length) :
    decodeRune a t = decodeRune a (t ++ u) := by
  have hnone : ∀ {f : UInt8 → Str → Option (Nat × Str)},
      (∀ {x}, f a t = some x ↔ f a (t ++ u) = some x ∧ x.2.length - 1 ≤ t.length) →
        f a (t ++ u) = none → f a t = none := by
    intro f hf hn
    refine Option.eq_none_iff_forall_ne_some.mpr fun x hx => ?_
    rw [(hf.mp hx).1] at hn
    cases hn
  by_cases ha : a < 0x80
  · simp only [decodeRune, if_pos ha]
  simp only [decodeRune, if_neg ha] at h ⊢
  cases h₂ : decode2 a (t ++ u) with
  | some x =>
    rw [h₂] at h
    rw [decode2_append.mpr ⟨h₂, h⟩]
    rfl
  | none =>
    rw [h₂] at h
    rw [hnone decode2_append h₂]
    cases h₃ : decode3 a (t ++ u) with
    | some x =>
      rw [h₃] at h
      rw [decode3_append.mpr ⟨h₃, h⟩]
      rfl
    | none =>
      rw [h₃] at h
      rw [hnone decode3_append h₃]
      cases h₄ : decode4 a (t ++ u) with
      | some x =>
        rw [h₄] at h
        rw [decode4_append.mpr ⟨h₄, h⟩]
      | none => rw [hnone decode4_append h₄]

end

/-- A string may be cut between any two of its characters, before or after it
is decoded. -/
theorem runesFrom_cut {k : Nat} {t u : Str} {xs ys : List (Nat × Str)} (hk : k ≤ t.length)
    (h : runesFrom k (t ++ u) = xs ++ ys) (hl : (xs.flatMap Prod.snd).length = t.length - k) :
    runesFrom k t = xs ∧ runes u = ys := by
  induction t generalizing k xs with
  | nil =>
    have hk : k = 0 := by simpa using hk
    subst hk
    have hx : xs = [] := by
      cases xs with
      | nil => rfl
      | cons x xs =>
        -- the first character of a string has at least one byte
        cases u with
        | nil => cases h
        | cons a u =>
          obtain ⟨rfl, -⟩ := List.cons_eq_cons.mp h
          have hb := congrArg List.length (decodeRune_ok a u).bytes
          simp only [List.flatMap_cons, List.length_append, List.length_cons,
            List.length_nil] at hl hb
          omega
    subst hx
    exact ⟨rfl, h⟩
  | cons a t ih =>
    cases k with
    | succ k => exact ih (Nat.le_of_succ_le_succ hk) h (by simpa using hl)
    | zero =>
      cases xs with
      | nil => simp at hl
      | cons x xs =>
        have h : decodeRune a (t ++ u) :: runesFrom ((decodeRune a (t ++ u)).2.length - 1) (t ++ u) = x :: (xs ++ ys) := h
        obtain ⟨rfl, hrest⟩ := List.cons_eq_cons.mp h
        have hb := congrArg List.length (decodeRune_ok a (t ++ u)).bytes
        simp only [List.flatMap_cons, List.length_append, List.length_cons] at hl hb
        have hfits : (decodeRune a (t ++ u)).2.length - 1 ≤ t.length := by omega
        obtain ⟨h₁, h₂⟩ := ih hfits hrest (by omega)
        refine ⟨?_, h₂⟩
        rw [runesFrom, decodeRune_of_fits hfits, h₁]

theorem runes_cut {s : Str} {xs ys : List (Nat × Str)} (h : runes s = xs ++ ys) :
    runes (xs.flatMap Prod.snd) = xs ∧ runes (ys.flatMap Prod.snd) = ys := by
  have hs : s = xs.flatMap Prod.snd ++ ys.flatMap Prod.snd :=
    by rw [← List.flatMap_append, ← h, runes_bytes]
  rw [hs] at h
  exact runesFrom_cut (Nat.zero_le _) h rfl

/-- An ASCII byte is in a character exactly when it is the character. -/
theorem mem_runesFrom {k : Nat} {s : Str} {x : Nat × Str} (hx : x ∈ runesFrom k s) {c : UInt8}
    (hc : c < 0x80) : c ∈ x.2 ↔ x.1 = c.toNat := by
  induction s generalizing k with
  | nil => simp [runesFrom] at hx
  | cons a s ih =>
    cases k with
    | succ k => exact ih hx
    | zero =>
      rcases List.mem_cons.mp hx with rfl | hx
      · by_cases ha : a < 0x80
        · rw [(decodeRune_ok a s).ascii ha, List.mem_singleton, eq_comm, UInt8.toNat_inj]
        · obtain ⟨hr, hb⟩ := (decodeRune_ok a s).wide ha
          have hc' : c.toNat < 0x80 := UInt8.lt_iff_toNat_lt.mp hc
          exact ⟨fun hm => absurd hc (hb c hm), fun he => by omega⟩
      · exact ih hx

/-! ## Lower case -/

/-- The bytes at which hosts and ports are cut. -/
def Delim (c : UInt8) : Prop := c = 0x3A ∨ c = 0x5B ∨ c = 0x5D

theorem Delim.ascii {c : UInt8} (hc : Delim c) : c < 0x80 := by
  rcases hc with rfl | rfl | rfl <;> decide

/-- No range of letters, nor what it is mapped to, has a delimiter. -/
theorem caseRanges_delim : ∀ c ∈ [0x3A, 0x5B, 0x5D], ∀ e ∈ caseRanges,
    ¬ (e.lo ≤ c ∧ c ≤ e.hi) ∧ ¬ ((e.lo : Int) + e.delta ≤ c ∧ (c : Int) ≤ e.hi + e.delta) := by
  decide +kernel

theorem toLowerRune_delim {c : UInt8} (hc : Delim c) (r : Nat) :
    toLowerRune r = c.toNat ↔ r = c.toNat := by
  have hm : c.toNat ∈ [0x3A, 0x5B, 0x5D] := by
    rcases hc with rfl | rfl | rfl <;> decide
  rw [toLowerRune]
  cases h : caseRanges.find? (·.has r) with
  | none => exact Iff.rfl
  | some e =>
    have hr := List.find?_some h
    obtain ⟨h₁, h₂⟩ := caseRanges_delim _ hm e (List.mem_of_find?_eq_some h)
    simp only [CaseRange.has, Bool.and_eq_true, decide_eq_true_eq] at hr
    constructor
    · intro he
      have he : ((r : Int) + e.delta).toNat = c.toNat := he
      have hpos : (c.toNat : Int) ≠ 0 := by
        rcases hc with rfl | rfl | rfl <;> decide
      exact absurd ⟨by omega, by omega⟩ h₂
    · intro he
      exact absurd ⟨by omega, by omega⟩ h₁

theorem toUInt8_wide {n : Nat} (h : 0x80 ≤ n) (h' : n < 0x100) : ¬ n.toUInt8 < 0x80 := by
  rw [UInt8.lt_iff_toNat_lt]
  show ¬ n % 256 < 0x80
  omega

/-- An ASCII byte is in the encoding of a character exactly when it is the
character. -/
theorem mem_encodeRune {c : UInt8} (hc : c < 0x80) (r : Nat) : c ∈ encodeRune r ↔ r = c.toNat := by
  have hc' : c.toNat < 0x80 := UInt8.lt_iff_toNat_lt.mp hc
  have hne : ∀ n : Nat, 0x80 ≤ n → n < 0x100 → c ≠ n.toUInt8 := fun n h h' he =>
    toUInt8_wide h h' (he ▸ hc)
  rw [encodeRune]
  split_ifs with h₁ h₂ h₃ h₄
  · rw [List.mem_singleton, ← UInt8.toNat_inj]
    show c.toNat = r % 256 ↔ _
    omega
  all_goals
    refine ⟨fun hm => absurd hm ?_, fun he => by omega⟩
    simp only [List.mem_cons, List.not_mem_nil, or_false, not_or]
  · exact ⟨hne _ (by omega) (by omega), hne _ (by omega) (by omega)⟩
  · exact ⟨hne 0xEF (by decide) (by decide), hne 0xBF (by decide) (by decide), hne 0xBD (by decide) (by decide)⟩
  · exact ⟨hne _ (by omega) (by omega), hne _ (by omega) (by omega), hne _ (by omega) (by omega)⟩
  · exact ⟨hne _ (by omega) (by omega), hne _ (by omega) (by omega), hne _ (by omega) (by omega),
      hne _ (by omega) (by omega)⟩

theorem encodeRune_ne_nil (r : Nat) : encodeRune r ≠ [] := by
  rw [encodeRune]
  split_ifs <;> exact List.cons_ne_nil _ _

/-- The lower case of the parts around an ASCII byte that is its own. -/
theorem toLower_append_ascii {c : UInt8} (hc : c < 0x80) (hl : toLowerRune c.toNat = c.toNat)
    (s t : Str) : toLower (s ++ c :: t) = toLower s ++ c :: toLower t := by
  have he : encodeRune c.toNat = [c] := by
    have hc' : c.toNat < 0x80 := UInt8.lt_iff_toNat_lt.mp hc
    rw [encodeRune, if_pos hc']
    simp
  rw [toLower, runes_append hc, List.flatMap_append, List.flatMap_cons, hl, he]
  rfl

/-- The lower case of the parts around a delimiter. -/
theorem toLower_append {c : UInt8} (hc : Delim c) (s t : Str) :
    toLower (s ++ c :: t) = toLower s ++ c :: toLower t :=
  toLower_append_ascii hc.ascii ((toLowerRune_delim hc _).mpr rfl) s t

/-- Lower case makes and removes no delimiter. -/
theorem mem_toLower {c : UInt8} (hc : Delim c) (s : Str) : c ∈ toLower s ↔ c ∈ s := by
  nth_rewrite 2 [← runes_bytes s]
  rw [toLower, List.mem_flatMap, List.mem_flatMap]
  refine exists_congr fun x => and_congr_right fun hx => ?_
  rw [mem_encodeRune hc.ascii, toLowerRune_delim hc, mem_runesFrom hx hc.ascii]

theorem toLower_eq_nil (s : Str) : toLower s = [] ↔ s = [] := by
  constructor
  · intro h
    cases s with
    | nil => rfl
    | cons a s =>
      have h := (List.append_eq_nil_iff.mp h).1
      exact absurd h (encodeRune_ne_nil _)
  · rintro rfl; rfl

/-! ## Cutting -/

theorem cutFirst_eq_none {c : UInt8} {s : Str} : cutFirst c s = none ↔ c ∉ s := by
  induction s with
  | nil => simp [cutFirst]
  | cons b s ih =>
    rw [cutFirst]
    split_ifs with h
    · simp [h]
    · simp [ih, Ne.symm h]

theorem cutFirst_append {c : UInt8} {s t : Str} (h : c ∉ s) :
    cutFirst c (s ++ c :: t) = some (s, t) := by
  induction s with
  | nil => simp [cutFirst]
  | cons b s ih =>
    obtain ⟨hb, hs⟩ := not_or.mp (mt List.mem_cons.mpr h)
    rw [List.cons_append, cutFirst, if_neg (Ne.symm hb), ih hs]
    rfl

theorem cutLast_eq_none {c : UInt8} {s : Str} : cutLast c s = none ↔ c ∉ s := by
  induction s with
  | nil => simp [cutLast]
  | cons b s ih =>
    rw [cutLast]
    cases h : cutLast c s with
    | some p =>
      have hm : c ∈ s := by_contra fun hn => by rw [ih.mpr hn] at h; cases h
      simp [hm]
    | none =>
      have hn := ih.mp h
      by_cases hb : b = c
      · simp [hb]
      · simp [hb, hn, Ne.symm hb]

theorem cutLast_append {c : UInt8} {s t : Str} (h : c ∉ t) :
    cutLast c (s ++ c :: t) = some (s, t) := by
  induction s with
  | nil => simp [cutLast, cutLast_eq_none.mpr h]
  | cons b s ih => rw [List.cons_append, cutLast, ih]

theorem eq_append_last {c : UInt8} {s : Str} (h : c ∈ s) : ∃ a b, s = a ++ c :: b ∧ c ∉ b := by
  obtain ⟨a, b, hs, ha⟩ := List.eq_append_cons_of_mem (List.mem_reverse.mpr h)
  refine ⟨b.reverse, a.reverse, ?_, by simpa using ha⟩
  rw [← List.reverse_reverse s, hs]
  simp

theorem cutFirst_eq_some {c : UInt8} {s a b : Str} :
    cutFirst c s = some (a, b) ↔ s = a ++ c :: b ∧ c ∉ a := by
  refine ⟨fun h => ?_, fun ⟨hs, ha⟩ => by rw [hs, cutFirst_append ha]⟩
  have hm : c ∈ s := by_contra fun hn => by rw [cutFirst_eq_none.mpr hn] at h; cases h
  obtain ⟨a', b', rfl, ha⟩ := List.eq_append_cons_of_mem hm
  rw [cutFirst_append ha] at h
  cases h
  exact ⟨rfl, ha⟩

theorem cutLast_eq_some {c : UInt8} {s a b : Str} :
    cutLast c s = some (a, b) ↔ s = a ++ c :: b ∧ c ∉ b := by
  refine ⟨fun h => ?_, fun ⟨hs, hb⟩ => by rw [hs, cutLast_append hb]⟩
  have hm : c ∈ s := by_contra fun hn => by rw [cutLast_eq_none.mpr hn] at h; cases h
  obtain ⟨a', b', rfl, hb⟩ := eq_append_last hm
  rw [cutLast_append hb] at h
  cases h
  exact ⟨rfl, hb⟩

section

variable {f : Str → Str} {c : UInt8} (happ : ∀ a b, f (a ++ c :: b) = f a ++ c :: f b) (hmem : ∀ s,
  c ∈ f s ↔ c ∈ s) (s : Str)

include happ hmem

/-- What is done to the parts around a delimiter commutes with cutting at the
first one, -/
theorem cutFirst_comm : cutFirst c (f s) = (cutFirst c s).map (Prod.map f f) := by
  by_cases h : c ∈ s
  · obtain ⟨a, b, rfl, ha⟩ := List.eq_append_cons_of_mem h
    rw [happ, cutFirst_append ha, cutFirst_append (mt (hmem a).mp ha)]
    rfl
  · rw [cutFirst_eq_none.mpr h, cutFirst_eq_none.mpr (mt (hmem s).mp h)]
    rfl

/-- and with cutting at the last. -/
theorem cutLast_comm : cutLast c (f s) = (cutLast c s).map (Prod.map f f) := by
  by_cases h : c ∈ s
  · obtain ⟨a, b, rfl, hb⟩ := eq_append_last h
    rw [happ, cutLast_append hb, cutLast_append (mt (hmem b).mp hb)]
    rfl
  · rw [cutLast_eq_none.mpr h, cutLast_eq_none.mpr (mt (hmem s).mp h)]
    rfl

end

theorem cutFirst_toLower {c : UInt8} (hc : Delim c) (s : Str) :
    cutFirst c (toLower s) = (cutFirst c s).map (Prod.map toLower toLower) :=
  cutFirst_comm (toLower_append hc) (mem_toLower hc) s

theorem cutLast_toLower {c : UInt8} (hc : Delim c) (s : Str) :
    cutLast c (toLower s) = (cutLast c s).map (Prod.map toLower toLower) :=
  cutLast_comm (toLower_append hc) (mem_toLower hc) s

/-- A string begins with a delimiter exactly when its lower case does. -/
theorem head_toLower {c : UInt8} (hc : Delim c) (s : Str) :
    (toLower s).head? = some c ↔ s.head? = some c := by
  have hcut : ∀ t : Str, t.head? = some c ↔ (cutFirst c t).map Prod.fst = some [] := by
    intro t
    cases t with
    | nil => simp [cutFirst]
    | cons b t =>
      by_cases hb : b = c
      · simp [cutFirst, hb]
      · simp [cutFirst, hb]
  rw [hcut, hcut, cutFirst_toLower hc, Option.map_map]
  cases cutFirst c s with
  | none => simp
  | some p => simp [toLower_eq_nil]

/-- A string ends with a delimiter exactly when its lower case does. -/
theorem getLast_toLower {c : UInt8} (hc : Delim c) (s : Str) :
    (toLower s).getLast? = some c ↔ s.getLast? = some c := by
  have hcut : ∀ t : Str, t.getLast? = some c ↔ (cutLast c t).map Prod.snd = some [] := by
    intro t
    by_cases h : c ∈ t
    · obtain ⟨a, b, rfl, hb⟩ := eq_append_last h
      rw [cutLast_append hb]
      cases b with
      | nil => simp
      | cons d b =>
        simp only [List.getLast?_append_cons, List.getLast?_cons_cons, Option.map_some,
          Option.some.injEq,
          reduceCtorEq, iff_false]
        exact fun he => hb (List.mem_of_getLast? he)
    · rw [cutLast_eq_none.mpr h]
      simp only [Option.map_none, reduceCtorEq, iff_false]
      exact fun he => h (List.mem_of_getLast? he)
  rw [hcut, hcut, cutLast_toLower hc, Option.map_map]
  cases cutLast c s with
  | none => simp
  | some p => simp [toLower_eq_nil]

/-! ## White space -/

/-- A string without white space at its ends is left alone. -/
theorem trimSpace_eq {s : Str} (hb : beginsWithSpace s = false) (he : endsWithSpace s = false) :
    trimSpace s = s := by
  have hl : (runes s).dropWhile (fun r => isSpace r.1) = runes s := by
    cases h : runes s with
    | nil => rfl
    | cons x xs =>
      rw [beginsWithSpace, h] at hb
      exact List.dropWhile_cons_of_neg (by simpa using hb)
  have hr : (runes s).reverse.dropWhile (fun r => isSpace r.1) = (runes s).reverse := by
    cases h : (runes s).reverse with
    | nil => rfl
    | cons x xs =>
      rw [endsWithSpace, List.getLast?_eq_head?_reverse, h] at he
      exact List.dropWhile_cons_of_neg (by simpa using he)
  rw [trimSpace, hl, hr, List.reverse_reverse, runes_bytes]

/-- The characters of a string, with those that are trimmed off its ends. -/
theorem runes_trimSpace (s : Str) : ∃ l r, runes s = l ++ runes (trimSpace s) ++ r ∧
    (∀ x ∈ l ++ r, isSpace x.1 = true) ∧
    (beginsWithSpace s = true ∨ endsWithSpace s = true → l ++ r ≠ []) := by
  let p : Nat × Str → Bool := fun x => isSpace x.1
  let m := (((runes s).dropWhile p).reverse.dropWhile p).reverse
  let r := (((runes s).dropWhile p).reverse.takeWhile p).reverse
  have hd : (runes s).dropWhile p = m ++ r := by
    rw [← List.reverse_append, List.takeWhile_append_dropWhile, List.reverse_reverse]
  have hs : runes s = (runes s).takeWhile p ++ m ++ r := by
    rw [List.append_assoc, ← hd, List.takeWhile_append_dropWhile]
  have hm : runes (trimSpace s) = m := (runes_cut (runes_cut hs).1).2
  have hsp : ∀ x ∈ (runes s).takeWhile p ++ r, p x = true := by
    intro x hx
    rcases List.mem_append.mp hx with hx | hx
    · exact List.mem_takeWhile_imp hx
    · exact List.mem_takeWhile_imp (List.mem_reverse.mp hx)
  refine ⟨(runes s).takeWhile p, r, by rw [hm]; exact hs, hsp, fun h hn => ?_⟩
  obtain ⟨hl, hr⟩ := List.append_eq_nil_iff.mp hn
  -- nothing is trimmed, so neither end is white space
  have hsm : runes s = m := by rw [hs, hl, hr, List.nil_append, List.append_nil]
  have hhead : ∀ {xs : List (Nat × Str)}, xs.takeWhile p = [] → xs.head?.any p = true → False := by
    intro xs hxs hx
    cases xs with
    | nil => cases hx
    | cons x xs =>
      have hx : p x = true := hx
      rw [List.takeWhile_cons_of_pos hx] at hxs
      cases hxs
  rcases h with h | h
  · exact hhead hl h
  · have hw : (runes s).dropWhile p = runes s := by rw [hd, hr, List.append_nil, ← hsm]
    have hr : (runes s).reverse.takeWhile p = [] :=
      by rw [← hw]; exact List.reverse_eq_nil_iff.mp hr
    rw [endsWithSpace, List.getLast?_eq_head?_reverse] at h
    exact hhead hr h

/-- The bytes that are trimmed off are none of the delimiters. -/
theorem trimSpace_cut (s : Str) :
    ∃ l r, s = l ++ trimSpace s ++ r ∧ ∀ {c : UInt8}, Delim c → c ∉ l ∧ c ∉ r := by
  obtain ⟨l, r, hs, hsp, -⟩ := runes_trimSpace s
  have hbytes := runes_bytes s
  rw [hs, List.flatMap_append, List.flatMap_append, runes_bytes] at hbytes
  refine ⟨_, _, hbytes.symm, fun {c} hc => ?_⟩
  have hno : ∀ x ∈ l ++ r, c ∉ x.2 := by
    intro x hx hm
    have hx' : x ∈ runes s := by
      rw [hs]
      rcases List.mem_append.mp hx with hx | hx <;> simp [hx]
    have hspace := hsp x hx
    rw [(mem_runesFrom hx' hc.ascii).mp hm] at hspace
    rcases hc with rfl | rfl | rfl <;> exact absurd hspace (by decide)
  constructor <;>
    · intro hm
      obtain ⟨x, hx, hm⟩ := List.mem_flatMap.mp hm
      exact hno x (by simp [hx]) hm

/-- White space at an end of a string is more than what is left without it. -/
theorem length_toLower_trimSpace {s : Str} (h : beginsWithSpace s = true ∨ endsWithSpace s = true) :
    (toLower (trimSpace s)).length < (toLower s).length := by
  obtain ⟨l, r, hs, -, hne⟩ := runes_trimSpace s
  have hpos : ∀ xs : List (Nat × Str),
    xs.length ≤ (xs.flatMap fun x => encodeRune (toLowerRune x.1)).length := by
    intro xs
    induction xs with
    | nil => exact Nat.zero_le _
    | cons x xs ih =>
      have hx := List.length_pos_iff.mpr (encodeRune_ne_nil (toLowerRune x.1))
      rw [List.flatMap_cons, List.length_append, List.length_cons]
      omega
  have hlr := List.length_pos_iff.mpr (hne h)
  have hl := hpos l
  have hr := hpos r
  rw [toLower, toLower, hs, List.flatMap_append, List.flatMap_append]
  simp only [List.length_append] at hlr ⊢
  omega

/-! ## Pieces between bytes -/

/-- A list is mapped by a partial function exactly when each of its members is. -/
theorem mapM_eq_some_iff {α β : Type} {f : α → Option β} {xs : List α} {ys : List β} :
    xs.mapM f = some ys ↔ xs.map f = ys.map some := by
  induction xs generalizing ys with
  | nil => cases ys <;> simp
  | cons x xs ih =>
    rw [List.mapM_cons, List.map_cons]
    simp only [bind, pure, Option.bind_eq_some_iff, Option.some.injEq]
    constructor
    · rintro ⟨y, hy, zs, hzs, rfl⟩
      rw [hy, ih.mp hzs, List.map_cons]
    · intro h
      cases ys with
      | nil => cases h
      | cons y ys =>
        obtain ⟨hy, hys⟩ := List.cons_eq_cons.mp h
        exact ⟨y, hy, ys, ih.mpr hys, rfl⟩

section

variable {c : UInt8}

/-- Induction on the pieces of a string that is cut at every `c`. -/
theorem splitOn_induction {P : Str → List Str → Prop} (single : ∀ s, c ∉ s → P s [s])
    (cons : ∀ a t, c ∉ a → P t (t.splitOn c) → P (a ++ c :: t) (a :: t.splitOn c)) (s : Str) :
    P s (s.splitOn c) := by
  induction hn : s.length using Nat.strong_induction_on generalizing s with
  | _ n ih =>
    by_cases hc : c ∈ s
    · obtain ⟨a, t, rfl, ha⟩ := List.eq_append_cons_of_mem hc
      rw [List.splitOn_append_cons_self_of_not_mem ha]
      refine cons a t ha (ih t.length ?_ t rfl)
      rw [← hn, List.length_append, List.length_cons]
      omega
    · rw [List.splitOn_eq_singleton hc]
      exact single s hc

/-- A piece of a string is a part of it without `c`. -/
theorem of_mem_splitOn {s p : Str} (h : p ∈ s.splitOn c) : c ∉ p ∧ p ⊆ s := by
  refine splitOn_induction (P := fun s ps => ∀ p ∈ ps, c ∉ p ∧ p ⊆ s) (fun s hs p hp => ?_) (fun a t ha ih p hp => ?_) s p h
  · rw [List.mem_singleton.mp hp]
    exact ⟨hs, List.Subset.refl s⟩
  · rcases List.mem_cons.mp hp with rfl | hp
    · exact ⟨ha, List.subset_append_left _ _⟩
    · obtain ⟨hc, hsub⟩ := ih p hp
      exact ⟨hc, fun b hb => by simp [hsub hb]⟩

/-- A byte of a string is `c`, or in one of the pieces. -/
theorem mem_splitOn {b : UInt8} {s : Str} (hb : b ∈ s) : b = c ∨ ∃ p ∈ s.splitOn c, b ∈ p := by
  refine splitOn_induction (P := fun s ps => b ∈ s → b = c ∨ ∃ p ∈ ps, b ∈ p) (fun s _ hb => ?_) (fun a t _ ih hb => ?_) s hb
  · exact .inr ⟨s, List.mem_singleton_self s, hb⟩
  · rcases List.mem_append.mp hb with hb | hb
    · exact .inr ⟨a, List.mem_cons_self .., hb⟩
    · rcases List.mem_cons.mp hb with hb | hb
      · exact .inl hb
      · rcases ih hb with hbc | ⟨p, hp, hm⟩
        · exact .inl hbc
        · exact .inr ⟨p, List.mem_cons_of_mem _ hp, hm⟩

/-- A map that keeps `c`, and sends nothing else to it, may be applied before
or after the cuts. -/
theorem splitOn_map {f : UInt8 → UInt8} (hf : ∀ b, f b = c ↔ b = c) (s : Str) :
    (s.map f).splitOn c = (s.splitOn c).map (List.map f) := by
  have hmem : ∀ {s : Str}, c ∉ s → c ∉ s.map f := fun hs hm => by
    obtain ⟨b, hb, he⟩ := List.mem_map.mp hm
    exact hs ((hf b).mp he ▸ hb)
  refine splitOn_induction (P := fun s ps => (s.map f).splitOn c = ps.map (List.map f)) (fun s hs => ?_) (fun a t ha ih => ?_) s
  · rw [List.splitOn_eq_singleton (hmem hs)]
    rfl
  · rw [List.map_append, List.map_cons, (hf c).mpr rfl,
    List.splitOn_append_cons_self_of_not_mem (hmem ha), ih]
    rfl

end

/-! ## Lists separated by commas -/

theorem splitComma_append (s t : Str) :
    splitComma (s ++ 0x2C :: t) = splitComma s ++ splitComma t :=
  List.splitOnP_append_cons s t rfl

/-- A space before a list is not seen in its trimmed members. -/
theorem trimmed_space (s : Str) :
    (splitComma (0x20 :: s)).map trimSpace = (splitComma s).map trimSpace := by
  rw [splitComma, List.splitOn, List.splitOnP_cons_eq_if_modifyHead,
    if_neg (by decide), ← List.splitOn, ← splitComma]
  cases splitComma s with
  | nil => rfl
  | cons a as => rfl

end SP.Go
