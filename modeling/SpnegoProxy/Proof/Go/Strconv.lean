import SpnegoProxy.Impl.Go.Strconv
import SpnegoProxy.Proof.Go.Strings
import SpnegoProxy.Spec.Decimal

/-!
# Decimal numbers

`ParseUint` and `Atoi` read the numerals that denote a number of their range
(`parseUint_iff`, `atoi_of_denotes`), and `Itoa` prints one (`denotes_itoa`).
-/

namespace SP.Proof

open SP.Go SP.Spec

variable {s : Str} {n : Nat}

theorem atoi_unsigned {b : UInt8} {t : Str} (h₁ : b ≠ 0x2D) (h₂ : b ≠ 0x2B) : atoi (b :: t) =
    ((parseDigits (b :: t)).map fun n : Nat => (n : Int)).filter fun n => -(2 ^ 63) ≤ n ∧ n < 2 ^ 63 := by
  rw [atoi]
  · cases parseDigits (b :: t) <;> rfl
  · intro t' h
    exact h₁ (List.cons_eq_cons.mp h).1
  · intro t' h
    exact h₂ (List.cons_eq_cons.mp h).1

theorem isDigit_iff {b : UInt8} : isDigit b = true ↔ 0x30 ≤ b ∧ b ≤ 0x39 := by
  rw [isDigit, Bool.and_eq_true, decide_eq_true_iff, decide_eq_true_iff]

theorem digitsVal_eq (s : Str) :
    digitsVal s = Nat.ofDigits 10 (s.reverse.map fun b => b.toNat - 0x30) := by
  rw [digitsVal, ← List.foldr_reverse, Nat.ofDigits_eq_foldr, List.foldr_map]
  congr 1
  funext b n
  rw [Nat.cast_id]
  omega

theorem parseDigits_iff : parseDigits s = some n ↔ Denotes s n := by
  rw [parseDigits]
  constructor
  · intro h
    split_ifs at h with hd
    have hn : digitsVal s = n := Option.some.inj h
    exact ⟨hd.1,
      fun b hb => isDigit_iff.mp (List.all_eq_true.mp hd.2 b hb), by rw [← hn, digitsVal_eq]⟩
  · intro h
    have hall : s.all isDigit = true :=
      List.all_eq_true.mpr fun b hb => isDigit_iff.mpr (h.digits b hb)
    rw [if_pos ⟨h.nonempty, hall⟩, digitsVal_eq, ← h.value]

/-- A numeral denotes one number. -/
theorem denotes_unique {m : Nat} (hn : Denotes s n) (hm : Denotes s m) : n = m :=
  hn.value.trans hm.value.symm

/-- A numeral, or no digits at all, with one digit more. -/
theorem denotes_snoc {d : Nat} (hd : d < 10) (hs : s = [] ∧ n = 0 ∨ Denotes s n) :
    Denotes (s ++ [(0x30 + d).toUInt8]) (n * 10 + d) := by
  have hbyte : ∀ d < 10, (0x30 ≤ (0x30 + d).toUInt8 ∧ (0x30 + d).toUInt8 ≤ 0x39) ∧
    (0x30 + d).toUInt8.toNat - 0x30 = d := by
    decide
  obtain ⟨hdigit, hval⟩ := hbyte d hd
  have hdigits : ∀ b ∈ s, 0x30 ≤ b ∧ b ≤ 0x39 := by
    rcases hs with ⟨rfl, -⟩ | hs
    · exact fun b hb => (nomatch hb)
    · exact hs.digits
  have hn : n = Nat.ofDigits 10 (s.reverse.map fun b => b.toNat - 0x30) := by
    rcases hs with ⟨rfl, rfl⟩ | hs
    · rfl
    · exact hs.value
  refine ⟨by simp, fun b hb => ?_, ?_⟩
  · rcases List.mem_append.mp hb with hb | hb
    · exact hdigits b hb
    · rw [List.mem_singleton.mp hb]
      exact hdigit
  · rw [List.reverse_append, List.reverse_singleton, List.singleton_append, List.map_cons,
    Nat.ofDigits_cons, hval, ← hn]
    omega

theorem denotes_zero_cons (h : Denotes s n) : Denotes (0x30 :: s) n := by
  refine ⟨List.cons_ne_nil _ _, List.forall_mem_cons.mpr ⟨by decide, h.digits⟩, ?_⟩
  rw [List.reverse_cons, List.map_append, Nat.ofDigits_append, ← h.value]
  rfl

/-- Leading zeros do not change the number. -/
theorem denotes_zeros (h : Denotes s n) (k : Nat) : Denotes (List.replicate k 0x30 ++ s) n := by
  induction k with
  | zero => exact h
  | succ k ih => exact denotes_zero_cons ih

/-- There is no white space to trim off a numeral. -/
theorem trimSpace_of_denotes (h : Denotes s n) : trimSpace s = s := by
  have hrunes : ∀ x ∈ runes s, isSpace x.1 = false := by
    rw [runes_ascii fun b hb => UInt8.lt_of_le_of_lt (h.digits b hb).2 (by decide)]
    intro x hx
    obtain ⟨b, hb, rfl⟩ := List.mem_map.mp hx
    have hdigit : ∀ b : UInt8, (0x30 ≤ b ∧ b ≤ 0x39) → isSpace b.toNat = false :=
      forall_byte (by decide +kernel)
    exact hdigit b (h.digits b hb)
  refine trimSpace_eq ?_ ?_
  · rw [beginsWithSpace]
    cases hh : (runes s).head? with
    | none => rfl
    | some x => exact hrunes x (List.mem_of_head? hh)
  · rw [endsWithSpace]
    cases hh : (runes s).getLast? with
    | none => rfl
    | some x => exact hrunes x (List.mem_of_getLast? hh)

theorem str_append (a b : String) : str (a ++ b) = str a ++ str b := by
  simp [str]

theorem str_digitChar : ∀ d < 10, str (String.singleton (Nat.digitChar d)) = [(0x30 + d).toUInt8] := by
  decide +kernel

theorem denotes_repr (n : Nat) : Denotes (str (Nat.repr n)) n := by
  induction n using Nat.strong_induction_on with
  | _ n ih =>
    by_cases hn : n < 10
    · rw [Nat.repr_of_lt hn, str_digitChar n hn]
      have h := denotes_snoc (s := []) hn (.inl ⟨rfl, rfl⟩)
      rwa [Nat.zero_mul, Nat.zero_add] at h
    · have hmod : n % 10 < 10 := Nat.mod_lt n (by decide)
      rw [Nat.repr_of_ge (Nat.le_of_not_lt hn), str_append, str_digitChar _ hmod]
      have h := denotes_snoc hmod (.inr (ih (n / 10) (by omega)))
      rwa [Nat.div_add_mod'] at h

theorem denotes_itoa (n : Nat) : Denotes (itoa n) n := denotes_repr n

theorem parseUint_iff : parseUint s = some n ↔ Denotes s n ∧ n < 2 ^ 64 := by
  rw [parseUint, Option.filter_eq_some_iff, parseDigits_iff, decide_eq_true_iff]

/-- `Atoi` reads a numeral of an `int`, and no other. -/
theorem atoi_of_denotes (h : Denotes s n) :
    atoi s = if n < 2 ^ 63 then some (n : Int) else none := by
  obtain ⟨b, t, rfl⟩ := List.exists_cons_of_ne_nil h.nonempty
  have hb := (h.digits b (List.mem_cons_self ..)).1
  have hminus : b ≠ 0x2D := by rintro rfl; exact absurd hb (by decide)
  have hplus : b ≠ 0x2B := by rintro rfl; exact absurd hb (by decide)
  rw [atoi_unsigned hminus hplus, parseDigits_iff.mpr h, Option.map_some, Option.filter_some]
  refine if_congr ?_ rfl rfl
  rw [decide_eq_true_iff]
  omega

end SP.Proof
