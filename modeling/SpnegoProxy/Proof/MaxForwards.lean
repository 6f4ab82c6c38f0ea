import SpnegoProxy.Proof.Go.Http
import SpnegoProxy.Proof.Go.Strconv
import SpnegoProxy.Spec.MaxForwards

/-!
# `Max-Forwards` bounds the number of hops

`applyMaxForwards` takes one off the count, and answers the request itself when
there is nothing left, so a chain of proxies forwards it at most as often as it
says. `maxForwards_bounds_iff`: this is so as long as the count is an `int`. A
larger one is taken for a value that is no number, which is forwarded as it is.
-/

namespace SP.Proof

open SP.Go SP.Impl SP.Spec

variable {req : Request} {n : Nat}

theorem applyMaxForwards_eq (h : Counts req n) : applyMaxForwards req =
    if n < 2 ^ 63 then
      if n = 0 then none else some { req with header := req.header.set headerMaxForwards (itoa (n - 1 : Nat)) }
    else some req := by
  obtain ⟨v, hv, hd⟩ := h.value
  have hget : req.header.get headerMaxForwards = v := by rw [Header.get, hv]; rfl
  have hmethod : ¬ (req.method ≠ methodTrace ∧ req.method ≠ methodOptions) := by
    rcases h.method with hm | hm
    · exact fun hn => hn.1 hm
    · exact fun hn => hn.2 hm
  rw [applyMaxForwards, if_neg hmethod]
  simp only [hget, hd.nonempty, if_false, atoi_of_denotes hd]
  by_cases hn : n < 2 ^ 63
  · rw [if_pos hn, if_pos hn]
    by_cases hz : n = 0
    · rw [if_pos hz, hz]
      rfl
    · have hpos : ¬ (n : Int) ≤ 0 := by omega
      have hpred : (n : Int) - 1 = (n - 1 : Nat) := by omega
      simp only [hpos, if_false, hz, hpred]
  · rw [if_neg hn, if_neg hn]

theorem values_set {h : Header} {v : Str} :
    (h.set headerMaxForwards v).values headerMaxForwards = [v] := by
  rw [Header.values, Header.entry_set_self]
  rfl

/-- One hop takes one off the count. -/
theorem counts_next (h : Counts req n) (hlt : n < 2 ^ 63) {next : Request}
    (hp : PassesOn req next) : n ≠ 0 ∧ Counts next (n - 1) := by
  obtain ⟨r, hr, hm, hv⟩ := hp
  rw [applyMaxForwards_eq h, if_pos hlt] at hr
  split_ifs at hr with hz
  obtain rfl := Option.some.inj hr
  refine ⟨hz, hm ▸ h.method, itoa (n - 1 : Nat), ?_, denotes_itoa _⟩
  rw [hv]
  exact values_set

theorem hops_le (h : Counts req n) (hlt : n < 2 ^ 63) {k : Nat} {last : Request}
    (hk : Hops k req last) : k ≤ n := by
  induction hk generalizing n with
  | zero => exact Nat.zero_le n
  | succ hp _ ih =>
    obtain ⟨hn, hnext⟩ := counts_next h hlt hp
    have hle := ih hnext (by omega)
    omega

/-- A count that is no `int` is passed on as it is. -/
theorem hops_endless (h : Counts req n) (hge : 2 ^ 63 ≤ n) (k : Nat) : Hops k req req := by
  have hp : PassesOn req req :=
    ⟨req, by rw [applyMaxForwards_eq h, if_neg (Nat.not_lt.mpr hge)], rfl, rfl⟩
  induction k with
  | zero => exact .zero
  | succ k ih => exact .succ hp ih

/-- The count of a request bounds its hops exactly when it is an `int`; a
larger one is no bound at all. -/
theorem maxForwards_bounds_iff (h : Counts req n) :
    (BoundsHops req n ↔ n < 2 ^ 63) ∧ (2 ^ 63 ≤ n → ∀ k, Hops k req req) := by
  refine ⟨⟨fun hb => ?_, fun hlt => ⟨fun hz => ?_, fun hz => ?_, hops_le h hlt⟩⟩, hops_endless h⟩
  · by_contra hge
    have hle := hb.hops (hops_endless h (Nat.le_of_not_lt hge) (n + 1))
    omega
  · rw [applyMaxForwards_eq h, if_pos hlt, if_pos hz]
  · exact ⟨_, denotes_itoa _, by rw [applyMaxForwards_eq h, if_pos hlt, if_neg hz]⟩

/-- A `TRACE` request with the count `v`. -/
def countedTrace (v : Str) : Request where
  method := methodTrace
  proto := str "HTTP/1.1"
  protoMajor := 1
  protoMinor := 1
  header := Header.set ⟨∅⟩ headerMaxForwards v
  host := str "a.example"
  close := false
  transferEncoding := []
  trailer := none
  body := .noBody

theorem counts_trace {v : Str} (hv : Denotes v n) : Counts (countedTrace v) n :=
  ⟨.inl rfl, v, values_set, hv⟩

theorem maxForwards_bounds_three : BoundsHops (countedTrace (str "003")) 3 :=
  have hv : Denotes (str "003") 3 := parseDigits_iff.mp (by decide +kernel)
  (maxForwards_bounds_iff (counts_trace hv)).1.mpr (by decide)

/-- The first count that is no `int` is not decremented. -/
theorem largeCount_unbounded : Denotes (str "9223372036854775808") (2 ^ 63) ∧
    applyMaxForwards (countedTrace (str "9223372036854775808")) = some (countedTrace (str "9223372036854775808")) ∧
    ¬ BoundsHops (countedTrace (str "9223372036854775808")) (2 ^ 63) := by
  have hv : Denotes (str "9223372036854775808") (2 ^ 63) := parseDigits_iff.mp (by decide +kernel)
  have hsame : applyMaxForwards (countedTrace (str "9223372036854775808")) = some (countedTrace (str "9223372036854775808")) := by
    rw [applyMaxForwards_eq (counts_trace hv), if_neg (by decide)]
  refine ⟨hv, hsame, fun hb => ?_⟩
  have hle := hb.hops (hops_endless (counts_trace hv) (Nat.le_refl _) (2 ^ 63 + 1))
  omega

end SP.Proof
