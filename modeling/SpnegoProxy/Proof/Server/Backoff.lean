import Mathlib.Algebra.Order.Ring.Int
import SpnegoProxy.Proof.Server.Steps

/-!
# Accept errors

While `Accept` fails again and again, for want of file descriptors say, the
accept loop logs each error and waits. `retries` are the times of these waits
since the last connection. In whatever order the other goroutines run, each
comes after the wait before it, which doubles from `acceptBackoffInitial` up to
`acceptBackoffMax`; so past the first nine there is at most one for each
`acceptBackoffMax`.
-/

namespace SP.Proof.Server

open SP.Impl
open SP.Proof.Serve (serve serveStep_move)

/-- The wait after `k` others in a row. -/
def wait (k : Nat) : Int := min (acceptBackoffInitial * 2 ^ k) acceptBackoffMax

theorem wait_nonneg (k : Nat) : 0 ≤ wait k := by
  have hpow : (0 : Int) ≤ acceptBackoffInitial * 2 ^ k :=
    Int.mul_nonneg (by decide) (Int.pow_nonneg (by decide))
  exact le_min hpow (by decide)

theorem wait_pos (k : Nat) : 0 < wait k := by
  have hpow : (0 : Int) < acceptBackoffInitial * 2 ^ k :=
    Int.mul_pos (by decide) (Int.pow_pos (by decide))
  exact lt_min hpow (by decide)

theorem wait_eq_max {k : Nat} (hk : 8 ≤ k) : wait k = acceptBackoffMax := by
  refine min_eq_right ?_
  have hpow : (2 : Int) ^ 8 ≤ 2 ^ k := pow_le_pow_right₀ (by decide) hk
  calc acceptBackoffMax ≤ acceptBackoffInitial * 2 ^ 8 := by decide
    _ ≤ acceptBackoffInitial * 2 ^ k := Int.mul_le_mul_of_nonneg_left hpow (by decide)

theorem acceptBackoffNext_zero : acceptBackoffNext 0 = wait 0 := by decide

theorem acceptBackoffNext_wait (k : Nat) : acceptBackoffNext (wait k) = wait (k + 1) := by
  have hpos := wait_pos k
  have hsucc : acceptBackoffInitial * 2 ^ (k + 1) = acceptBackoffInitial * 2 ^ k * 2 := by
    rw [Int.pow_succ, Int.mul_assoc]
  rw [acceptBackoffNext, if_neg (by omega)]
  unfold wait at hpos ⊢
  rw [hsucc]
  generalize acceptBackoffInitial * 2 ^ k = d at hpos ⊢
  have hmax : acceptBackoffMax = 1000000000 := rfl
  split <;> omega

/-- The waits in a row after one more step. -/
def retryStep (ts : List Int) : ServeAct → List Int
  | .backoff now => ts ++ [now]
  | .acceptConn => []
  | _ => ts

/-- When the accept loop began to wait, since the last connection. -/
def retries (as : List ServeAct) : List Int := as.foldl retryStep []

theorem retries_snoc (as : List ServeAct) (a : ServeAct) :
    retries (as ++ [a]) = retryStep (retries as) a := by
  rw [retries, List.foldl_append]
  rfl

/-- Each wait begins after the one before it is over. -/
def RetriesApart (ts : List Int) : Prop :=
  ∀ i t t', ts[i]? = some t → ts[i + 1]? = some t' → t + wait i ≤ t'

theorem RetriesApart.snoc {ts : List Int} {now : Int} (h : RetriesApart ts)
    (hlast : ∀ t, ts.getLast? = some t → t + wait (ts.length - 1) ≤ now) :
    RetriesApart (ts ++ [now]) := by
  intro i t t' hi hi'
  by_cases hlt : i + 1 < ts.length
  · rw [List.getElem?_append_left (by omega)] at hi
    rw [List.getElem?_append_left hlt] at hi'
    exact h i t t' hi hi'
  · obtain ⟨hlen, -⟩ := List.getElem?_eq_some_iff.mp hi'
    rw [List.length_append, List.length_singleton] at hlen
    obtain rfl : i = ts.length - 1 := by omega
    rw [List.getElem?_append_left (by omega)] at hi
    rw [List.getElem?_append_right (by omega), show ts.length - 1 + 1 - ts.length = 0 by omega] at hi'
    obtain rfl := Option.some.inj hi'
    exact hlast t (by rw [List.getLast?_eq_getElem?]; exact hi)

/-- The accept loop is about to call `Accept`, or has seen it fail. -/
def Trying : LoopPc → Prop
  | .accepting | .failed | .backingOff => True
  | _ => False

/-- The waits so far, and where the loop is. -/
structure RetryInv (ts : List Int) (s : ServeState) : Prop where
  spaced : RetriesApart ts
  delay : (∀ i, s.loop ≠ .accepted i) → s.delay = if ts = [] then 0 else wait (ts.length - 1)
  accepted : ∀ i, s.loop = .accepted i → ts = []
  sleeping : ∀ wake, s.loop = .sleeping wake → ∀ t, ts.getLast? = some t →
    t + wait (ts.length - 1) ≤ wake
  trying : Trying s.loop → ∀ t, ts.getLast? = some t → t + wait (ts.length - 1) ≤ s.now

namespace RetryInv

variable {ts : List Int} {s s' : ServeState} {drainTimeout : Int}

/-- The other goroutines may only bring the clock forward. -/
theorem keep (h : RetryInv ts s) (hl : s'.loop = s.loop) (hd : s'.delay = s.delay)
    (hnow : s.now ≤ s'.now) : RetryInv ts s' where
  spaced := h.spaced
  delay hne := hd.trans (h.delay (hl ▸ hne))
  accepted i hi := h.accepted i (hl ▸ hi)
  sleeping wake hw := h.sleeping wake (hl ▸ hw)
  trying ht t htl := Int.le_trans (h.trying (hl ▸ ht) t htl) hnow

/-- The loop goes on without a wait. -/
theorem goto {pc : LoopPc} {now : Int} {done : Bool} (h : RetryInv ts s)
    (hs : ∀ i, s.loop ≠ .accepted i)
    (hpc : ∀ i, pc ≠ .accepted i) (hsl : ∀ wake, pc ≠ .sleeping wake)
    (ht : Trying pc → ∀ t, ts.getLast? = some t → t + wait (ts.length - 1) ≤ now) :
    RetryInv ts { s with loop := pc, now := now, acceptDone := done } where
  spaced := h.spaced
  delay _ := h.delay hs
  accepted i hi := absurd hi (hpc i)
  sleeping wake hw := absurd hw (hsl wake)
  trying := ht

/-- A wait begins. -/
theorem backoff {now : Int} (h : RetryInv ts s) (hl : s.loop = .backingOff) (hnow : s.now ≤ now) :
    RetryInv (ts ++ [now]) { s with
      loop := .sleeping (now + acceptBackoffNext s.delay), delay := acceptBackoffNext s.delay,
        now := now } := by
  have hnext : acceptBackoffNext s.delay = wait ts.length := by
    rw [h.delay (by simp [hl])]
    split
    next hnil => rw [hnil]; exact acceptBackoffNext_zero
    next hne =>
      rw [acceptBackoffNext_wait]
      have hpos := List.length_pos_iff.mpr hne
      rw [Nat.sub_add_cancel hpos]
  have hlen : (ts ++ [now]).length - 1 = ts.length := by simp
  refine ⟨h.spaced.snoc fun t ht => Int.le_trans (h.trying (by rw [hl]; trivial) t ht) hnow, fun _ => ?_, fun i hi => ?_,
    fun wake hw t ht => ?_, fun ht => ht.elim⟩
  · rw [if_neg (by simp), hlen]
    exact hnext
  · cases hi
  · cases hw
    rw [List.getLast?_concat] at ht
    obtain rfl := Option.some.inj ht
    rw [hlen, hnext]

theorem step {a : ServeAct} (h : RetryInv ts s) (hs : serveStep drainTimeout s a = some s') :
    RetryInv (retryStep ts a) s' := by
  cases serveStep_move hs with
  | accept hl =>
    exact ⟨fun i t t' hi => (by simp [retryStep] at hi), fun hne => absurd rfl (hne s.conns), fun _ _ => rfl,
      fun wake hw => (by cases hw), fun ht => ht.elim⟩
  | acceptErr hl => exact h.goto (by simp [hl]) (by simp) (by simp) fun _ => h.trying (by rw [hl]; trivial)
  | look hl =>
    refine h.goto (by simp [hl]) (by intro i; split <;> simp) (by intro w; split <;> simp) fun _ => ?_
    exact h.trying (by rw [hl]; trivial)
  | @start i hl =>
    have hnil := h.accepted i hl
    subst hnil
    exact ⟨fun i t t' hi => (by simp [retryStep] at hi), fun _ => rfl, fun i hi => (by cases hi),
      fun wake hw => (by cases hw), fun _ t ht => (by simp [retryStep] at ht)⟩
  | leave hl => exact h.goto (by simp [hl]) (by simp) (by simp) fun ht => ht.elim
  | backoff hl hnow => exact h.backoff hl hnow
  | timer hl hnow hwake =>
    exact h.goto (by simp [hl]) (by simp) (by simp) fun _ t ht => Int.le_trans (h.sleeping _ hl t ht) hwake
  | interrupt hl => exact h.goto (by simp [hl]) (by simp) (by simp) fun ht => ht.elim
  | arm _ hnow | forced _ hnow => exact h.keep rfl rfl hnow
  | _ => exact h.keep rfl rfl (Int.le_refl _)

end RetryInv

theorem serve_retryInv {drainTimeout : Int} {as : List ServeAct} {s : ServeState}
    (h : (serve drainTimeout).exec as = some s) : RetryInv (retries as) s := by
  refine Machine.invariant (I := fun as s => RetryInv (retries as) s) ?_ ?_ h
  · exact ⟨fun i t t' hi => (by simp [retries] at hi), fun _ => rfl, fun _ _ => rfl, fun wake hw => (by cases hw),
      fun _ t ht => (by simp [retries] at ht)⟩
  · intro as s a s' _ hi hs
    rw [retries_snoc]
    exact hi.step hs

/-- Past the first nine, the waits are `acceptBackoffMax` apart. -/
theorem RetriesApart.elapsed {ts : List Int} (h : RetriesApart ts) {first : Int}
    (hf : ts[0]? = some first) (i : Nat) {t : Int}
    (ht : ts[i]? = some t) : first + ((i - 8 : Nat) : Int) * acceptBackoffMax ≤ t := by
  induction i generalizing t with
  | zero =>
    obtain rfl := Option.some.inj (hf.symm.trans ht)
    simp
  | succ i ih =>
    obtain ⟨hlen, -⟩ := List.getElem?_eq_some_iff.mp ht
    have hlt : i < ts.length := by omega
    have hprev := ih (List.getElem?_eq_getElem hlt)
    have hstep := h i _ t (List.getElem?_eq_getElem hlt) ht
    by_cases hi : 8 ≤ i
    · rw [wait_eq_max hi] at hstep
      rw [show i + 1 - 8 = (i - 8) + 1 by omega, Int.natCast_succ, Int.add_mul, Int.one_mul]
      omega
    · have := wait_nonneg i
      rw [show i + 1 - 8 = 0 by omega, show i - 8 = 0 by omega] at *
      omega

/-- Errors of `Accept` in a row are retried after the waits of the schedule:
however long they last, there are at most nine retries and one more for each
`acceptBackoffMax`. -/
theorem retries_limited {drainTimeout : Int} {as : List ServeAct} {s : ServeState}
    (h : (serve drainTimeout).exec as = some s) :
    RetriesApart (retries as) ∧ ∀ first last, (retries as).head? = some first →
      (retries as).getLast? = some last →
      (retries as).length ≤ 9 + (last - first) / acceptBackoffMax := by
  have hsp := (serve_retryInv h).spaced
  refine ⟨hsp, fun first last hf hl => ?_⟩
  rw [List.head?_eq_getElem?] at hf
  rw [List.getLast?_eq_getElem?] at hl
  have hle := hsp.elapsed hf _ hl
  have hmax : acceptBackoffMax = 1000000000 := rfl
  rw [hmax] at hle ⊢
  omega

/-- Three errors in a row: after 5 ms, and after 10 ms more. -/
def threeErrors : List ServeAct :=
  [.acceptErr, .loop, .backoff 0, .timer 5000000, .acceptErr, .loop, .backoff 5000000,
    .timer 15000000, .acceptErr,
    .loop, .backoff 15000000]

theorem retries_limited_threeErrors : ∃ s, (serve 10).exec threeErrors = some s ∧
    retries threeErrors = [0, 5000000, 15000000] ∧ RetriesApart (retries threeErrors) := by
  obtain ⟨s, hs⟩ : ∃ s, (serve 10).exec threeErrors = some s := ⟨_, rfl⟩
  exact ⟨s, hs, by decide, (retries_limited hs).1⟩

end SP.Proof.Server
