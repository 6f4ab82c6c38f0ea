import SpnegoProxy.Spec.TunnelClock

/-!
# The clock of a tunnel, under any interleaving

A swap stores a time only over an earlier one, so `last` never decreases, and
a `touchAt` returns only when `last` has reached its time. `quietForSince`
loads `last` twice with a reading of the time between: if both loads are
equal, `last` held that value when the time was read.
-/

namespace SP.Proof.Clock

open SP.Impl SP.Spec

variable {ι : Type} [DecidableEq ι]

/-! ## What a step does -/

/-- The moves that a goroutine makes unseen. -/
inductive Goes (last : Int) : ClockPc → ClockPc → Prop where
  | touch : Goes last .outside (.touch .sample)
  | quiet : Goes last .outside (.quiet .load)
  | load {now : Int} (h : last < now) : Goes last (.touch (.load now)) (.touch (.swap now last))
  /-- `last` has reached `now`: the call returns. -/
  | reached {now : Int} (h : now ≤ last) : Goes last (.touch (.load now)) .outside
  | lost {now old : Int} : Goes last (.touch (.swap now old)) (.touch (.load now))
  | first : Goes last (.quiet .load) (.quiet (.sample last))
  | changed {old elapsed : Int} : Goes last (.quiet (.reload old elapsed)) (.quiet .load)

/-- What a step can do. -/
inductive Moves (s : ClockState ι) : ClockState ι → Prop where
  | tick {now : Int} (h : s.now ≤ now) : Moves s { s with now := now }
  | goes {i : ι} {pc : ClockPc} (h : Goes s.last (s.pc i) pc) : Moves s (s.goto i pc [])
  | touches {i : ι} {t : Int} (h : s.pc i = .outside ∨ s.pc i = .touch .sample) :
      Moves s (s.goto i (.touch (.load t)) [.touched i t])
  | publishes {i : ι} {t : Int} (h : s.pc i = .touch (.swap t s.last)) :
      Moves s { s.goto i .outside [.published i t s.now] with last := t }
  | samples {i : ι} {ℓ : Int} (h : s.pc i = .quiet (.sample ℓ)) :
      Moves s (s.goto i (.quiet (.reload ℓ s.now)) [.sampled i s.now s.last])
  | returns {i : ι} {el : Int} (h : s.pc i = .quiet (.reload s.last el)) :
      Moves s (s.goto i .outside [.quiet i (el - s.last)])

section

variable {s s' : ClockState ι} {a : ClockAct ι} {i : ι}

theorem call_some {pc : ClockPc} {es : List (ClockEvent ι)} (h : s.call i pc es = some s') :
    s.pc i = .outside ∧ s' = s.goto i pc es := by
  obtain ⟨hpc, hs⟩ := Option.ite_none_right_eq_some.mp h
  exact ⟨hpc, (Option.some.inj hs).symm⟩

theorem clockStep_moves (h : clockStep s a = some s') : Moves s s' := by
  cases a with
  | tick now =>
    obtain ⟨hnow, hs⟩ := Option.ite_none_right_eq_some.mp h
    obtain rfl := Option.some.inj hs
    exact .tick hnow
  | touch i =>
    obtain ⟨hpc, rfl⟩ := call_some h
    exact .goes (hpc ▸ .touch)
  | touchAt i elapsed =>
    obtain ⟨hpc, rfl⟩ := call_some h
    exact .touches (.inl hpc)
  | quietForSince i =>
    obtain ⟨hpc, rfl⟩ := call_some h
    exact .goes (hpc ▸ .quiet)
  | step i =>
    simp only [clockStep] at h
    split at h
    next => cases h
    next hpc => cases h; exact .touches (.inr hpc)
    next now hpc =>
      split at h
      next hlt => cases h; exact .goes (hpc ▸ .load hlt)
      next hle => cases h; exact .goes (hpc ▸ .reached (Int.not_lt.mp hle))
    next now last hpc =>
      split at h
      next heq => cases h; exact .publishes (heq ▸ hpc)
      next => cases h; exact .goes (hpc ▸ .lost)
    next hpc => cases h; exact .goes (hpc ▸ .first)
    next last hpc => cases h; exact .samples hpc
    next last elapsed hpc =>
      split at h
      next heq => cases h; exact heq ▸ .returns (heq ▸ hpc)
      next => cases h; exact .goes (hpc ▸ .changed)

end

/-! ## What is seen -/

section Trace

variable {tr es : List (ClockEvent ι)} {i : ι} {t : Int} {e : ClockEvent ι}

theorem lastSample_append (h : ∀ e ∈ es, sampleOf i e = none) :
    lastSample i (tr ++ es) = lastSample i tr := by
  have hes : es.filterMap (sampleOf i) = [] := List.filterMap_eq_nil_iff.mpr h
  simp [lastSample, hes]

theorem lastSample_sampled (el ℓ : Int) : lastSample i (tr ++ [.sampled i el ℓ]) = some (el, ℓ) := by
  simp [lastSample, sampleOf]

theorem mem_of_lastSample {el ℓ : Int} (h : lastSample i tr = some (el, ℓ)) :
    .sampled i el ℓ ∈ tr := by
  obtain ⟨e, he, hs⟩ := List.mem_filterMap.mp (List.mem_of_getLast? h)
  cases e with
  | sampled j el' ℓ' =>
    obtain ⟨rfl, rfl, rfl⟩ : j = i ∧ el' = el ∧ ℓ' = ℓ := by simpa [sampleOf] using hs
    exact he
  | _ => cases hs

omit [DecidableEq ι] in
theorem touched_append (h : Touched tr t) : Touched (tr ++ es) t := by
  obtain ⟨i, hi⟩ := h
  exact ⟨i, List.mem_append_left _ hi⟩

theorem quietsSampled_snoc (h : QuietsSampled tr)
    (he : ∀ i v, e = .quiet i v → ∃ el ℓ, lastSample i tr = some (el, ℓ) ∧ v = el - ℓ) :
    QuietsSampled (tr ++ [e]) := by
  intro pre post i v hsplit
  rcases snoc_split.mp hsplit with ⟨rfl, rfl, -⟩ | ⟨post', -, htr⟩
  · exact he i v rfl
  · exact h pre post' i v htr

end Trace

/-! ## Where the goroutines are -/

/-- What a goroutine has seen of the clock that holds `last`. -/
def Placed (last : Int) (tr : List (ClockEvent ι)) (i : ι) : ClockPc → Prop
  | .touch (.load t) => Touched tr t
  | .touch (.swap t old) => Touched tr t ∧ old < t
  | .quiet (.sample old) => old ≤ last
  -- Between the loads `last` was no less than the first and no more than the second.
  | .quiet (.reload old el) => ∃ ℓ, lastSample i tr = some (el, ℓ) ∧ old ≤ ℓ ∧ ℓ ≤ last
  | _ => True

/-- What holds after every run. -/
structure ClockInv (s : ClockState ι) : Prop where
  placed : ∀ i, Placed s.last s.trace i (s.pc i)
  /-- `last` is its first value or a touched time. -/
  held : s.last = 0 ∨ Touched s.trace s.last
  /-- A touched time is recorded, or its call has not returned. -/
  recorded : ∀ t, Touched s.trace t → t ≤ s.last ∨ ∃ i, TouchesAt t (s.pc i)
  quiets : QuietsSampled s.trace
  inTime : PublishedInTime s.trace → s.last ≤ s.now ∧ ∀ i el ℓ, .sampled i el ℓ ∈ s.trace → ℓ ≤ el

section

variable {s s' : ClockState ι} {i : ι} {pc : ClockPc} {last : Int} {es : List (ClockEvent ι)}

/-- What others have seen stays true while `last` grows. -/
theorem Placed.mono {last' : Int} {tr : List (ClockEvent ι)} (h : Placed last tr i pc)
    (hle : last ≤ last') (hes : ∀ e ∈ es, sampleOf i e = none) : Placed last' (tr ++ es) i pc := by
  rcases pc with - | ⟨- | t | ⟨t, old⟩⟩ | ⟨- | old | ⟨old, el⟩⟩
  · trivial
  · trivial
  · have h : Touched tr t := h
    exact touched_append h
  · exact ⟨touched_append h.1, h.2⟩
  · trivial
  · have h : old ≤ last := h
    show old ≤ last'
    omega
  · obtain ⟨ℓ, hs, hold, hnew⟩ := h
    exact ⟨ℓ, (lastSample_append hes).trans hs, hold, by omega⟩

/-- A step of the goroutine `i` to `pc`. -/
theorem ClockInv.placed_goto {last' : Int} (h : ClockInv s) (hle : s.last ≤ last')
    (hi : Placed last' (s.trace ++ es) i pc) (hes : ∀ j, j ≠ i → ∀ e ∈ es, sampleOf j e = none) :
    ∀ j, Placed last' (s.goto i pc es).trace j ((s.goto i pc es).pc j) := by
  intro j
  by_cases hj : j = i
  · subst hj
    simpa [ClockState.goto] using hi
  · simpa [ClockState.goto, Function.update_of_ne hj] using (h.placed j).mono hle (hes j hj)

theorem ClockInv.recorded_goto {last' : Int} (h : ClockInv s) (hle : s.last ≤ last')
    (hi : ∀ t, TouchesAt t (s.pc i) → t ≤ last' ∨ TouchesAt t pc)
    (hes : ∀ j t, .touched j t ∈ es → TouchesAt t pc) :
    ∀ t, Touched (s.goto i pc es).trace t → t ≤ last' ∨ ∃ j, TouchesAt t ((s.goto i pc es).pc j) := by
  rintro t ⟨j, hj⟩
  have hself {t : Int} (ht : TouchesAt t pc) : ∃ j, TouchesAt t ((s.goto i pc es).pc j) :=
    ⟨i, by simpa [ClockState.goto] using ht⟩
  rcases List.mem_append.mp hj with hj | hj
  · rcases h.recorded t ⟨j, hj⟩ with ht | ⟨k, hk⟩
    · exact .inl (Int.le_trans ht hle)
    · by_cases hki : k = i
      · subst hki
        exact (hi t hk).imp_right hself
      · exact .inr ⟨k, by simpa [ClockState.goto, Function.update_of_ne hki] using hk⟩
  · exact .inr (hself (hes j t hj))

/-- While no time is published before it has come, no sample is before what `last` holds. -/
theorem ClockInv.inTime_snoc {e : ClockEvent ι} (h : ClockInv s)
    (hp : PublishedInTime (s.trace ++ [e]))
    (he : ∀ i el ℓ, e = .sampled i el ℓ → s.last ≤ s.now → ℓ ≤ el) :
    s.last ≤ s.now ∧ ∀ i el ℓ, .sampled i el ℓ ∈ s.trace ++ [e] → ℓ ≤ el := by
  obtain ⟨hlast, hsamples⟩ := h.inTime fun j t now hj => hp j t now (List.mem_append_left _ hj)
  refine ⟨hlast, fun j el ℓ hj => ?_⟩
  rcases List.mem_append.mp hj with hj | hj
  · exact hsamples j el ℓ hj
  · exact he j el ℓ (List.mem_singleton.mp hj).symm hlast

theorem ClockInv.placed_at (h : ClockInv s) (hpc : s.pc i = pc) : Placed s.last s.trace i pc :=
  hpc ▸ h.placed i

/-- A swap stores a later time. -/
theorem Moves.last_le (h : Moves s s') (hs : ClockInv s) : s.last ≤ s'.last := by
  cases h with
  | publishes hpc => exact Int.le_of_lt (hs.placed_at hpc).2
  | _ => exact Int.le_refl _

theorem Goes.placed {pc' : ClockPc} {tr : List (ClockEvent ι)} (h : Goes last pc pc')
    (hp : Placed last tr i pc) : Placed last tr i pc' := by
  cases h with
  | load h => exact ⟨hp, h⟩
  | lost => exact hp.1
  | first => exact Int.le_refl _
  | _ => trivial

theorem Goes.recorded {pc' : ClockPc} {t : Int} (h : Goes last pc pc') (ht : TouchesAt t pc) :
    t ≤ last ∨ TouchesAt t pc' := by
  cases h with
  | load => exact .inr ht
  | reached h =>
    obtain rfl : _ = t := ht
    exact .inl h
  | lost => exact .inr ht
  | _ => exact ht.elim

theorem Moves.inv (h : Moves s s') (hs : ClockInv s) : ClockInv s' := by
  have hle := h.last_le hs
  cases h with
  | tick hnow =>
    refine ⟨hs.placed, hs.held, hs.recorded, hs.quiets, fun hp => ?_⟩
    obtain ⟨hlast, hsamples⟩ := hs.inTime hp
    exact ⟨Int.le_trans hlast hnow, hsamples⟩
  | @goes i pc hg =>
    have htr : (s.goto i pc []).trace = s.trace := List.append_nil _
    refine ⟨?_, ?_, ?_, ?_, ?_⟩
    · refine hs.placed_goto (Int.le_refl _) ?_ (by simp)
      rw [List.append_nil]
      exact hg.placed (hs.placed i)
    · rw [htr]
      exact hs.held
    · exact hs.recorded_goto (Int.le_refl _) (fun t => hg.recorded) (by simp)
    · rw [htr]
      exact hs.quiets
    · rw [htr]
      exact hs.inTime
  | @touches i t hpc =>
    refine ⟨?_, hs.held.imp_right touched_append, ?_,
      quietsSampled_snoc hs.quiets (by simp), fun hp => hs.inTime_snoc hp (by simp)⟩
    · exact hs.placed_goto (Int.le_refl _) ⟨i, by simp⟩ (by simp [sampleOf])
    · refine hs.recorded_goto (Int.le_refl _) (fun t' ht => ?_) (by simp [TouchesAt])
      rcases hpc with hpc | hpc <;> rw [hpc] at ht <;> exact ht.elim
  | @publishes i t hpc =>
    have hpl := hs.placed_at hpc
    refine ⟨?_, .inr (touched_append hpl.1), ?_,
      quietsSampled_snoc hs.quiets (by simp), fun hp => ?_⟩
    · exact hs.placed_goto hle trivial (by simp [sampleOf])
    · refine hs.recorded_goto hle (fun t' ht => .inl ?_) (by simp)
      rw [hpc] at ht
      exact Int.le_of_eq (Eq.symm ht)
    · exact ⟨hp i t s.now (by simp [ClockState.goto]), (hs.inTime_snoc hp (by simp)).2⟩
  | @samples i old hpc =>
    have hpl := hs.placed_at hpc
    refine ⟨?_, hs.held.imp_right touched_append, ?_,
      quietsSampled_snoc hs.quiets (by simp), fun hp => hs.inTime_snoc hp ?_⟩
    · refine hs.placed_goto (Int.le_refl _) ⟨s.last, lastSample_sampled _ _, hpl,
      Int.le_refl _⟩ fun j hj => ?_
      simp [sampleOf, Ne.symm hj]
    · refine hs.recorded_goto (Int.le_refl _) (fun t' ht => ?_) (by simp)
      rw [hpc] at ht
      exact ht.elim
    · rintro j el ℓ ⟨⟩ hlast
      exact hlast
  | @returns i el hpc =>
    obtain ⟨ℓ, hℓ, hold, hnew⟩ := hs.placed_at hpc
    refine ⟨?_, hs.held.imp_right touched_append, ?_, quietsSampled_snoc hs.quiets ?_,
      fun hp => hs.inTime_snoc hp (by simp)⟩
    · exact hs.placed_goto (Int.le_refl _) trivial (by simp [sampleOf])
    · refine hs.recorded_goto (Int.le_refl _) (fun t' ht => ?_) (by simp)
      rw [hpc] at ht
      exact ht.elim
    · rintro j v ⟨⟩
      exact ⟨el, ℓ, hℓ, by omega⟩

end

/-! ## Runs -/

section

variable {as : List (ClockAct ι)} {s : ClockState ι}

theorem clock_inv (h : (tunnelClock ι).exec as = some s) : ClockInv s := by
  refine Machine.invariant (I := fun _ s => ClockInv s) ?_ (fun _ hs hstep => (clockStep_moves hstep).inv hs) h
  refine ⟨fun _ => trivial, .inl rfl, ?_, ?_, fun _ => ⟨Int.le_refl _, ?_⟩⟩
  · rintro t ⟨i, hi⟩
    cases hi
  · intro pre post i v hsplit
    simp [tunnelClock, newTunnelClock] at hsplit
  · intro i el ℓ hi
    cases hi

theorem last_mono {bs : List (ClockAct ι)} {s' : ClockState ι}
    (h : (tunnelClock ι).exec as = some s)
    (h' : (tunnelClock ι).execFrom s bs = some s') : s.last ≤ s'.last := by
  suffices ClockInv s' ∧ s.last ≤ s'.last from this.2
  refine Machine.invariantFrom (I := fun _ s' => ClockInv s' ∧ s.last ≤ s'.last) ⟨clock_inv h, Int.le_refl _⟩ ?_ h'
  intro bs t a t' _ ⟨ht, hle⟩ hstep
  have hm := clockStep_moves hstep
  exact ⟨hm.inv ht, Int.le_trans hle (hm.last_le ht)⟩

/-- After every run of any number of goroutines. -/
theorem tunnelClock_linearised (h : (tunnelClock ι).exec as = some s) : Linearised s := by
  have hs := clock_inv h
  refine ⟨fun bs s' => last_mono h, fun hdone => ⟨hs.held, ?_⟩, hs.quiets, fun hp i v hv => ?_⟩
  · rintro t (rfl | ht)
    · exact last_mono (show (tunnelClock ι).exec [] = some (tunnelClock ι).init from rfl) h
    · rcases hs.recorded t ht with hle | ⟨i, hi⟩
      · exact hle
      · exact absurd hi (hdone i t)
  · obtain ⟨pre, post, htr⟩ := List.append_of_mem hv
    obtain ⟨el, ℓ, hℓ, rfl⟩ := hs.quiets pre post i v htr
    have hmem : .sampled i el ℓ ∈ s.trace := by
      rw [htr]
      exact List.mem_append_left _ (mem_of_lastSample hℓ)
    have hle := (hs.inTime hp).2 i el ℓ hmem
    omega

end

/-- A time is read, but published only after a later one; meanwhile another
goroutine samples the clock twice, since `last` changes between its loads. -/
def lateRun : List (ClockAct Nat) :=
  [.tick 1, .touch 0, .step 0, .step 0, .quietForSince 2, .step 2, .tick 2, .touch 1, .step 1,
    .step 1, .step 1,
    .step 2, .step 2, .tick 5, .step 0, .step 0, .step 2, .step 2, .step 2]

theorem tunnelClock_linearised_lateRun :
    ∃ s, (tunnelClock Nat).exec lateRun = some s ∧ s.last = 2 ∧ .quiet 2 3 ∈ s.trace ∧
      Linearised s := by
  have hrun : ((tunnelClock Nat).exec lateRun).map (fun s => (s.last, decide (.quiet 2 3 ∈ s.trace))) =
      some (2, true) := by decide +kernel
  obtain ⟨s, hs, he⟩ := Option.map_eq_some_iff.mp hrun
  obtain ⟨hlast, hq⟩ : s.last = 2 ∧ .quiet 2 3 ∈ s.trace := by simpa using he
  exact ⟨s, hs, hlast, hq, tunnelClock_linearised hs⟩

end SP.Proof.Clock
