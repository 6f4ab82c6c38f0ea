import SpnegoProxy.Proof.Tunnel.Clock
import SpnegoProxy.Proof.Tunnel.Steps

/-!
# The halves of a tunnel use its clock by its methods only

Every run of a tunnel is a run of its clock, with the two halves as the
goroutines. A half in `touch` or `quietForSince` takes the step that the method
takes, and where it goes on to another call at once the clock takes two. Every
other step of a half leaves the clock alone.
-/

namespace SP.Proof.Clock

open SP.Impl SP.Spec

/-- Where a half is in the clock's methods. -/
def clockPc : HalfPc → ClockPc
  | .quiet _ q => .quiet q
  | .touch _ t => .touch t
  | _ => .outside

/-- The clock of a tunnel, with its halves as the goroutines. -/
structure Tracks (s : TunnelState) (k : ClockState Dir) : Prop where
  last : k.last = s.last
  now : k.now = s.now
  pc : ∀ d, k.pc d = clockPc (s.half d).pc

/-- The clock gets to where it is in `s`. -/
def Follows (k : ClockState Dir) (s : TunnelState) : Prop :=
  ∃ as k', (tunnelClock Dir).execFrom k as = some k' ∧ Tracks s k'

/-- A half in none of the methods, or at the start of one. -/
def Enters (pc : HalfPc) : Prop :=
  clockPc pc = .outside ∨ clockPc pc = .touch .sample ∨ clockPc pc = .quiet .load

section

variable {cfg : TunnelConfig} {s s' : TunnelState} {k k₁ : ClockState Dir} {d : Dir} {h : Half}

/-! ## The clock moves with a half -/

theorem Tracks.follows (hk : Tracks s k) : Follows k s := ⟨[], k, rfl, hk⟩

theorem Follows.after {a : ClockAct Dir} (hstep : clockStep k a = some k₁) (hf : Follows k₁ s) :
    Follows k s := by
  obtain ⟨as, k', has, hk'⟩ := hf
  refine ⟨a :: as, k', ?_, hk'⟩
  rw [Machine.execFrom, show (tunnelClock Dir).step k a = some k₁ from hstep]
  exact has

/-- The goroutine `d` moves as the half `d` does. -/
theorem Tracks.move {pc : ClockPc} (hk : Tracks s k) (hpc : k₁.pc = Function.update k.pc d pc)
    (hh : s'.half = Function.update s.half d h) (heq : pc = clockPc h.pc)
    (hlast : k₁.last = s'.last) (hnow : k₁.now = s'.now) : Tracks s' k₁ := by
  refine ⟨hlast, hnow, fun e => ?_⟩
  rw [hpc, hh]
  by_cases he : e = d
  · rw [he, Function.update_self, Function.update_self, heq]
  · rw [Function.update_of_ne he, Function.update_of_ne he, hk.pc e]

/-- A half and its call take a step together. -/
theorem Tracks.step {pc : ClockPc} {a : ClockAct Dir} (hk : Tracks s k)
    (hstep : clockStep k a = some k₁)
    (hpc : k₁.pc = Function.update k.pc d pc) (hh : s'.half = Function.update s.half d h)
    (heq : pc = clockPc h.pc) (hlast : k₁.last = s'.last) (hnow : k₁.now = s'.now) : Follows k s' :=
  .after hstep (hk.move hpc hh heq hlast hnow).follows

/-- A half outside the methods calls one of them, or goes on outside. -/
theorem Tracks.enter (hk : Tracks s k) (hout : clockPc (s.half d).pc = .outside)
    (hh : s'.half = Function.update s.half d h) (he : Enters h.pc) (hlast : s'.last = s.last)
    (hnow : s'.now = s.now) : Follows k s' := by
  have hpc : k.pc d = .outside := (hk.pc d).trans hout
  have hl : k.last = s'.last := hk.last.trans hlast.symm
  have hn : k.now = s'.now := hk.now.trans hnow.symm
  rcases he with he | he | he
  · refine (hk.move ?_ hh he.symm hl hn).follows
    rw [← hpc, Function.update_eq_self]
  · have hstep : clockStep k (.touch d) = some (k.goto d (.touch .sample) []) := if_pos hpc
    exact hk.step hstep rfl hh he.symm hl hn
  · have hstep : clockStep k (.quietForSince d) = some (k.goto d (.quiet .load) []) := if_pos hpc
    exact hk.step hstep rfl hh he.symm hl hn

/-- A call returns, and the half goes on. -/
theorem Tracks.leave (hk : Tracks s k) (hstep : clockStep k (.step d) = some k₁)
    (hpc : k₁.pc = Function.update k.pc d .outside) (hh : s'.half = Function.update s.half d h)
    (he : Enters h.pc) (hlast : k₁.last = s'.last) (hnow : k₁.now = s'.now) : Follows k s' := by
  -- the tunnel with the half `d` outside, between the return and what follows it
  let s₁ : TunnelState := { s' with half := Function.update s.half d { h with pc := .reading } }
  have hk₁ : Tracks s₁ k₁ := hk.move hpc rfl rfl hlast hnow
  refine .after hstep (hk₁.enter (d := d) ?_ ?_ he rfl rfl)
  · simp only [s₁, Function.update_self]
    rfl
  · rw [hh, Function.update_idem]

/-! ## The steps of a half -/

theorem decideQuiet_enters (elapsed quiet : Int) (c : QuietAt) :
    Enters (decideQuiet cfg d elapsed quiet c).1 := by
  cases c <;> simp only [decideQuiet] <;> split_ifs <;> simp [Enters, clockPc]

theorem resumes_enters {c : TouchAt} {pc : HalfPc} (hr : Tunnel.Resumes c pc) : Enters pc := by
  cases hr <;> simp [Enters, clockPc]

theorem goes_enters {pc pc' : HalfPc} (hg : Tunnel.Goes pc pc') (hout : clockPc pc = .outside) :
    Enters pc' := by
  cases hg with
  | transportNone hr => exact resumes_enters hr
  | asks | asksAgain | arms | armsRead | handsOn | swaps | swapsAgain => cases hout
  | _ => simp [Enters, clockPc]

theorem accepts_enters {w : Writing} {n : Nat} {pc pc' : HalfPc} (ha : Tunnel.Accepts w n pc pc') :
    Enters pc' := by
  cases ha <;> exact .inl rfl

theorem read_enters (kind : SourceKind) (src : Source) : Enters (src.read cfg kind).2 := by
  rw [Source.read.eq_def]
  split
  · exact .inl rfl
  · split <;> exact .inl rfl

theorem deliver_enters (src : Source) {n : Nat} {err : Option NetErr}
    (hn : err = some .eof → src.rest.length ≤ n) : Enters (src.deliver cfg n err hn).2 := by
  rw [Source.deliver]
  split <;> exact .inl rfl

/-- A half outside the methods leaves the clock alone. -/
theorem moves_enters (hm : Tunnel.Moves cfg s d s') (hout : clockPc (s.half d).pc = .outside) :
    s'.last = s.last ∧ s'.now = s.now ∧ ∃ h, s'.half = Function.update s.half d h ∧ Enters h.pc := by
  cases hm with
  | goes hg => exact ⟨rfl, rfl, _, rfl, goes_enters hg hout⟩
  | samples hpc | times hpc | touches hpc | cuts hpc | rearms hpc =>
    rw [hpc] at hout
    cases hout
  | reads => exact ⟨rfl, rfl, _, rfl, read_enters _ _⟩
  | delivers => exact ⟨rfl, rfl, _, rfl, deliver_enters _ _⟩
  | accepts _ ha => exact ⟨rfl, rfl, _, rfl, accepts_enters ha⟩
  | counts =>
    refine ⟨rfl, rfl, _, rfl, .inl ?_⟩
    dsimp only
    split <;> rfl
  | ends => exact ⟨rfl, rfl, _, rfl, .inl rfl⟩
  | closes => exact ⟨rfl, rfl, _, rfl, .inl rfl⟩
  | closesWrite => exact ⟨rfl, rfl, _, rfl, .inl rfl⟩

/-- A step of `quietForSince`. -/
theorem quiet_follows {c : QuietAt} {q : QuietPc} (hpc : (s.half d).pc = .quiet c q)
    (hs : halfStep cfg s d = some s') (hk : Tracks s k) : Follows k s' := by
  have hkpc : k.pc d = .quiet q := by rw [hk.pc d, hpc]; rfl
  cases q with
  | load =>
    simp only [halfStep, hpc] at hs
    obtain rfl := Option.some.inj hs
    have hstep : clockStep k (.step d) = some (k.goto d (.quiet (.sample k.last)) []) :=
      by rw [clockStep, hkpc]
    exact hk.step hstep rfl rfl (by rw [hk.last]; rfl) hk.last hk.now
  | sample last =>
    simp only [halfStep, hpc] at hs
    cases hs
  | reload last elapsed =>
    simp only [halfStep, hpc, ← hk.last] at hs
    split at hs
    next hlast =>
      obtain rfl := Option.some.inj hs
      have hstep : clockStep k (.step d) = some (k.goto d .outside [.quiet d (elapsed - last)]) := by
        simp only [clockStep, hkpc, if_pos hlast]
      exact hk.leave hstep rfl rfl (decideQuiet_enters elapsed (elapsed - last) c) hk.last hk.now
    next hlast =>
      obtain rfl := Option.some.inj hs
      have hstep : clockStep k (.step d) = some (k.goto d (.quiet .load) []) := by
        simp only [clockStep, hkpc, if_neg hlast]
      exact hk.step hstep rfl rfl rfl hk.last hk.now

/-- A step of `touchAt`. -/
theorem touch_follows {c : TouchAt} {t : TouchPc} (hpc : (s.half d).pc = .touch c t)
    (hs : halfStep cfg s d = some s') (hk : Tracks s k) : Follows k s' := by
  have hkpc : k.pc d = .touch t := by rw [hk.pc d, hpc]; rfl
  have hleave : Enters (afterTouch (cfg.dest d) c) := resumes_enters (Tunnel.afterTouch_resumes _ c)
  cases t with
  | sample =>
    simp only [halfStep, hpc] at hs
    cases hs
  | load now =>
    simp only [halfStep, hpc, ← hk.last] at hs
    split at hs
    next hlt =>
      obtain rfl := Option.some.inj hs
      have hstep : clockStep k (.step d) = some (k.goto d (.touch (.swap now k.last)) []) := by
        simp only [clockStep, hkpc, if_pos hlt]
      exact hk.step hstep rfl rfl rfl hk.last hk.now
    next hle =>
      obtain rfl := Option.some.inj hs
      have hstep : clockStep k (.step d) = some (k.goto d .outside []) :=
        by simp only [clockStep, hkpc, if_neg hle]
      exact hk.leave hstep rfl rfl hleave hk.last hk.now
  | swap now last =>
    simp only [halfStep, hpc, ← hk.last] at hs
    split at hs
    next hlast =>
      obtain rfl := Option.some.inj hs
      have hstep : clockStep k (.step d) = some { k.goto d .outside [.published d now k.now] with last := now } := by
        simp only [clockStep, hkpc, if_pos hlast]
      exact hk.leave hstep rfl rfl hleave rfl hk.now
    next hlast =>
      obtain rfl := Option.some.inj hs
      have hstep : clockStep k (.step d) = some (k.goto d (.touch (.load now)) []) := by
        simp only [clockStep, hkpc, if_neg hlast]
      exact hk.step hstep rfl rfl rfl hk.last hk.now

/-- A reading of the time. -/
theorem time_follows {now : Int} (hs : tunnelStep cfg s (.time d now) = some s') (hk : Tracks s k) :
    Follows k s' := by
  obtain ⟨hle, hs⟩ := Option.ite_none_right_eq_some.mp hs
  have htick : clockStep k (.tick now) = some { k with now := now } := if_pos (hk.now ▸ hle)
  have hk₁ : Tracks { s with now := now } { k with now := now } := ⟨hk.last, rfl, hk.pc⟩
  refine .after htick ?_
  split at hs
  next c last hpc =>
    obtain rfl := Option.some.inj hs
    have hkpc : k.pc d = .quiet (.sample last) := by rw [hk.pc d, hpc]; rfl
    have hstep : clockStep { k with now := now } (.step d) =
        some { k.goto d (.quiet (.reload last now)) [.sampled d now k.last] with now := now } := by
      simp only [clockStep, hkpc, ClockState.goto]
    exact hk₁.step hstep rfl rfl rfl hk.last rfl
  next c hpc =>
    obtain rfl := Option.some.inj hs
    have hkpc : k.pc d = .touch .sample := by rw [hk.pc d, hpc]; rfl
    have hstep : clockStep { k with now := now } (.step d) =
        some { k.goto d (.touch (.load now)) [.touched d now] with now := now } := by
      simp only [clockStep, hkpc, ClockState.goto]
    exact hk₁.step hstep rfl rfl rfl hk.last rfl
  next => cases hs

/-- A half in a method takes no steps but those of the method. -/
theorem inside_follows {a : TunnelAct} (hin : clockPc (s.half (Tunnel.actor a)).pc ≠ .outside)
    (hs : tunnelStep cfg s a = some s') (hk : Tracks s k) : Follows k s' := by
  cases a with
  | step d =>
    cases hpc : (s.half d).pc with
    | quiet c q => exact quiet_follows hpc hs hk
    | touch c t => exact touch_follows hpc hs hk
    | _ => exact absurd (congrArg clockPc hpc) hin
  | time d now => exact time_follows hs hk
  | _ =>
    simp only [tunnelStep, Tunnel.actor] at hs hin
    split at hs <;> simp_all [clockPc]

theorem tunnelStep_follows {a : TunnelAct} (hs : tunnelStep cfg s a = some s') (hk : Tracks s k) :
    Follows k s' := by
  by_cases hout : clockPc (s.half (Tunnel.actor a)).pc = .outside
  · obtain ⟨hlast, hnow, h, hh, he⟩ := moves_enters (Tunnel.tunnelStep_moves hs) hout
    exact hk.enter hout hh he hlast hnow
  · exact inside_follows hout hs hk

end

/-! ## Whole runs -/

variable {cfg : TunnelConfig} {src : Dir → SourceStart} {s : TunnelState} {as : List TunnelAct}

/-- Both halves begin with `clock.remaining()`. -/
theorem init_follows (src : Dir → SourceStart) : Follows (newTunnelClock Dir) (.init src) := by
  refine ⟨[.quietForSince .up, .quietForSince .down], _, rfl, rfl, rfl, fun d => ?_⟩
  cases d <;> rfl

/-- Every run of a tunnel is a run of its clock. -/
theorem tunnel_tunnelClock (h : (Tunnel.tunnel cfg src).exec as = some s) :
    ∃ bs k, (tunnelClock Dir).exec bs = some k ∧ Tracks s k := by
  refine Machine.invariant (I := fun _ s => ∃ bs k, (tunnelClock Dir).exec bs = some k ∧ Tracks s k) ?_ ?_ h
  · exact init_follows src
  · rintro as s a s' - ⟨bs, k, hk, ht⟩ hs
    obtain ⟨cs, k', hk', ht'⟩ := tunnelStep_follows hs ht
    refine ⟨bs ++ cs, k', ?_, ht'⟩
    rw [Machine.exec, Machine.execFrom_append,
      show (tunnelClock Dir).execFrom _ bs = some k from hk]
    exact hk'

end SP.Proof.Clock
