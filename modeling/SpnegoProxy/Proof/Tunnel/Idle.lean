import SpnegoProxy.Proof.Tunnel.Stream

/-!
# When a tunnel is idle

Both halves record progress in one clock, and `quietForSince` takes a sample
of the time only if no progress was recorded while it did. So a half that is
cut is cut at a sample that is a timeout or more after all that was recorded
before the cut.
-/

namespace SP.Proof.Tunnel

open SP.Go SP.Impl

variable {cfg : TunnelConfig}

/-! ## What is seen -/

/-- The last sample of the half `d` is at `elapsed`. -/
def LastSample (tr : List TunnelEvent) (d : Dir) (elapsed : Int) : Prop :=
  ∃ pre post, tr = pre ++ .sampled d elapsed :: post ∧ ∀ el, .sampled d el ∉ post

/-- The half `d` was cut, and took no sample since. -/
def WasCut (tr : List TunnelEvent) (d : Dir) : Prop :=
  ∃ pre post el, tr = pre ++ .cut d el :: post ∧ ∀ el', .sampled d el' ∉ post

/-- Each cut is at the last sample of its half, a timeout or more after all
progress recorded so far. -/
def CutsIdle (timeout : Int) (tr : List TunnelEvent) : Prop :=
  ∀ pre post d el, tr = pre ++ .cut d el :: post →
    LastSample pre d el ∧ timeout ≤ el ∧ ∀ e t, .progress e t ∈ pre → t + timeout ≤ el

section Trace

variable {tr : List TunnelEvent} {d : Dir} {e : TunnelEvent} {timeout : Int}

theorem LastSample.snoc {el : Int} (h : LastSample tr d el) (he : ∀ el, e ≠ .sampled d el) :
    LastSample (tr ++ [e]) d el := by
  obtain ⟨pre, post, rfl, hpost⟩ := h
  refine ⟨pre, post ++ [e], by simp, fun el' hm => ?_⟩
  rcases List.mem_append.mp hm with hm | hm
  · exact hpost el' hm
  · exact he el' (List.mem_singleton.mp hm).symm

theorem WasCut.snoc (h : WasCut tr d) (he : ∀ el, e ≠ .sampled d el) : WasCut (tr ++ [e]) d := by
  obtain ⟨pre, post, el, rfl, hpost⟩ := h
  refine ⟨pre, post ++ [e], el, by simp, fun el' hm => ?_⟩
  rcases List.mem_append.mp hm with hm | hm
  · exact hpost el' hm
  · exact he el' (List.mem_singleton.mp hm).symm

theorem CutsIdle.snoc (h : CutsIdle timeout tr) (he : ∀ d el, e ≠ .cut d el) :
    CutsIdle timeout (tr ++ [e]) := by
  intro pre post d el hsplit
  rcases snoc_split.mp hsplit with ⟨rfl, -⟩ | ⟨post', -, htr⟩
  · exact absurd rfl (he d el)
  · exact h pre post' d el htr

/-- One more cut. -/
theorem CutsIdle.cut {el : Int} (h : CutsIdle timeout tr) (hs : LastSample tr d el)
    (hel : timeout ≤ el)
    (hp : ∀ e t, .progress e t ∈ tr → t + timeout ≤ el) : CutsIdle timeout (tr ++ [.cut d el]) := by
  intro pre post d' el' hsplit
  rcases snoc_split.mp hsplit with ⟨he, rfl, -⟩ | ⟨post', -, htr⟩
  · cases he
    exact ⟨hs, hel, hp⟩
  · exact h pre post' d' el' htr

end Trace

/-! ## What a step can do -/

/-- The half holds `errTunnelIdle`. -/
def HoldsIdle : HalfPc → Prop
  | .got _ err | .touch (.read _ err) _ | .checked err | .returned err | .done err => err = some .idle
  | .touch (.write w err) _ | .chunk w _ err => err = some .idle ∨ w.readErr = some .idle
  | .touch (.tlsWrite w) _ | .writing w | .syscalling w | .waiting w | .probing w | .tlsWriting w =>
    w.readErr = some .idle
  | .written _ err rerr => err = some .idle ∨ rerr = some .idle
  | _ => False

/-- A half that goes on without a decision about the clock. -/
structure Calm (h h' : Half) : Prop where
  swap : ∀ c now last, h'.pc = .touch c (.swap now last) → last < now
  reload : ∀ c last el, h'.pc ≠ .quiet c (.reload last el)
  stored : h'.src.err = some .idle → h.src.err = some .idle
  idle : HoldsIdle h'.pc → HoldsIdle h.pc ∨ h.src.err = some .idle

theorem Calm.goto {h : Half} {pc : HalfPc}
    (hswap : ∀ c now last, pc = .touch c (.swap now last) → last < now)
    (hreload : ∀ c last el, pc ≠ .quiet c (.reload last el))
    (hidle : HoldsIdle pc → HoldsIdle h.pc) : Calm h { h with pc := pc } :=
  ⟨hswap, hreload, fun h => h, fun h => .inl (hidle h)⟩

/-- What a step of the half `d` can be. -/
inductive Seen (cfg : TunnelConfig) (s : TunnelState) (d : Dir) (s' : TunnelState) : Prop where
  | still (last : s'.last = s.last) (trace : s'.trace = s.trace ++ endedEvents d (s'.half d).pc)
      (half : Calm (s.half d) (s'.half d))
  | sampled (c : QuietAt) (ℓ el : Int) (last : s'.last = s.last) (trace : s'.trace = s.trace ++ [.sampled d el])
      (half : s'.half d = { s.half d with pc := .quiet c (.reload ℓ el) })
  | rearmed (el : Int) (last : s'.last = s.last) (trace : s'.trace = s.trace ++ [.rearmed d el])
      (half : Calm (s.half d) (s'.half d))
  | progress (now : Int) (last : s'.last = s.last ∨ ∃ c,
    (s.half d).pc = .touch c (.swap s'.last s.last))
      (le : now ≤ s'.last) (trace : s'.trace = s.trace ++ [.progress d now]) (half : Calm (s.half d) (s'.half d))
  | cut (c : QuietAt) (el : Int) (last : s'.last = s.last) (was : (s.half d).pc = .quiet c (.reload s.last el))
      (quiet : cfg.timeout ≤ el - s.last) (pc : HalfPc)
      (trace : s'.trace = s.trace ++ (.cut d el :: endedEvents d pc)) (half : s'.half d = { s.half d with pc := pc })
      (next : pc = .returned (some .idle) ∨ pc = .got [] (some .idle))

theorem Goes.calm {h : Half} {pc : HalfPc} (hg : Goes h.pc pc) : Calm h { h with pc := pc } := by
  generalize hpc : h.pc = pc₀ at hg
  cases hg with
  | swaps c hlt =>
    refine .goto (fun c' now' last' he => ?_) (by simp) (by cases c <;> simp [hpc, HoldsIdle])
    cases he
    exact hlt
  | swapsAgain c => exact .goto (by simp) (by simp) (by cases c <;> simp [hpc, HoldsIdle])
  | transportNone hr => cases hr <;> exact .goto (by simp) (by simp) fun hi => hi.elim
  | wroteNone w err => exact .goto (by simp) (by simp) (by cases err <;> simp [hpc, HoldsIdle])
  | _ => exact .goto (by simp) (by simp) (by simp [hpc, HoldsIdle])

theorem Resumes.calm {h : Half} {c : TouchAt} {t : TouchPc} {pc : HalfPc} (hr : Resumes c pc)
    (hpc : h.pc = .touch c t) : Calm h { h with pc := pc } := by
  cases hr <;> exact .goto (by simp) (by simp) (by simp [hpc, HoldsIdle])

theorem Resumes.not_ended {d : Dir} {c : TouchAt} {pc : HalfPc} (hr : Resumes c pc) :
    endedEvents d pc = [] := by
  cases hr <;> rfl

theorem Rearmed.calm {h : Half} {c : QuietAt} {pc : HalfPc} (hr : Rearmed c pc) :
    Calm h { h with pc := pc } := by
  cases c with
  | loop | readLoop => exact hr.elim
  | expired =>
    obtain rfl : pc = .quiet .loop .load := hr
    exact .goto (by simp) (by simp) fun hi => hi.elim
  | readExpired n =>
    obtain rfl : pc = if 0 < n then .tlsRead else .quiet .readLoop .load := hr
    split <;> exact .goto (by simp) (by simp) fun hi => hi.elim

theorem Rearmed.not_ended {d : Dir} {c : QuietAt} {pc : HalfPc} (hr : Rearmed c pc) :
    endedEvents d pc = [] := by
  cases c with
  | loop | readLoop => exact hr.elim
  | expired =>
    obtain rfl : pc = .quiet .loop .load := hr
    rfl
  | readExpired n =>
    obtain rfl : pc = if 0 < n then .tlsRead else .quiet .readLoop .load := hr
    split <;> rfl

theorem Accepts.calm {h : Half} {w : Writing} {n : Nat} {pc : HalfPc} (ha : Accepts w n h.pc pc) :
    Calm h { h with accepted := h.accepted ++ w.p.take n, pc := pc } := by
  generalize hpc : h.pc = pc₀ at ha
  cases ha with
  | probe n err => refine ⟨by simp, by simp, fun hs => hs, fun hi => .inl ?_⟩; cases err <;> simpa [hpc, HoldsIdle] using hi
  | _ => exact ⟨by simp, by simp, fun hs => hs, fun hi => .inl (by simpa [hpc, HoldsIdle] using hi)⟩

theorem read_calm (h : Half) (kind : SourceKind) :
    Calm h { h with src := (h.src.read cfg kind).1, pc := (h.src.read cfg kind).2 } := by
  constructor <;> simp only [Source.read] <;> split <;> (try split) <;> simp_all [HoldsIdle]

theorem deliver_calm (h : Half) {k : Nat} {err : Option NetErr}
    (hk : err = some .eof → h.src.rest.length ≤ k) :
    Calm h { h with src := (h.src.deliver cfg k err hk).1, pc := (h.src.deliver cfg k err hk).2 } := by
  constructor <;> simp only [Source.deliver] <;> split <;> simp_all [HoldsIdle]

theorem counted_calm {h : Half} {n : Nat} {err rerr : Option TunnelErr}
    (hpc : h.pc = .written n err rerr) :
    Calm h { h with total := h.total + n, pc := if err = none then .checked rerr else .returned err } := by
  cases err with
  | none => exact ⟨by simp, by simp, fun hs => hs, fun hi => .inl (by rw [hpc]; exact .inr hi)⟩
  | some err => exact ⟨by simp, by simp, fun hs => hs, fun hi => .inl (by rw [hpc]; exact .inl hi)⟩

section Step

variable {s s' : TunnelState} {d : Dir}

/-- A step that decides nothing. -/
theorem seen_put {h : Half} (hlast : s'.last = s.last) (hhalf : s'.half d = h)
    (htrace : s'.trace = s.trace ++ endedEvents d h.pc) (hc : Calm (s.half d) h) :
    Seen cfg s d s' := by
  subst hhalf
  exact .still hlast htrace hc

/-- Every step. -/
theorem Moves.seen (hm : Moves cfg s d s') : Seen cfg s d s' := by
  cases hm with
  | goes hg => exact seen_put rfl (half_goto ..) rfl hg.calm
  | @samples c last now hpc => exact .sampled c last now rfl rfl (half_goto s d _ [])
  | @times c now hpc =>
    refine seen_put rfl (half_goto s d _ []) rfl (.goto (by simp) (by simp) ?_)
    cases c <;> simp [hpc, HoldsIdle]
  | @touches c t pc now last hpc hlast hnow hr =>
    refine .progress now (hlast.imp_right fun ht => ⟨c, by rw [hpc, ht]⟩) hnow ?_ ?_
    · show s.trace ++ ([.progress d now] ++ endedEvents d pc) = _
      rw [hr.not_ended, List.append_nil]
    · show Calm (s.half d) ((s.goto d pc []).half d)
      rw [half_goto]
      exact hr.calm hpc
  | @cuts c el pc hpc hq hc =>
    refine .cut c el rfl hpc hq pc rfl (half_goto ..) ?_
    cases hc
    · exact .inl rfl
    · exact .inl rfl
    · exact .inr rfl
  | @rearms c el pc hpc hr =>
    refine .rearmed el rfl ?_ ?_
    · show s.trace ++ ([.rearmed d el] ++ endedEvents d pc) = _
      rw [hr.not_ended, List.append_nil]
    · rw [half_goto]
      exact hr.calm
  | reads hpc => exact seen_put rfl (half_put ..) rfl (read_calm ..)
  | delivers hpc hk => exact seen_put rfl (half_put ..) rfl (deliver_calm _ hk)
  | accepts hn ha => exact seen_put rfl (half_accept ..) rfl ha.calm
  | counts hpc => exact seen_put rfl (half_put ..) rfl (counted_calm hpc)
  | ends hpc => exact seen_put rfl (half_goto ..) rfl (.goto (by simp) (by simp) (by simp [HoldsIdle]))
  | closes hpc => exact seen_put rfl (half_goto s d _ []) rfl (.goto (by simp) (by simp) (by simp [hpc, HoldsIdle]))
  | @closesWrite err hpc =>
    refine seen_put rfl (half_put s d _ []) rfl ⟨by simp, by simp, fun hs => hs, ?_⟩
    cases err <;> simp [HoldsIdle]

end Step

/-! ## Whole runs -/

/-- What is known of a half from what was seen. -/
structure HalfOk (tr : List TunnelEvent) (d : Dir) (h : Half) : Prop where
  swap : ∀ c now last, h.pc = .touch c (.swap now last) → last < now
  sampled : ∀ c last el, h.pc = .quiet c (.reload last el) → LastSample tr d el
  stored : h.src.err ≠ some .idle
  idle : HoldsIdle h.pc → WasCut tr d

structure IdleInv (timeout : Int) (last : Int) (tr : List TunnelEvent) (half : Dir → Half) :
    Prop where
  nonneg : 0 ≤ last
  recorded : ∀ d t, .progress d t ∈ tr → t ≤ last
  cuts : CutsIdle timeout tr
  halves : ∀ d, HalfOk tr d (half d)

namespace IdleInv

variable {timeout last : Int} {tr : List TunnelEvent} {half : Dir → Half} {d : Dir}

theorem init (src : Dir → SourceStart) : IdleInv timeout 0 [] (TunnelState.init src).half where
  nonneg := Int.le_refl _
  recorded _ _ h := (nomatch h)
  cuts pre post d el h := by simp at h
  halves d := by
    refine ⟨by simp [TunnelState.init], by simp [TunnelState.init], ?_, fun h => h.elim⟩
    cases he : (src d).err <;> simp [TunnelState.init, SourceStart.source, he]

/-- An event that is no sample, progress or cut. -/
theorem plain {e : TunnelEvent} (h : IdleInv timeout last tr half) (hs : ∀ d el, e ≠ .sampled d el)
    (hp : ∀ d t, e ≠ .progress d t) (hc : ∀ d el, e ≠ .cut d el) :
    IdleInv timeout last (tr ++ [e]) half where
  nonneg := h.nonneg
  recorded d t hm := by
    rcases List.mem_append.mp hm with hm | hm
    · exact h.recorded d t hm
    · exact absurd (List.mem_singleton.mp hm).symm (hp d t)
  cuts := h.cuts.snoc hc
  halves d := ⟨(h.halves d).swap, fun c ℓ el hpc => ((h.halves d).sampled c ℓ el hpc).snoc (hs d),
    (h.halves d).stored, fun hi => ((h.halves d).idle hi).snoc (hs d)⟩

theorem ended {pc : HalfPc} (h : IdleInv timeout last tr half) :
    IdleInv timeout last (tr ++ endedEvents d pc) half := by
  cases pc with
  | returned err => exact h.plain (by simp) (by simp) (by simp)
  | _ => simpa [endedEvents] using h

theorem calm {h' : Half} (h : IdleInv timeout last tr half) (hc : Calm (half d) h') :
    IdleInv timeout last tr (Function.update half d h') where
  nonneg := h.nonneg
  recorded := h.recorded
  cuts := h.cuts
  halves e := by
    by_cases he : e = d
    · subst he
      rw [Function.update_self]
      refine ⟨hc.swap,
        fun c ℓ el hpc => absurd hpc (hc.reload c ℓ el), fun hs => (h.halves e).stored (hc.stored hs),
        fun hi => ?_⟩
      exact (hc.idle hi).elim (h.halves e).idle fun hs => absurd hs (h.halves e).stored
    · rw [Function.update_of_ne he]
      exact h.halves e

theorem sample {c : QuietAt} {ℓ el : Int} (h : IdleInv timeout last tr half) :
    IdleInv timeout last (tr ++ [.sampled d el])
      (Function.update half d { half d with pc := .quiet c (.reload ℓ el) }) where
  nonneg := h.nonneg
  recorded e t hm := h.recorded e t (by simpa using hm)
  cuts := h.cuts.snoc (by simp)
  halves e := by
    by_cases he : e = d
    · subst he
      rw [Function.update_self]
      refine ⟨by simp, fun c' ℓ' el' hpc => ?_, (h.halves e).stored, fun hi => hi.elim⟩
      cases hpc
      exact ⟨tr, [], rfl, by simp⟩
    · rw [Function.update_of_ne he]
      have hne : ∀ el', TunnelEvent.sampled d el ≠ .sampled e el' :=
        fun el' hs => he (by cases hs; rfl)
      exact ⟨(h.halves e).swap,
        fun c ℓ el' hpc => ((h.halves e).sampled c ℓ el' hpc).snoc hne, (h.halves e).stored,
        fun hi => ((h.halves e).idle hi).snoc hne⟩

/-- Progress is recorded, and the clock does not go back. -/
theorem progress {last' now : Int} (h : IdleInv timeout last tr half) (hlast : last ≤ last')
    (hnow : now ≤ last') : IdleInv timeout last' (tr ++ [.progress d now]) half where
  nonneg := Int.le_trans h.nonneg hlast
  recorded e t hm := by
    rcases List.mem_append.mp hm with hm | hm
    · exact Int.le_trans (h.recorded e t hm) hlast
    · cases List.mem_singleton.mp hm
      exact hnow
  cuts := h.cuts.snoc (by simp)
  halves e :=
    ⟨(h.halves e).swap, fun c ℓ el hpc => ((h.halves e).sampled c ℓ el hpc).snoc (by simp),
    (h.halves e).stored, fun hi => ((h.halves e).idle hi).snoc (by simp)⟩

/-- A half is cut, at a sample during which the clock did not change. -/
theorem cut {c : QuietAt} {el : Int} {pc : HalfPc} (h : IdleInv timeout last tr half)
    (hpc : (half d).pc = .quiet c (.reload last el)) (hq : timeout ≤ el - last)
    (hnext : pc = .returned (some .idle) ∨ pc = .got [] (some .idle)) :
    IdleInv timeout last (tr ++ [.cut d el]) (Function.update half d { half d with pc := pc }) where
  nonneg := h.nonneg
  recorded e t hm := h.recorded e t (by simpa using hm)
  cuts := by
    have hn := h.nonneg
    refine h.cuts.cut ((h.halves d).sampled c last el hpc) (by omega) fun e t hm => ?_
    have := h.recorded e t hm
    omega
  halves e := by
    by_cases he : e = d
    · subst he
      rw [Function.update_self]
      refine ⟨?_, ?_, (h.halves e).stored, fun _ => ⟨tr, [], el, rfl, by simp⟩⟩ <;>
        rcases hnext with rfl | rfl <;> simp
    · rw [Function.update_of_ne he]
      exact ⟨(h.halves e).swap,
        fun c ℓ el' hpc => ((h.halves e).sampled c ℓ el' hpc).snoc (by simp),
        (h.halves e).stored, fun hi => ((h.halves e).idle hi).snoc (by simp)⟩

theorem step {s s' : TunnelState} {a : TunnelAct} (h : IdleInv cfg.timeout s.last s.trace s.half)
    (hs : tunnelStep cfg s a = some s') : IdleInv cfg.timeout s'.last s'.trace s'.half := by
  obtain ⟨h', hhalf⟩ := (tunnelStep_moves hs).update
  have hself : s'.half (actor a) = h' := by rw [hhalf, Function.update_self]
  rw [hhalf]
  cases (tunnelStep_moves hs).seen with
  | still hlast htr hcalm =>
    rw [hlast, htr]
    exact (h.calm (hself ▸ hcalm)).ended
  | sampled c ℓ el hlast htr hh =>
    rw [hlast, htr, ← hself, hh]
    exact h.sample
  | rearmed el hlast htr hcalm =>
    rw [hlast, htr]
    exact (h.calm (hself ▸ hcalm)).plain (by simp) (by simp) (by simp)
  | progress now hlast hnow htr hcalm =>
    rw [htr]
    refine (h.calm (hself ▸ hcalm)).progress ?_ hnow
    rcases hlast with hl | ⟨c, hpc⟩
    · exact Int.le_of_eq hl.symm
    · exact Int.le_of_lt ((h.halves (actor a)).swap c _ _ hpc)
  | cut c el hlast hpc hq pc htr hh hnext =>
    rw [hlast, htr, ← hself, hh, List.append_cons]
    exact (h.cut hpc hq hnext).ended

end IdleInv

theorem tunnel_idleInv {src : Dir → SourceStart} {as : List TunnelAct} {s : TunnelState}
    (h : (tunnel cfg src).exec as = some s) : IdleInv cfg.timeout s.last s.trace s.half :=
  Machine.invariant (I := fun _ s => IdleInv cfg.timeout s.last s.trace s.half) (IdleInv.init src)
    (fun _ hi hs => hi.step hs) h

/-- A half is cut only when the tunnel is idle. One that ends with
`errTunnelIdle` was cut at its last sample of the time, and that was a timeout
or more after all progress recorded by then. A read that timed out is decided
by the clock only: if progress was recorded within the timeout it is armed
again, unless the clock has changed and is asked again. -/
theorem idle_cut {src : Dir → SourceStart} {as : List TunnelAct} {s : TunnelState}
    (h : (tunnel cfg src).exec as = some s) (d : Dir) :
    ((s.half d).pc = .returned (some .idle) → ∃ pre post el, s.trace = pre ++ .cut d el :: post ∧
      (∀ el', .sampled d el' ∉ post) ∧ LastSample pre d el ∧ cfg.timeout ≤ el ∧
      ∀ e t, .progress e t ∈ pre → t + cfg.timeout ≤ el) ∧
    (∀ s', (s.half d).pc = .checked (some (.net .timeout)) → tunnelStep cfg s (.step d) = some s' →
      (s'.half d).pc = .quiet .expired .load) ∧
    (∀ c last el s', (c = .expired ∨ ∃ n, c = .readExpired n) → (s.half d).pc = .quiet c (.reload last el) →
      tunnelStep cfg s (.step d) = some s' →
        (∃ e t, .progress e t ∈ s.trace ∧ el < t + cfg.timeout) →
      (s'.half d).pc = .quiet c .load ∨ Rearmed c (s'.half d).pc) := by
  have hi := tunnel_idleInv h
  refine ⟨fun hpc => ?_, fun s' hpc hs => ?_, fun c last el s' hc hpc hs ⟨e, t, hm, hlt⟩ => ?_⟩
  · obtain ⟨pre, post, el, htr, hpost⟩ := (hi.halves d).idle (by rw [hpc]; rfl)
    exact ⟨pre, post, el, htr, hpost, hi.cuts pre post d el htr⟩
  · simp only [tunnelStep, halfStep, hpc] at hs
    obtain rfl := Option.some.inj hs
    simp [TunnelState.goto, TunnelState.put, afterRead]
  · have hrec := hi.recorded e t hm
    simp only [tunnelStep, halfStep, hpc] at hs
    split at hs <;> obtain rfl := Option.some.inj hs
    next hlast =>
      have hq : ¬ cfg.timeout ≤ el - last := by omega
      right
      rcases hc with rfl | ⟨n, rfl⟩ <;> simp [TunnelState.goto, TunnelState.put, decideQuiet, hq,
        Rearmed]
    next => exact .inl (by simp [TunnelState.goto, TunnelState.put])

/-- One half records progress at the time 1, the other finds the tunnel idle
at the time 11. -/
def idleRun : List TunnelAct := armAt 0 ++ touchAt 1 ++ [.step .down, .time .down 11, .step .down]

theorem idle_cut_idleRun : ∃ s, (tunnel tcpConfig abcSource).exec idleRun = some s ∧
    (s.half .down).pc = .returned (some .idle) ∧
    ∃ pre post el, s.trace = pre ++ .cut .down el :: post ∧
      .progress .up 1 ∈ s.trace ∧ ∀ e t, .progress e t ∈ pre → t + 10 ≤ el := by
  have hrun : ((tunnel tcpConfig abcSource).exec idleRun).map
      (fun s => ((s.half .down).pc, decide (.progress .up 1 ∈ s.trace))) =
      some (.returned (some .idle), true) := by decide +kernel
  obtain ⟨s, hs, he⟩ := Option.map_eq_some_iff.mp hrun
  obtain ⟨hpc, hp⟩ := Prod.mk.inj he
  obtain ⟨pre, post, el, htr, -, -, -, hidle⟩ := (idle_cut hs .down).1 hpc
  exact ⟨s, hs, hpc, pre, post, el, htr, of_decide_eq_true hp, hidle⟩

end SP.Proof.Tunnel
