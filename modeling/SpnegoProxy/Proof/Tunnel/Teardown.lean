import SpnegoProxy.Framework.Progress
import SpnegoProxy.Proof.Tunnel.Stream

/-!
# How a tunnel ends

`forwardTunnel` closes the connections when a half fails, and only then
(`forwardTunnel_ends`): a half that comes to the end of its stream leaves the
other one alone. Between two results of its connections a half takes a bounded
number of steps, whatever the other half does to the clock meanwhile, and a
result that is an error is its last one (`tunnel_terminates`).
-/

namespace SP.Proof.Tunnel

open SP.Go SP.Impl

variable {cfg : TunnelConfig} {s s' : TunnelState} {d : Dir}

/-! ## Who closes the connections -/

/-- What a step does to the connections: nothing, or the half that takes it is done. -/
inductive Closing (s s' : TunnelState) (d : Dir) : Prop where
  | keeps {h : Half} (hhalf : s'.half = Function.update s.half d h) (hrun : ∀ err, h.pc ≠ .done err)
      (hclosed : s'.closed = s.closed) : Closing s s' d
  | fails {h : Half} {err : TunnelErr} (hhalf : s'.half = Function.update s.half d h) (hpc : h.pc = .done (some err))
      (hclosed : s'.closed = true) : Closing s s' d
  | ends {h : Half} (hhalf : s'.half = Function.update s.half d h) (hpc : h.pc = .done none)
      (hwrite : h.closedWrite = true) (hclosed : s'.closed = s.closed) : Closing s s' d

theorem Goes.not_done {pc pc' : HalfPc} (hg : Goes pc pc') (err : Option TunnelErr) :
    pc' ≠ .done err := by
  intro h
  subst h
  cases hg with
  | transportNone hr => cases hr

theorem Accepts.not_done {w : Writing} {n : Nat} {pc pc' : HalfPc} (ha : Accepts w n pc pc')
    (err : Option TunnelErr) : pc' ≠ .done err := by
  intro h
  subst h
  cases ha

theorem Moves.closing (hm : Moves cfg s d s') : Closing s s' d := by
  cases hm with
  | goes hg => exact .keeps rfl hg.not_done rfl
  | samples => exact .keeps rfl (fun _ h => by cases h) rfl
  | times => exact .keeps rfl (fun _ h => by cases h) rfl
  | touches _ _ _ hr => exact .keeps rfl (fun _ h => by cases hr <;> cases h) rfl
  | cuts _ _ hc => exact .keeps rfl (fun _ h => by cases hc <;> cases h) rfl
  | @rearms c _ pc _ hr =>
    refine .keeps rfl (fun err h => ?_) rfl
    have hpc : pc = .done err := h
    subst hpc
    cases c with
    | expired => cases hr
    | readExpired n =>
      rw [Rearmed] at hr
      split at hr <;> cases hr
    | _ => exact hr
  | reads =>
    refine .keeps rfl (fun err h => ?_) rfl
    simp only [Source.read] at h
    split at h
    · cases h
    · split at h <;> cases h
  | delivers =>
    refine .keeps rfl (fun err h => ?_) rfl
    simp only [Source.deliver] at h
    split at h <;> cases h
  | accepts _ ha => exact .keeps rfl ha.not_done rfl
  | counts =>
    refine .keeps rfl (fun err h => ?_) rfl
    simp only at h
    split at h <;> cases h
  | ends => exact .keeps rfl (fun _ h => by cases h) rfl
  | closes => exact .fails rfl rfl rfl
  | @closesWrite err =>
    cases err with
    | none => exact .ends rfl rfl rfl (Bool.or_false _)
    | some err => exact .fails rfl rfl (Bool.or_true _)

/-- A half that is done takes no step. -/
theorem Moves.not_done (hm : Moves cfg s d s') (err : Option TunnelErr) :
    (s.half d).pc ≠ .done err := by
  intro h
  cases hm with
  | goes hg => rw [h] at hg; cases hg
  | accepts _ ha => rw [h] at ha; cases ha
  | delivers hpc => rcases hpc with hpc | hpc <;> (rw [h] at hpc; cases hpc)
  | samples hpc | times hpc | touches hpc | cuts hpc | rearms hpc | reads hpc | counts hpc | ends hpc | closes hpc
  | closesWrite hpc => rw [h] at hpc; cases hpc

/-- The connections are closed when a half has failed, and a half that has not
passed the end of its stream on. -/
structure Wound (s : TunnelState) : Prop where
  closed : s.closed = true ↔ ∃ d err, (s.half d).pc = .done (some err)
  ended : ∀ d, (s.half d).pc = .done none → (s.half d).closedWrite = true

theorem Wound.step {a : TunnelAct} (h : Wound s) (hs : tunnelStep cfg s a = some s') : Wound s' := by
  have hm := tunnelStep_moves hs
  have hrun := hm.not_done
  -- the half that moves was not among those that are done
  have hothers : ∀ {h' : Half}, s'.half = Function.update s.half (actor a) h' →
    (∀ err, h'.pc ≠ .done (some err)) →
      ((∃ d err, (s'.half d).pc = .done (some err)) ↔ ∃ d err, (s.half d).pc = .done (some err)) := by
    intro h' hhalf hnot
    refine exists_congr fun d => exists_congr fun err => ?_
    by_cases hd : d = actor a
    · rw [hhalf, hd, Function.update_self]
      exact iff_of_false (hnot err) (hrun _)
    · rw [hhalf, Function.update_of_ne hd]
  cases hm.closing with
  | keeps hhalf hnot hclosed =>
    refine ⟨?_, fun d hd => ?_⟩
    · rw [hclosed, hothers hhalf fun _ => hnot _]
      exact h.closed
    · rw [hhalf] at hd ⊢
      by_cases he : d = actor a
      · rw [he, Function.update_self] at hd
        exact absurd hd (hnot _)
      · rw [Function.update_of_ne he] at hd ⊢
        exact h.ended d hd
  | @fails h' err hhalf hpc hclosed =>
    refine ⟨iff_of_true hclosed ⟨actor a, err,
      by rw [hhalf, Function.update_self, hpc]⟩, fun d hd => ?_⟩
    rw [hhalf] at hd ⊢
    by_cases he : d = actor a
    · rw [he, Function.update_self, hpc] at hd
      cases hd
    · rw [Function.update_of_ne he] at hd ⊢
      exact h.ended d hd
  | @ends h' hhalf hpc hwrite hclosed =>
    refine ⟨?_, fun d hd => ?_⟩
    · rw [hclosed, hothers hhalf fun err herr => by rw [hpc] at herr; cases herr]
      exact h.closed
    · rw [hhalf] at hd ⊢
      by_cases he : d = actor a
      · rw [he, Function.update_self]
        exact hwrite
      · rw [Function.update_of_ne he] at hd ⊢
        exact h.ended d hd

theorem tunnel_wound {src : Dir → SourceStart} {as : List TunnelAct}
    (h : (tunnel cfg src).exec as = some s) :
    Wound s := by
  refine Machine.invariant (I := fun _ s => Wound s) ?_ (fun _ ih hs => ih.step hs) h
  refine ⟨iff_of_false (fun h => nomatch h) ?_, fun d h => nomatch h⟩
  intro ⟨_, _, h⟩
  cases h

/-- `forwardTunnel` closes the connections if and only if a half has failed. A
half that has not failed has passed on its whole stream and then the end of
it; so when both halves are done and the connections were not closed early,
nothing was lost in either direction. -/
theorem forwardTunnel_ends {src : Dir → SourceStart} {as : List TunnelAct}
    (h : (tunnel cfg src).exec as = some s) :
    (s.closed = true ↔ ∃ d err, (s.half d).pc = .done (some err)) ∧
    (∀ d, (s.half d).pc = .done none → (s.half d).closedWrite = true ∧ (s.half d).accepted = (src d).stream) ∧
    ((∀ d, ∃ err, (s.half d).pc = .done err) → s.closed = false →
      ∀ d, (s.half d).closedWrite = true ∧ (s.half d).accepted = (src d).stream) := by
  have hw := tunnel_wound h
  have hwhole : ∀ d, (s.half d).pc = .done none →
      (s.half d).closedWrite = true ∧ (s.half d).accepted = (src d).stream :=
    fun d hd => ⟨hw.ended d hd, ((tunnel_faithful h d).closed (hw.ended d hd)).1⟩
  refine ⟨hw.closed, hwhole, fun hdone hopen d => ?_⟩
  obtain ⟨err, herr⟩ := hdone d
  cases err with
  | none => exact hwhole d herr
  | some err =>
    have hclosed := hw.closed.mpr ⟨d, err, herr⟩
    rw [hopen] at hclosed
    cases hclosed

/-- The client sends `abc`, and the other side nothing. -/
def oneWaySource : Dir → SourceStart
  | .up => abcSource .up
  | .down => ⟨[], some .eof, [], fun _ => rfl⟩

/-- `abc` is passed on as in `abcRun`, then the other half finds the end of its file. -/
def oneWayRun : List TunnelAct :=
  abcRun ++ [.step .down, .time .down 7, .step .down, .step .down, .step .down, .step .down,
    .closeWrite .down none]

theorem forwardTunnel_ends_oneWayRun :
    ∃ s, (tunnel tcpConfig oneWaySource).exec oneWayRun = some s ∧
    s.closed = false ∧ ∀ d, (s.half d).closedWrite = true ∧
      (s.half d).accepted = (oneWaySource d).stream := by
  have hrun : ((tunnel tcpConfig oneWaySource).exec oneWayRun).map
      (fun s => ((s.half .up).pc, (s.half .down).pc, s.closed)) = some (.done none, .done none, false) := by
    decide +kernel
  obtain ⟨s, hs, he⟩ := Option.map_eq_some_iff.mp hrun
  obtain ⟨hup, he⟩ := Prod.mk.inj he
  obtain ⟨hdown, hopen⟩ := Prod.mk.inj he
  refine ⟨s, hs, hopen, (forwardTunnel_ends hs).2.2 (fun d => ?_) hopen⟩
  cases d with
  | up => exact ⟨none, hup⟩
  | down => exact ⟨none, hdown⟩

/-! ## What is left to do -/

/-- An error that ends a half: not a deadline that has passed, after which it may go on. -/
def isFinal : Option TunnelErr → Bool
  | none | some (.net .timeout) => false
  | some _ => true

def quietLeft : QuietPc → Nat
  | .load => 3
  | .sample _ => 2
  | .reload _ _ => 1

/-- The last step of `touch` may make the other half read the clock again. -/
def touchLeft : TouchPc → Nat
  | .sample => 6
  | .load _ => 5
  | .swap _ _ => 4

/-- The steps that are left to a half whose connections fail, if the clock does not change. -/
def pcLeft : HalfPc → Nat
  | .done _ => 0
  | .returned _ => 1
  | .checked err => if isFinal err then 2 else 20
  | .written _ (some _) _ => 2
  | .written _ none err => if isFinal err then 3 else 21
  | .chunk _ n _ => if n = 0 then 3 else 29
  | .syscalling _ | .waiting _ | .probing _ | .connRead | .tlsRead => 4
  | .transportRead => 5
  | .writing w | .tlsWriting w => if w.p = [] then 22 else 5
  | .touch (.read chunk _) t => (if chunk = [] then 22 else 5) + touchLeft t
  | .touch (.write _ _) t | .touch (.tlsWrite _) t => 22 + touchLeft t
  | .touch (.transport _ _) t => 11 + touchLeft t
  | .got chunk err => if chunk = [] then if isFinal err then 3 else 21 else 12
  | .quiet .readLoop q => 5 + quietLeft q
  | .quiet (.readExpired _) q => 8 + quietLeft q
  | .reading => 13
  | .quiet .loop q => 13 + quietLeft q
  | .quiet .expired q => 16 + quietLeft q

/-- What a half has to do again because the clock has changed since it read it. -/
def againLeft (last : Int) : HalfPc → Nat
  | .quiet _ (.sample l) | .quiet _ (.reload l _) => if l = last then 0 else 3
  | .touch _ (.swap _ l) => if l = last then 0 else 2
  | _ => 0

/-- What is left to a half. An error that `bufio` has kept may be a deadline. -/
def halfLeft (last : Int) (h : Half) : Nat :=
  pcLeft h.pc + againLeft last h.pc + if h.src.err = none then 0 else 9

def tunnelLeft (s : TunnelState) : Nat :=
  halfLeft s.last (s.half .up) + halfLeft s.last (s.half .down)

theorem againLeft_le (last : Int) (pc : HalfPc) : againLeft last pc ≤ 3 := by
  unfold againLeft
  split <;> first | omega | (split <;> omega)

theorem quietLeft_le (q : QuietPc) : quietLeft q ≤ 3 := by cases q <;> simp [quietLeft]

theorem touchLeft_le (t : TouchPc) : touchLeft t ≤ 6 := by cases t <;> simp [touchLeft]

theorem pcLeft_le (pc : HalfPc) : pcLeft pc ≤ 29 := by
  cases pc with
  | quiet c q =>
    have hq := quietLeft_le q
    cases c <;> (simp only [pcLeft]; omega)
  | touch c t =>
    have ht := touchLeft_le t
    cases c with
    | read chunk err => simp only [pcLeft]; split <;> omega
    | write | tlsWrite | transport => simp only [pcLeft]; omega
  | written n err readErr =>
    cases err with
    | none => simp only [pcLeft]; split <;> omega
    | some err => simp only [pcLeft]; omega
  | got chunk err => simp only [pcLeft]; split_ifs <;> omega
  | chunk | writing | tlsWriting | checked => simp only [pcLeft]; split <;> omega
  | reading | connRead | tlsRead | transportRead | syscalling | waiting | probing | returned | done =>
    simp only [pcLeft]; omega

theorem halfLeft_le (last : Int) (h : Half) : halfLeft last h ≤ 41 := by
  have hpc := pcLeft_le h.pc
  have hagain := againLeft_le last h.pc
  unfold halfLeft
  split <;> omega

/-- The result of an operation on a connection after which its half may go on. -/
def goesOn : TunnelAct → Bool
  | .step _ | .time _ _ | .armFails _ _ | .tlsFails _ _ | .closeWrite _ _ => false
  | .tlsCalls _ | .tlsRecord _ _ | .tlsTouch _ => true
  | .connRead _ n err | .tlsReturns _ n err | .transportRead _ n err | .probe _ n err _ =>
    !(n == 0 && isFinal (err.map .net))
  | .sys _ (.failed _) => false
  | .sys _ _ => true
  | .ready _ err => err.isNone

/-- A half does something; when it changes the clock it does more, for the other one. -/
theorem tunnelLeft_lt {h : Half} (hhalf : s'.half = Function.update s.half d h)
    (hlt : halfLeft s'.last h + (if s'.last = s.last then 0 else 3) < halfLeft s.last (s.half d)) :
    tunnelLeft s' < tunnelLeft s := by
  have hother : ∀ e,
    halfLeft s'.last (s.half e) ≤ halfLeft s.last (s.half e) + if s'.last = s.last then 0 else 3 := by
    intro e
    split
    next heq => rw [heq]; omega
    next =>
      have hagain := againLeft_le s'.last (s.half e).pc
      unfold halfLeft
      omega
  unfold tunnelLeft
  rw [hhalf]
  cases d with
  | up =>
    have hdown := hother .down
    rw [Function.update_self, Function.update_of_ne (by decide)]
    omega
  | down =>
    have hup := hother .up
    rw [Function.update_self, Function.update_of_ne (by decide)]
    omega

/-- The clock does not change. -/
theorem put_left {h : Half} {events : List TunnelEvent}
    (hlt : halfLeft s.last h < halfLeft s.last (s.half d)) :
    tunnelLeft (s.put d h events) < tunnelLeft s := by
  refine tunnelLeft_lt (d := d) rfl ?_
  show halfLeft s.last h + (if s.last = s.last then 0 else 3) < _
  rw [if_pos rfl]
  exact hlt

/-- A half goes to its next place, and the clock does not change. -/
theorem goto_left {pc : HalfPc} {events : List TunnelEvent}
    (hlt : pcLeft pc + againLeft s.last pc < pcLeft (s.half d).pc + againLeft s.last (s.half d).pc) :
    tunnelLeft (s.goto d pc events) < tunnelLeft s := by
  have hleft : halfLeft s.last { s.half d with pc := pc } < halfLeft s.last (s.half d) := by
    simp only [halfLeft]
    omega
  exact put_left hleft

/-- `clock.remaining()` or `clock.idle()` is decided. -/
theorem decideQuiet_left {c : QuietAt} {last el : Int}
    (hpc : (s.half d).pc = .quiet c (.reload last el)) :
    tunnelLeft (s.goto d (decideQuiet cfg d el (el - last) c).1 (decideQuiet cfg d el (el - last) c).2) <
      tunnelLeft s := by
  apply goto_left
  rw [hpc]
  cases c with
  | loop | expired => simp only [decideQuiet]; split <;> (simp only [pcLeft, againLeft, quietLeft]; omega)
  | readLoop =>
    simp only [decideQuiet]
    split <;> (simp only [pcLeft, againLeft, quietLeft, isFinal, if_true]; omega)
  | readExpired n => simp only [decideQuiet]; split_ifs <;> (simp only [pcLeft, againLeft, quietLeft]; omega)

/-- Where `touch` returns to. -/
theorem afterTouch_left (kind : DestKind) (c : TouchAt) (t : TouchPc) :
    pcLeft (afterTouch kind c) + touchLeft t ≤ pcLeft (.touch c t) := by
  cases c with
  | read chunk err => simp only [afterTouch]; split <;> (simp only [pcLeft]; omega)
  | write w err =>
    cases err with
    | none => simp only [afterTouch, pcLeft]; split <;> omega
    | some err => simp only [afterTouch, pcLeft]; omega
  | tlsWrite w => simp only [afterTouch, pcLeft]; split <;> omega
  | transport n err => simp only [afterTouch]; split <;> (simp only [pcLeft, quietLeft]; omega)

theorem afterTouch_again (last : Int) (kind : DestKind) (c : TouchAt) :
    againLeft last (afterTouch kind c) = 0 := by
  cases c with
  | read | transport => simp only [afterTouch]; split <;> rfl
  | write w err => cases err <;> rfl
  | tlsWrite => rfl

/-- The reader hands out what it holds, or its error; `buf` is not empty. -/
theorem read_left (hbuf : 0 < cfg.bufLen) (last : Int) (kind : SourceKind) {h : Half}
    (hpc : h.pc = .reading) :
    halfLeft last { h with src := (h.src.read cfg kind).1, pc := (h.src.read cfg kind).2 } < halfLeft last h := by
  simp only [Source.read, halfLeft, hpc]
  split
  next hne =>
    have hchunk : h.src.buffered.take cfg.bufLen ≠ [] := by
      rw [Ne, List.take_eq_nil_iff]
      exact not_or_intro (Nat.ne_of_gt hbuf) hne
    simp only [pcLeft, againLeft, if_neg hchunk]
    omega
  next =>
    split
    next err _ herr =>
      simp only [pcLeft, againLeft, herr, if_true]
      split <;> simp
    next herr => simp [pcLeft, againLeft, herr]
    next herr => simp [pcLeft, againLeft, herr]

/-- A step of a half that the state decides. -/
theorem halfStep_left (hbuf : 0 < cfg.bufLen) (hs : halfStep cfg s d = some s') :
    tunnelLeft s' < tunnelLeft s := by
  rw [halfStep] at hs
  split at hs
  next c hpc =>
    obtain rfl := Option.some.inj hs
    apply goto_left
    rw [hpc]
    cases c <;> simp [pcLeft, againLeft, quietLeft]
  next c last el hpc =>
    split at hs <;> obtain rfl := Option.some.inj hs
    next => exact decideQuiet_left hpc
    next hne =>
      apply goto_left
      rw [hpc]
      cases c <;> simp [pcLeft, againLeft, quietLeft, Ne.symm hne]
  next c now hpc =>
    have hleft := afterTouch_left (cfg.dest d) c (.load now)
    split at hs <;> obtain rfl := Option.some.inj hs
    next =>
      apply goto_left
      rw [hpc]
      cases c <;> simp [pcLeft, againLeft, touchLeft]
    next =>
      apply goto_left
      rw [hpc, afterTouch_again]
      simp only [touchLeft] at hleft
      omega
  next c now last hpc =>
    have hleft := afterTouch_left (cfg.dest d) c (.swap now last)
    split at hs <;> obtain rfl := Option.some.inj hs
    next hlast =>
      refine tunnelLeft_lt (d := d) rfl ?_
      have hsrc : halfLeft now { s.half d with pc := afterTouch (cfg.dest d) c } + 4 ≤ halfLeft s.last (s.half d) := by
        simp only [halfLeft, hpc, afterTouch_again]
        simp only [touchLeft] at hleft
        omega
      show halfLeft now { s.half d with pc := afterTouch (cfg.dest d) c } + (if now = s.last then 0 else 3) < _
      split <;> omega
    next hne =>
      apply goto_left
      rw [hpc]
      cases c <;> simp [pcLeft, againLeft, touchLeft, Ne.symm hne]
  next hpc =>
    obtain rfl := Option.some.inj hs
    exact put_left (read_left hbuf _ _ hpc)
  next chunk err hpc =>
    obtain rfl := Option.some.inj hs
    apply goto_left
    rw [hpc]
    split
    next hnil =>
      simp [pcLeft, againLeft, hnil]
      split <;> omega
    next hne => simp [pcLeft, againLeft, touchLeft, hne]
  next w hpc =>
    obtain rfl := Option.some.inj hs
    apply goto_left
    rw [hpc]
    split
    next hnil =>
      simp only [pcLeft, againLeft, hnil, if_true]
      split <;> omega
    next hne =>
      simp only [chunkPc]
      split <;> simp [pcLeft, againLeft, hne]
  next w n err hpc =>
    obtain rfl := Option.some.inj hs
    apply goto_left
    rw [hpc, afterChunk]
    split
    next hn => simp [pcLeft, againLeft, touchLeft, Nat.ne_of_gt hn]
    next hn => simp [pcLeft, againLeft, show n = 0 by omega]
  next w hpc =>
    obtain ⟨hnil, hs⟩ := Option.ite_none_right_eq_some.mp hs
    obtain rfl := Option.some.inj hs
    apply goto_left
    rw [hpc]
    simp only [pcLeft, againLeft, hnil, if_true]
    split <;> omega
  next n err rerr hpc =>
    obtain rfl := Option.some.inj hs
    apply put_left
    cases err with
    | none =>
      simp only [halfLeft, hpc, pcLeft, againLeft, if_true]
      split <;> simp
    | some err => simp [halfLeft, hpc, pcLeft, againLeft]
  next rerr hpc =>
    obtain rfl := Option.some.inj hs
    apply goto_left
    rw [hpc, afterRead.eq_def]
    split
    · simp [pcLeft, againLeft, isFinal, quietLeft]
    · simp [pcLeft, againLeft, isFinal, quietLeft]
    · simp [pcLeft, againLeft, isFinal]
    · simp only [pcLeft, againLeft]
      split <;> omega
  next err hpc =>
    obtain rfl := Option.some.inj hs
    show tunnelLeft (s.goto d (.done (some err)) []) < tunnelLeft s
    apply goto_left
    rw [hpc]
    simp [pcLeft, againLeft]
  next => cases hs

/-- A read that returns nothing but an error that ends the half. -/
theorem delivered_left {err : Option NetErr}
    (hpc : (s.half d).pc = .connRead ∨ (s.half d).pc = .tlsRead)
    (hfin : isFinal (err.map .net) = true) (hs : s.delivered cfg d 0 err = some s') :
    tunnelLeft s' < tunnelLeft s := by
  simp only [TunnelState.delivered] at hs
  split at hs
  next hk =>
    obtain rfl := Option.some.inj hs
    apply put_left
    have hleft : 3 < halfLeft s.last (s.half d) := by
      unfold halfLeft
      rcases hpc with hpc | hpc <;> (simp only [hpc, pcLeft]; omega)
    refine Nat.lt_of_le_of_lt (Nat.le_of_eq ?_) hleft
    simp only [Source.deliver, List.take_zero, or_true, if_true, halfLeft, pcLeft, againLeft, hfin]
  next => cases hs

/-- A step that does not go on takes something off what is left. -/
theorem tunnelStep_left {a : TunnelAct} (hbuf : 0 < cfg.bufLen) (ha : goesOn a = false)
    (hs : tunnelStep cfg s a = some s') : tunnelLeft s' < tunnelLeft s := by
  cases a with
  | step d => exact halfStep_left hbuf hs
  | time d now =>
    obtain ⟨-, hs⟩ := Option.ite_none_right_eq_some.mp hs
    split at hs
    next c last hpc =>
      obtain rfl := Option.some.inj hs
      show tunnelLeft (s.goto d (.quiet c (.reload last now)) []) < tunnelLeft s
      apply goto_left
      rw [hpc]
      cases c <;> (simp only [pcLeft, quietLeft, againLeft]; omega)
    next c hpc =>
      obtain rfl := Option.some.inj hs
      show tunnelLeft (s.goto d (.touch c (.load now)) []) < tunnelLeft s
      apply goto_left
      rw [hpc]
      cases c <;> (simp only [pcLeft, touchLeft, againLeft]; omega)
    next => cases hs
  | connRead d k err =>
    obtain ⟨hpc, hs⟩ := Option.ite_none_right_eq_some.mp hs
    simp only [goesOn, Bool.not_eq_false', Bool.and_eq_true, beq_iff_eq] at ha
    obtain ⟨rfl, hfin⟩ := ha
    exact delivered_left (.inl hpc) hfin hs
  | tlsReturns d k err =>
    obtain ⟨hpc, hs⟩ := Option.ite_none_right_eq_some.mp hs
    simp only [goesOn, Bool.not_eq_false', Bool.and_eq_true, beq_iff_eq] at ha
    obtain ⟨rfl, hfin⟩ := ha
    exact delivered_left (.inr hpc) hfin hs
  | transportRead d n err =>
    obtain ⟨hpc, hs⟩ := Option.ite_none_right_eq_some.mp hs
    simp only [goesOn, Bool.not_eq_false', Bool.and_eq_true, beq_iff_eq] at ha
    obtain ⟨rfl, hfin⟩ := ha
    obtain rfl := Option.some.inj hs
    have hne : err ≠ some .timeout := by
      intro h
      rw [h] at hfin
      cases hfin
    apply goto_left
    rw [hpc, if_neg (Nat.lt_irrefl 0), afterTouch, if_neg hne]
    simp [pcLeft, againLeft]
  | armFails d err =>
    simp only [tunnelStep] at hs
    split at hs
    next w hpc =>
      obtain rfl := Option.some.inj hs
      apply goto_left
      rw [hpc]
      simp only [pcLeft, againLeft]
      split <;> omega
    next => cases hs
  | sys d r =>
    cases r with
    | failed err =>
      simp only [tunnelStep] at hs
      split at hs
      next h => cases h
      next h => cases h
      next h => cases h
      next w _ hpc h =>
        obtain rfl := Option.some.inj hs
        apply goto_left
        rw [hpc]
        simp [pcLeft, againLeft]
      next => cases hs
    | wrote | eintr | eagain => cases ha
  | ready d err =>
    cases err with
    | none => cases ha
    | some err =>
      simp only [tunnelStep] at hs
      split at hs
      next h => cases h
      next w _ hpc h =>
        obtain rfl := Option.some.inj hs
        apply goto_left
        rw [hpc]
        simp [pcLeft, againLeft]
      next => cases hs
  | probe d n err before =>
    simp only [goesOn, Bool.not_eq_false', Bool.and_eq_true, beq_iff_eq] at ha
    obtain ⟨rfl, hfin⟩ := ha
    have hne : err ≠ some .timeout := by
      intro h
      rw [h] at hfin
      cases hfin
    simp only [tunnelStep] at hs
    split at hs
    next w hpc =>
      obtain ⟨-, hs⟩ := Option.ite_none_right_eq_some.mp hs
      obtain rfl := Option.some.inj hs
      apply put_left
      simp only [halfLeft, hpc, if_neg hne, pcLeft, againLeft, if_true]
      omega
    next => cases hs
  | tlsFails d err =>
    simp only [tunnelStep] at hs
    split at hs
    next w hpc =>
      obtain rfl := Option.some.inj hs
      apply goto_left
      rw [hpc]
      simp only [pcLeft, againLeft]
      split <;> omega
    next => cases hs
  | closeWrite d err =>
    simp only [tunnelStep] at hs
    split at hs
    next hpc =>
      obtain rfl := Option.some.inj hs
      show tunnelLeft (s.put d { s.half d with closedWrite := true, pc := .done (err.map .net) } []) < tunnelLeft s
      apply put_left
      simp only [halfLeft, hpc, pcLeft, againLeft]
      omega
    next => cases hs
  | tlsCalls | tlsRecord | tlsTouch => cases ha

/-- Any step, also one that goes on. -/
theorem tunnelStep_left_le {a : TunnelAct} (hs : tunnelStep cfg s a = some s') :
    tunnelLeft s' ≤ tunnelLeft s + 44 := by
  obtain ⟨h, hhalf⟩ := (tunnelStep_moves hs).update
  have hmoved := halfLeft_le s'.last h
  have hother : ∀ e, halfLeft s'.last (s.half e) ≤ halfLeft s.last (s.half e) + 3 := by
    intro e
    have hagain := againLeft_le s'.last (s.half e).pc
    unfold halfLeft
    omega
  unfold tunnelLeft
  rw [hhalf]
  cases actor a with
  | up =>
    have hdown := hother .down
    rw [Function.update_self, Function.update_of_ne (by decide)]
    omega
  | down =>
    have hup := hother .up
    rw [Function.update_self, Function.update_of_ne (by decide)]
    omega

/-- A half that is not done can take a step that does not go on. -/
theorem tunnelStep_able (cfg : TunnelConfig) (s : TunnelState) (d : Dir)
    (hrun : ∀ err, (s.half d).pc ≠ .done err) :
    ∃ a, actor a = d ∧ goesOn a = false ∧ (tunnelStep cfg s a).isSome = true := by
  cases hpc : (s.half d).pc with
  | done err => exact absurd hpc (hrun err)
  | quiet c q =>
    cases q with
    | load => exact ⟨.step d, rfl, rfl, by simp [tunnelStep, halfStep, hpc]⟩
    | sample last => exact ⟨.time d s.now, rfl, rfl, by simp [tunnelStep, hpc]⟩
    | reload last el => exact ⟨.step d, rfl, rfl, by simp only [tunnelStep, halfStep, hpc]; split <;> rfl⟩
  | touch c t =>
    cases t with
    | sample => exact ⟨.time d s.now, rfl, rfl, by simp [tunnelStep, hpc]⟩
    | load now | swap now last =>
      exact ⟨.step d, rfl, rfl, by simp only [tunnelStep, halfStep, hpc]; split <;> rfl⟩
  | connRead =>
    exact ⟨.connRead d 0 (some (.other [])), rfl, rfl,
      by simp [tunnelStep, hpc, TunnelState.delivered]⟩
  | tlsRead =>
    exact ⟨.tlsReturns d 0 (some (.other [])), rfl, rfl,
      by simp [tunnelStep, hpc, TunnelState.delivered]⟩
  | transportRead => exact ⟨.transportRead d 0 (some (.other [])), rfl, rfl, by simp [tunnelStep, hpc]⟩
  | syscalling w => exact ⟨.sys d (.failed (.other [])), rfl, rfl, by simp [tunnelStep, hpc]⟩
  | waiting w => exact ⟨.ready d (some (.other [])), rfl, rfl, by simp [tunnelStep, hpc]⟩
  | probing w => exact ⟨.probe d 0 (some (.other [])) false, rfl, rfl, by simp [tunnelStep, hpc]⟩
  | tlsWriting w => exact ⟨.tlsFails d (.other []), rfl, rfl, by simp [tunnelStep, hpc]⟩
  | returned err =>
    cases err with
    | none => exact ⟨.closeWrite d none, rfl, rfl, by simp [tunnelStep, hpc]⟩
    | some err => exact ⟨.step d, rfl, rfl, by simp [tunnelStep, halfStep, hpc]⟩
  | reading | got | writing | chunk | written | checked =>
    exact ⟨.step d, rfl, rfl, by simp [tunnelStep, halfStep, hpc]⟩

/-- A tunnel does not spin. From any state on, the number of steps is bounded
by that of the results of the connections after which a half went on: what the
halves do to each other's clock costs them a bounded number of steps. When
only such a result could follow, both halves are done. -/
theorem tunnel_terminates {src : Dir → SourceStart} {as : List TunnelAct} (hbuf : 0 < cfg.bufLen)
    (h : (tunnel cfg src).execFrom s as = some s') :
    as.length ≤ 82 + 45 * as.countP goesOn ∧
    ((∀ a, goesOn a = false → tunnelStep cfg s' a = none) → ∀ d, ∃ err, (s'.half d).pc = .done err) := by
  constructor
  · have hstep : ∀ {t a t'}, True → (tunnel cfg src).step t a = some t' →
        tunnelLeft t' + 1 ≤ tunnelLeft t + if goesOn a then 45 else 0 := by
      intro t a t' _ ht
      split
      next =>
        have hle := tunnelStep_left_le ht
        omega
      next ha => exact tunnelStep_left hbuf (Bool.not_eq_true _ ▸ ha) ht
    have hle := (Machine.length_le (I := fun _ => True) trivial (fun _ _ => trivial) hstep h).2
    have hup := halfLeft_le s.last (s.half .up)
    have hdown := halfLeft_le s.last (s.half .down)
    unfold tunnelLeft at hle
    omega
  · intro hstuck d
    by_contra hrun
    obtain ⟨a, -, ha, hsome⟩ := tunnelStep_able cfg s' d fun err herr => hrun ⟨err, herr⟩
    rw [hstuck a ha] at hsome
    cases hsome

theorem tunnel_terminates_oneWayRun : ∃ s, (tunnel tcpConfig oneWaySource).exec oneWayRun = some s ∧
    oneWayRun.length ≤ 82 + 45 * oneWayRun.countP goesOn ∧ ∀ d, ∃ err, (s.half d).pc = .done err := by
  have hrun : ((tunnel tcpConfig oneWaySource).exec oneWayRun).map
      (fun s => ((s.half .up).pc, (s.half .down).pc)) = some (.done none, .done none) := by
    decide +kernel
  obtain ⟨s, hs, he⟩ := Option.map_eq_some_iff.mp hrun
  obtain ⟨hup, hdown⟩ := Prod.mk.inj he
  have hends := tunnel_terminates (by decide) hs
  refine ⟨s, hs, hends.1, hends.2 fun a _ => ?_⟩
  rw [Option.eq_none_iff_forall_not_mem]
  intro s' hs'
  have hnot := (tunnelStep_moves hs').not_done none
  cases hd : actor a with
  | up => rw [hd] at hnot; exact hnot hup
  | down => rw [hd] at hnot; exact hnot hdown

end SP.Proof.Tunnel
