import SpnegoProxy.Proof.Tunnel.Steps

/-!
# What a tunnel passes on

A half is `Faithful` to the stream of its source: what the destination has
accepted, then what the half holds, then what the source has yet to return,
is the stream. Each layer keeps its own count of what it passed on, and the
counts add up to what was accepted.
-/

namespace SP.Proof.Tunnel

open SP.Go SP.Impl

variable {cfg : TunnelConfig}

/-! ## What a half holds -/

/-- The bytes that were read and not yet accepted. After a failed write they
are lost. -/
def unaccepted : HalfPc → Option Str
  | .got chunk _ | .touch (.read chunk _) _ => some chunk
  | .touch (.write w _) _ | .touch (.tlsWrite w) _ => some w.p
  | .writing w | .syscalling w | .waiting w | .probing w | .tlsWriting w => some w.p
  | .chunk w n _ => some (w.p.drop n)
  | .written _ (some _) _ | .returned (some _) | .done _ => none
  | _ => some []

/-- The bytes accepted since `dst.Write` was called, which `total` does not
count yet. -/
def uncounted : HalfPc → Nat
  | .touch (.write w _) _ | .touch (.tlsWrite w) _ => w.total
  | .writing w | .syscalling w | .waiting w | .probing w | .tlsWriting w => w.total
  | .chunk w n _ => w.total + n
  | .written n _ _ => n
  | _ => 0

/-- The error that the last read returned with its bytes. -/
def readErr : HalfPc → Option TunnelErr
  | .got _ err | .touch (.read _ err) _ => err
  | .touch (.write w _) _ | .touch (.tlsWrite w) _ => w.readErr
  | .writing w | .syscalling w | .waiting w | .probing w | .tlsWriting w | .chunk w _ _ => w.readErr
  | .written _ _ err | .checked err => err
  | _ => none

/-- In the reader's connection, which it reads when its buffer is empty. -/
def Below : HalfPc → Prop
  | .connRead | .tlsRead | .transportRead | .touch (.transport _ _) _ => True
  | .quiet .readLoop _ | .quiet (.readExpired _) _ => True
  | _ => False

structure Faithful (stream : Str) (h : Half) : Prop where
  ordered : h.accepted <+: stream
  split : ∀ p, unaccepted h.pc = some p → h.accepted ++ p ++ h.src.stream = stream
  count : h.accepted.length = h.total + uncounted h.pc
  eof : readErr h.pc = some (.net .eof) → h.src.stream = []
  below : Below h.pc → h.src.buffered = []
  fin : h.pc = .returned none → h.accepted = stream
  closed : h.closedWrite = true → h.accepted = stream ∧ ∃ err, h.pc = .done err

/-- A half that goes from one place to the other still holds what it held, and
is not at its end. -/
def Keeps (pc pc' : HalfPc) : Prop :=
  (∀ err, pc ≠ .done err) ∧ (∀ p, unaccepted pc' = some p → unaccepted pc = some p) ∧
    uncounted pc' = uncounted pc ∧
    (readErr pc' = some (.net .eof) → readErr pc = some (.net .eof)) ∧ (Below pc' → Below pc) ∧
    pc' ≠ .returned none

theorem take_append_drop_append (p q : Str) (n : Nat) : p.take n ++ (p.drop n ++ q) = p ++ q := by
  rw [← List.append_assoc, List.take_append_drop]

namespace Faithful

variable {stream : Str} {h : Half} {pc : HalfPc}

theorem init (src : SourceStart) :
    Faithful src.stream ⟨src.source, [], 0, false, .quiet .loop .load⟩ where
  ordered := List.nil_prefix
  split p hp := by cases hp; rfl
  count := rfl
  eof he := by cases he
  below hb := hb.elim
  fin hf := by cases hf
  closed hc := by cases hc

theorem not_closed (h₀ : Faithful stream h) (hrun : ∀ err, h.pc ≠ .done err) :
    ¬ h.closedWrite = true := by
  intro hc
  obtain ⟨-, err, he⟩ := h₀.closed hc
  exact hrun err he

/-- A half that goes on with the same bytes in hand. -/
theorem move (h₀ : Faithful stream h) (hk : Keeps h.pc pc) : Faithful stream { h with pc := pc } := by
  obtain ⟨hrun, hp, hu, he, hb, hf⟩ := hk
  exact {
    ordered := h₀.ordered
    split := fun p hpp => h₀.split p (hp p hpp)
    count := by rw [hu]; exact h₀.count
    eof := fun hr => h₀.eof (he hr)
    below := fun hbb => h₀.below (hb hbb)
    fin := fun hr => absurd hr hf
    closed := fun hc => absurd hc (h₀.not_closed hrun) }

/-- The destination accepts some of the bytes in hand. -/
theorem accept {p : Str} {n : Nat} (h₀ : Faithful stream h) (hrun : ∀ err, h.pc ≠ .done err)
    (hp : unaccepted h.pc = some p) (hn : n ≤ p.length) (hp' : unaccepted pc = some (p.drop n))
    (hu : uncounted pc = uncounted h.pc + n)
    (he : readErr pc = some (.net .eof) → readErr h.pc = some (.net .eof)) (hb : ¬ Below pc)
    (hf : pc ≠ .returned none) :
    Faithful stream { h with accepted := h.accepted ++ p.take n, pc := pc } where
  ordered := by
    refine ⟨p.drop n ++ h.src.stream, ?_⟩
    rw [← h₀.split p hp]
    simp [take_append_drop_append]
  split q hq := by
    obtain rfl : p.drop n = q := Option.some.inj (hp'.symm.trans hq)
    rw [← h₀.split p hp]
    simp
  count := by
    have hc := h₀.count
    simp only [List.length_append, List.length_take, hu]
    omega
  eof hr := h₀.eof (he hr)
  below hbb := absurd hbb hb
  fin hr := absurd hr hf
  closed hc := absurd hc (h₀.not_closed hrun)

theorem accepts {w : Writing} {n : Nat} (h₀ : Faithful stream h) (hn : n ≤ w.p.length)
    (ha : Accepts w n h.pc pc) :
    Faithful stream { h with accepted := h.accepted ++ w.p.take n, pc := pc } := by
  generalize hpc : h.pc = pc₀ at ha
  cases ha <;> refine h₀.accept ?_ ?_ hn ?_ ?_ ?_ ?_ ?_ <;> simp [hpc, unaccepted, uncounted,
    readErr, Below]

/-- `src.Read(buf)` returns what the reader holds, or reads its connection. -/
theorem read {kind : SourceKind} (h₀ : Faithful stream h) (hpc : h.pc = .reading) :
    Faithful stream { h with src := (h.src.read cfg kind).1, pc := (h.src.read cfg kind).2 } := by
  have hsplit : h.accepted ++ h.src.stream = stream := by simpa using h₀.split [] (by rw [hpc]; rfl)
  have hcount : h.accepted.length = h.total := by simpa [hpc, uncounted] using h₀.count
  have hclosed := h₀.not_closed (by simp [hpc])
  unfold Source.read
  split
  next hbuf =>
    refine ⟨h₀.ordered, fun p hp => ?_, hcount, fun he => (nomatch he), fun hb => hb.elim, by simp,
      fun hc => absurd hc hclosed⟩
    obtain rfl : h.src.buffered.take cfg.bufLen = p := Option.some.inj hp
    simpa [Source.stream, take_append_drop_append] using hsplit
  next hbuf =>
    have hempty : h.src.buffered = [] := by simpa using hbuf
    split
    next err _ herr =>
      refine ⟨h₀.ordered, fun p hp => ?_, hcount, fun he => ?_, fun hb => hb.elim, by simp,
        fun hc => absurd hc hclosed⟩
      · obtain rfl : [] = p := Option.some.inj hp
        simpa [Source.stream] using hsplit
      · have hrest := h.src.eof (herr.trans he)
        simp [Source.stream, hempty, hrest]
    next =>
      refine ⟨h₀.ordered, fun p hp => ?_, hcount, fun he => (nomatch he), fun _ => hempty, by simp,
        fun hc => absurd hc hclosed⟩
      obtain rfl : [] = p := Option.some.inj hp
      simpa using hsplit
    next =>
      refine ⟨h₀.ordered, fun p hp => ?_, hcount, fun he => (nomatch he), fun _ => hempty, by simp,
        fun hc => absurd hc hclosed⟩
      obtain rfl : [] = p := Option.some.inj hp
      simpa using hsplit

/-- The reader's connection delivers `k` bytes. -/
theorem deliver {k : Nat} {err : Option NetErr} (h₀ : Faithful stream h) (hb : Below h.pc)
    (hk : err = some .eof → h.src.rest.length ≤ k) :
    Faithful stream { h with src := (h.src.deliver cfg k err hk).1, pc := (h.src.deliver cfg k err hk).2 } := by
  have hempty := h₀.below hb
  have hsplit : h.accepted ++ h.src.rest = stream := by
    have hpend : unaccepted h.pc = some [] := by
      cases hpc : h.pc <;> rw [hpc] at hb <;> first | rfl | exact hb.elim | skip
      next c t => cases c <;> first | rfl | exact hb.elim
    simpa [Source.stream, hempty] using h₀.split [] hpend
  have hcount : h.accepted.length = h.total := by
    have hun : uncounted h.pc = 0 := by
      cases hpc : h.pc <;> rw [hpc] at hb <;> first | rfl | exact hb.elim | skip
      next c t => cases c <;> first | rfl | exact hb.elim
    simpa [hun] using h₀.count
  have hclosed := h₀.not_closed (by intro err he; rw [he] at hb; exact hb)
  unfold Source.deliver
  split
  next =>
    refine ⟨h₀.ordered, fun p hp => ?_, hcount, fun he => ?_, fun hb => hb.elim, by simp,
      fun hc => absurd hc hclosed⟩
    · obtain rfl : h.src.rest.take k = p := Option.some.inj hp
      simpa [Source.stream, hempty] using hsplit
    · have heof : err = some .eof := by cases err <;> simp_all [readErr]
      simp [Source.stream, hempty, hk heof]
  next =>
    refine ⟨h₀.ordered, fun p hp => ?_, hcount, fun he => (nomatch he), fun hb => hb.elim, by simp,
      fun hc => absurd hc hclosed⟩
    obtain rfl : (h.src.rest.take k).take cfg.bufLen = p := Option.some.inj hp
    simp only [Source.stream, List.append_assoc, take_append_drop_append, List.take_append_drop]
    exact hsplit

/-- `dst.Write` returned, and `total` counts what it wrote. -/
theorem counted {n : Nat} {err rerr : Option TunnelErr} (h₀ : Faithful stream h)
    (hpc : h.pc = .written n err rerr) : Faithful stream
      { h with total := h.total + n, pc := if err = none then .checked rerr else .returned err } := by
  have hcount := h₀.count
  have heof := h₀.eof
  have hclosed := h₀.not_closed (by simp [hpc])
  simp only [hpc, uncounted, readErr] at hcount heof
  cases err with
  | none =>
    refine ⟨h₀.ordered,
      fun p hp => h₀.split p (by rw [hpc]; exact hp), hcount, heof, fun hb => hb.elim, by simp,
      fun hc => absurd hc hclosed⟩
  | some e =>
    refine ⟨h₀.ordered,
      fun p hp => (nomatch hp), hcount, fun he => (nomatch he), fun hb => hb.elim, by simp,
      fun hc => absurd hc hclosed⟩

/-- The end of the file ends `idleCopy`, with everything accepted. -/
theorem finish (h₀ : Faithful stream h) (hpc : h.pc = .checked (some (.net .eof))) :
    Faithful stream { h with pc := .returned none } := by
  have hsrc := h₀.eof (by rw [hpc]; rfl)
  have hsplit : h.accepted = stream := by simpa [hsrc] using h₀.split [] (by rw [hpc]; rfl)
  have hcount : h.accepted.length = h.total := by simpa [hpc, uncounted] using h₀.count
  refine ⟨h₀.ordered,
    fun p hp => ?_, hcount, fun he => (nomatch he), fun hb => hb.elim, fun _ => hsplit,
    fun hc => absurd hc (h₀.not_closed (by simp [hpc]))⟩
  obtain rfl : [] = p := Option.some.inj hp
  simpa [hsrc] using hsplit

theorem closeWrite {err : Option TunnelErr} (h₀ : Faithful stream h) (hpc : h.pc = .returned none) :
    Faithful stream { h with closedWrite := true, pc := .done err } where
  ordered := h₀.ordered
  split p hp := (nomatch hp)
  count := by simpa [hpc, uncounted] using h₀.count
  eof he := (nomatch he)
  below hb := hb.elim
  fin hf := (nomatch hf)
  closed _ := ⟨h₀.fin hpc, err, rfl⟩

end Faithful

/-! ## Every step -/

section Keeps

variable {pc pc' : HalfPc} {c : QuietAt} {q q' : QuietPc} {t t' : TouchPc}

theorem keeps_quiet : Keeps (.quiet c q) (.quiet c q') := by
  cases c <;> simp [Keeps, unaccepted, uncounted, readErr, Below]

theorem keeps_touch {c : TouchAt} : Keeps (.touch c t) (.touch c t') := by
  cases c <;> simp [Keeps, unaccepted, uncounted, readErr, Below]

theorem Resumes.keeps {c : TouchAt} (h : Resumes c pc) : Keeps (.touch c t) pc := by
  cases h <;> simp [Keeps, unaccepted, uncounted, readErr, Below]

theorem Cuts.keeps (h : Cuts c pc) : Keeps (.quiet c q) pc := by
  cases h <;> simp [Keeps, unaccepted, uncounted, readErr, Below]

theorem Rearmed.keeps (h : Rearmed c pc) : Keeps (.quiet c q) pc := by
  cases c with
  | loop | readLoop => exact h.elim
  | expired =>
    obtain rfl : pc = .quiet .loop .load := h
    simp [Keeps, unaccepted, uncounted, readErr, Below]
  | readExpired n =>
    obtain rfl : pc = if 0 < n then .tlsRead else .quiet .readLoop .load := h
    split <;> simp [Keeps, unaccepted, uncounted, readErr, Below]

theorem Goes.keeps (h : Goes pc pc') : Keeps pc pc' := by
  cases h with
  | asks | asksAgain => exact keeps_quiet
  | swaps | swapsAgain => exact keeps_touch
  | transportNone hr => cases hr <;> simp [Keeps, unaccepted, uncounted, readErr, Below]
  | wroteAll hnil | tlsWroteAll hnil => simp [Keeps, unaccepted, uncounted, readErr, Below, hnil]
  | _ => simp [Keeps, unaccepted, uncounted, readErr, Below]

end Keeps

section Step

variable {s s' : TunnelState} {d : Dir}

/-- Only the half that takes a step changes. -/
theorem forall_put {P : Dir → Half → Prop} {h : Half} (hP : ∀ e, P e (s.half e)) (hd : P d h) :
    ∀ e, P e (Function.update s.half d h e) := by
  intro e
  by_cases he : e = d
  · subst he
    simpa using hd
  · simpa [Function.update_of_ne he] using hP e

variable {stream : Dir → Str}

theorem Moves.faithful (hm : Moves cfg s d s') (h : ∀ e, Faithful (stream e) (s.half e)) :
    ∀ e, Faithful (stream e) (s'.half e) := by
  cases hm with
  | goes hg => exact forall_put h ((h d).move hg.keeps)
  | samples hpc => exact forall_put h ((h d).move (by rw [hpc]; exact keeps_quiet))
  | times hpc => exact forall_put h ((h d).move (by rw [hpc]; exact keeps_touch))
  | touches hpc _ _ hr => exact forall_put h ((h d).move (by rw [hpc]; exact hr.keeps))
  | cuts hpc _ hc => exact forall_put h ((h d).move (by rw [hpc]; exact hc.keeps))
  | rearms hpc hr => exact forall_put h ((h d).move (by rw [hpc]; exact hr.keeps))
  | reads hpc => exact forall_put h ((h d).read hpc)
  | delivers hpc hk => exact forall_put h ((h d).deliver (by rcases hpc with hpc | hpc <;> rw [hpc] <;> trivial) hk)
  | accepts hn ha => exact forall_put h ((h d).accepts hn ha)
  | counts hpc => exact forall_put h ((h d).counted hpc)
  | ends hpc => exact forall_put h ((h d).finish hpc)
  | closes hpc => exact forall_put h ((h d).move (by rw [hpc]; simp [Keeps, unaccepted, uncounted, readErr, Below]))
  | closesWrite hpc => exact forall_put h ((h d).closeWrite hpc)

end Step

theorem tunnel_faithful {src : Dir → SourceStart} {as : List TunnelAct} {s : TunnelState}
    (h : (tunnel cfg src).exec as = some s) (d : Dir) : Faithful (src d).stream (s.half d) :=
  Machine.invariant (I := fun _ s => ∀ d, Faithful (src d).stream (s.half d)) (fun d => Faithful.init (src d))
    (fun _ hi hs => (tunnelStep_moves hs).faithful hi) h d

/-! ## How a half ends -/

theorem deliver_ne_nil (src : Source) {k : Nat} {err : Option NetErr}
    (h : err = some .eof → src.rest.length ≤ k) : (src.deliver cfg k err h).2 ≠ .returned none := by
  simp only [Source.deliver]
  split <;> simp

theorem read_ne_nil (src : Source) (kind : SourceKind) : (src.read cfg kind).2 ≠ .returned none := by
  simp only [Source.read]
  split
  · simp
  · split <;> simp

section Actor

variable {s s' : TunnelState} {d : Dir}

theorem Moves.ends_at_eof (hm : Moves cfg s d s') :
    ((s'.half d).pc = .returned none → (s.half d).pc = .checked (some (.net .eof))) ∧
    ((s'.half d).closedWrite = true → (s.half d).closedWrite = true ∨ (s.half d).pc = .returned none) := by
  -- most moves do neither
  have hneither : ∀ {h : Half}, s'.half d = h → h.pc ≠ .returned none →
    h.closedWrite = (s.half d).closedWrite →
      ((s'.half d).pc = .returned none → (s.half d).pc = .checked (some (.net .eof))) ∧
      ((s'.half d).closedWrite = true → (s.half d).closedWrite = true ∨ (s.half d).pc = .returned none) := by
    rintro h rfl hpc hc
    exact ⟨fun he => absurd he hpc, fun he => .inl (hc ▸ he)⟩
  cases hm with
  | goes hg => exact hneither (half_goto ..) hg.keeps.2.2.2.2.2 rfl
  | samples | times | closes => exact hneither (half_goto s d _ []) nofun rfl
  | touches hpc _ _ hr => exact hneither (half_goto s d _ []) (hr.keeps (t := .sample)).2.2.2.2.2 rfl
  | cuts hpc _ hc => exact hneither (half_goto ..) (hc.keeps (q := .load)).2.2.2.2.2 rfl
  | rearms hpc hr => exact hneither (half_goto ..) (hr.keeps (q := .load)).2.2.2.2.2 rfl
  | reads hpc => exact hneither (half_put ..) (read_ne_nil _ _) rfl
  | delivers hpc hk => exact hneither (half_put ..) (deliver_ne_nil _ hk) rfl
  | accepts hn ha =>
    refine hneither (half_accept ..) ?_ rfl
    generalize (s.half d).pc = pc₀ at ha
    cases ha <;> nofun
  | @counts n err rerr hpc =>
    refine hneither (half_put ..) ?_ rfl
    cases err <;> simp
  | ends hpc =>
    rw [half_goto]
    exact ⟨fun _ => hpc, .inl⟩
  | closesWrite hpc => exact ⟨fun he => by simp at he, fun _ => .inr hpc⟩

/-- `idleCopy` returns nil at the end of the file only, and `CloseWrite` is
called after that only. -/
theorem ends_at_eof {a : TunnelAct} (hs : tunnelStep cfg s a = some s') (d : Dir) :
    ((s'.half d).pc = .returned none →
      (s.half d).pc = .returned none ∨ (s.half d).pc = .checked (some (.net .eof))) ∧
    ((s'.half d).closedWrite = true → (s.half d).closedWrite = true ∨ (s.half d).pc = .returned none) := by
  by_cases hd : d = actor a
  · subst hd
    obtain ⟨hpc, hclosed⟩ := (tunnelStep_moves hs).ends_at_eof
    exact ⟨fun h => .inr (hpc h), hclosed⟩
  · rw [half_of_ne hs hd]
    exact ⟨.inl, .inl⟩

end Actor

/-! ## The loop of `tunnelConn.Write` -/

/-- In an iteration of the loop that began with `n` bytes left. -/
def Iterating (n : Nat) : HalfPc → Prop
  | .syscalling w | .waiting w | .probing w => w.p.length = n
  | .chunk w k _ => w.p.length = n ∧ k ≤ n
  | .touch (.write w _) _ => w.p.length < n
  | _ => False

/-- `dst.Write` has returned. -/
def Returned : HalfPc → Prop
  | .written _ _ _ => True
  | _ => False

/-- Where an iteration that began with `n` bytes left can go: on, to the top
of the loop with fewer bytes, or out of it. -/
def Onward (n : Nat) (pc : HalfPc) : Prop :=
  Iterating n pc ∨ (∃ w, pc = .writing w ∧ w.p.length < n) ∨ Returned pc

section Write

variable {s s' : TunnelState} {a : TunnelAct} {d : Dir} {n : Nat} {pc pc' : HalfPc}

/-- At the top of the loop with `n` bytes left, or in the iteration. -/
def InLoop (n : Nat) (pc : HalfPc) : Prop := Iterating n pc ∨ ∃ w, pc = .writing w ∧ w.p.length = n

theorem Goes.onward (hg : Goes pc pc') (hi : InLoop n pc) : Onward n pc' := by
  cases hg with
  | wroteAll | armFails | wroteNone => exact .inr (.inr trivial)
  | syscall w | probe w | eintr w | eagain w | sysFails w | ready w | waitFails w =>
    refine .inl ?_
    simpa [InLoop, Iterating] using hi
  | wrote w err hpos =>
    obtain ⟨rfl, hk⟩ := hi.resolve_right nofun
    refine .inl ?_
    simp only [Iterating, List.length_drop]
    omega
  | swaps c | swapsAgain c =>
    cases c with
    | write w err => exact .inl (hi.resolve_right nofun)
    | _ => exact (hi.resolve_right nofun).elim
  | _ => exact (hi.resolve_right nofun).elim

theorem Accepts.onward {w : Writing} {k : Nat} (ha : Accepts w k pc pc') (hk : k ≤ w.p.length)
    (hi : InLoop n pc) : Onward n pc' := by
  cases ha with
  | sys | probe =>
    obtain rfl : w.p.length = n := hi.resolve_right nofun
    exact .inl ⟨rfl, hk⟩
  | probeAgain => exact .inl (hi.resolve_right nofun)
  | tlsRecord => exact (hi.resolve_right nofun).elim

theorem Resumes.onward {c : TouchAt} {t : TouchPc} (hr : Resumes c pc)
    (hi : InLoop n (.touch c t)) : Onward n pc := by
  have hi : Iterating n (.touch c t) := hi.resolve_right nofun
  cases hr with
  | next w => exact .inr (.inl ⟨w, rfl, hi⟩)
  | fails w err => exact .inr (.inr trivial)
  | _ => exact hi.elim

/-- Each iteration goes on, leaves the loop, or comes to its top with fewer
bytes than it began with. -/
theorem Moves.onward (hm : Moves cfg s d s') (hi : InLoop n (s.half d).pc) :
    Onward n (s'.half d).pc := by
  cases hm with
  | goes hg =>
    rw [half_goto]
    exact hg.onward hi
  | @times c now hpc =>
    rw [hpc] at hi
    have hi : Iterating n (.touch c .sample) := hi.resolve_right nofun
    refine .inl ?_
    show Iterating n ((s.goto d (.touch c (.load now)) []).half d).pc
    rw [half_goto]
    cases c with
    | write w err => exact hi
    | _ => exact hi.elim
  | @touches c t pc now last hpc _ _ hr =>
    rw [hpc] at hi
    show Onward n ((s.goto d pc [.progress d now]).half d).pc
    rw [half_goto]
    exact hr.onward hi
  | accepts hn ha =>
    rw [half_accept]
    exact ha.onward hn hi
  | delivers hpc => rcases hpc with hpc | hpc <;> simp [hpc, InLoop, Iterating] at hi
  | samples hpc | cuts hpc | rearms hpc | reads hpc | counts hpc | ends hpc | closes hpc | closesWrite hpc =>
    simp [hpc, InLoop, Iterating] at hi

/-- Where a half can be that was at the top of the loop with `w`, has gone on
and has not returned from `Write`. -/
def Looping (w : Writing) (pc : HalfPc) : Prop :=
  (∃ m ≤ w.p.length, Iterating m pc) ∨ ∃ w', pc = .writing w' ∧ w'.p.length < w.p.length

theorem looping_of_onward {w : Writing} {m : Nat} {pc : HalfPc} (hm : m ≤ w.p.length)
    (h : Onward m pc) : Looping w pc ∨ Returned pc := by
  rcases h with hi | ⟨w', hw', hlt⟩ | hr
  · exact .inl (.inl ⟨m, hm, hi⟩)
  · exact .inl (.inr ⟨w', hw', Nat.lt_of_lt_of_le hlt hm⟩)
  · exact .inr hr

theorem looping_step {w : Writing} (hs : tunnelStep cfg s a = some s')
    (h : Looping w (s.half d).pc) : Looping w (s'.half d).pc ∨ Returned (s'.half d).pc := by
  by_cases hd : d = actor a
  case neg => rw [half_of_ne hs hd]; exact .inl h
  subst hd
  have hmove := tunnelStep_moves hs
  rcases h with ⟨m, hm, hi⟩ | ⟨w', hpc, hlt⟩
  · exact looping_of_onward hm (hmove.onward (.inl hi))
  · exact looping_of_onward (Nat.le_of_lt hlt) (hmove.onward (.inr ⟨w', hpc, rfl⟩))

end Write

/-- What can have become, after the actions `as`, of a half that was at the
top of the loop of `tunnelConn.Write`: it has taken no step, is in an
iteration, is at the top with fewer bytes, or has returned on the way. -/
def WriteGoesOn (M : Machine TunnelState TunnelAct) (s : TunnelState) (d : Dir) (w : Writing)
    (as : List TunnelAct) (s' : TunnelState) : Prop :=
  ((∀ a ∈ as, actor a ≠ d) ∧ (s'.half d).pc = .writing w) ∨ Looping w (s'.half d).pc ∨
    ∃ pre t, pre <+: as ∧ M.execFrom s pre = some t ∧ Returned (t.half d).pc

theorem write_terminates {src : Dir → SourceStart} {s s' : TunnelState} {d : Dir} {w : Writing}
    {as : List TunnelAct}
    (hpc : (s.half d).pc = .writing w) (h : (tunnel cfg src).execFrom s as = some s') :
    WriteGoesOn (tunnel cfg src) s d w as s' := by
  refine Machine.invariantFrom (I := fun as s' => WriteGoesOn (tunnel cfg src) s d w as s')
    (.inl ⟨by simp, hpc⟩) ?_ h
  intro as t a t' ht hi hs
  have hnext : Looping w (t'.half d).pc ∨ Returned (t'.half d).pc →
    WriteGoesOn (tunnel cfg src) s d w (as ++ [a]) t' := by
    rintro (hl | hr)
    · exact .inr (.inl hl)
    · exact .inr (.inr ⟨as ++ [a], t', List.prefix_refl _, Machine.execFrom_snoc.mpr ⟨t, ht, hs⟩, hr⟩)
  rcases hi with ⟨hno, hw⟩ | hl | ⟨pre, u, hpre, hu, hr⟩
  · by_cases hd : d = actor a
    · subst hd
      exact hnext (looping_of_onward (Nat.le_refl _) ((tunnelStep_moves hs).onward (.inr ⟨w, hw, rfl⟩)))
    · refine .inl ⟨fun b hb => ?_, by rw [half_of_ne hs hd]; exact hw⟩
      rcases List.mem_append.mp hb with hb | hb
      · exact hno b hb
      · rw [List.mem_singleton.mp hb]
        exact fun e => hd e.symm
  · exact hnext (looping_step hs hl)
  · exact .inr (.inr ⟨pre, u, hpre.trans (List.prefix_append _ _), hu, hr⟩)

/-- A tunnel passes its streams on. What a destination has accepted is a
beginning of its stream. `idleCopy` returns its length, and without an error
only at the end of the file and with the whole stream accepted; `CloseWrite`
is called only then. The loop of `tunnelConn.Write` has fewer bytes left at
each iteration that does not return. -/
theorem stream_faithful {src : Dir → SourceStart} {as : List TunnelAct} {s : TunnelState}
    (h : (tunnel cfg src).exec as = some s) (d : Dir) :
    (s.half d).accepted <+: (src d).stream ∧
    (∀ err, (s.half d).pc = .returned err ∨ (s.half d).pc = .done err →
      (s.half d).total = (s.half d).accepted.length) ∧
    ((s.half d).pc = .returned none → (s.half d).accepted = (src d).stream) ∧
    ((s.half d).closedWrite = true → (s.half d).accepted = (src d).stream) ∧
    (∀ a s', tunnelStep cfg s a = some s' →
      ((s'.half d).pc = .returned none →
        (s.half d).pc = .returned none ∨ (s.half d).pc = .checked (some (.net .eof))) ∧
      ((s'.half d).closedWrite = true → (s.half d).closedWrite = true ∨ (s.half d).pc = .returned none)) ∧
    (∀ w, (s.half d).pc = .writing w → ∀ bs s', (tunnel cfg src).execFrom s bs = some s' →
      WriteGoesOn (tunnel cfg src) s d w bs s') := by
  have hf := tunnel_faithful h d
  refine ⟨hf.ordered,
    fun err he => ?_, hf.fin, fun hc => (hf.closed hc).1, fun a s' hs => ends_at_eof hs d,
    fun w hpc bs s' hbs => write_terminates hpc hbs⟩
  have hcount := hf.count
  rcases he with he | he <;> rw [he] at hcount <;> exact hcount.symm

/-- A tunnel between two TCP connections. -/
def tcpConfig : TunnelConfig where
  timeout := 10
  pos := by decide
  bufLen := 8
  readerLen := 4
  source _ := .conn
  dest _ := .sys

/-- Each side sends `abc`, of which `a` is buffered when the tunnel begins. -/
def abcSource : Dir → SourceStart := fun _ => ⟨str "a", none, str "bc", fun h => nomatch h⟩

/-- From the top of the loop of `idleCopy` to `src.Read`, at the time `t`. -/
def armAt (t : Int) : List TunnelAct := [.step .up, .time .up t, .step .up, .step .up]

/-- `touch`, at the time `t`. -/
def touchAt (t : Int) : List TunnelAct := [.step .up, .time .up t, .step .up, .step .up]

/-- The buffered byte is written after an interrupt and a wait, the others
come with the end of the file and are written one by one. -/
def abcRun : List TunnelAct :=
  armAt 0 ++ touchAt 1 ++ [.step .up, .sys .up .eintr, .sys .up .eagain, .ready .up none,
    .sys .up (.wrote 1)] ++
    touchAt 2 ++ [.step .up, .step .up, .step .up] ++
    armAt 3 ++ [.connRead .up 2 (some .eof)] ++ touchAt 4 ++ [.step .up,
      .sys .up (.wrote 1)] ++ touchAt 5 ++
    [.step .up, .sys .up (.wrote 1)] ++ touchAt 6 ++ [.step .up, .step .up, .step .up, .closeWrite .up none]

theorem stream_faithful_abcRun : ∃ s, (tunnel tcpConfig abcSource).exec abcRun = some s ∧
    (s.half .up).total = 3 ∧ (s.half .up).closedWrite = true ∧
    (s.half .up).accepted = (abcSource .up).stream := by
  have hrun : ((tunnel tcpConfig abcSource).exec abcRun).map
      (fun s => ((s.half .up).total, (s.half .up).closedWrite)) = some (3, true) := by decide +kernel
  obtain ⟨s, hs, he⟩ := Option.map_eq_some_iff.mp hrun
  obtain ⟨htotal, hclosed⟩ := Prod.mk.inj he
  exact ⟨s, hs, htotal, hclosed, (stream_faithful hs .up).2.2.2.1 hclosed⟩

end SP.Proof.Tunnel
