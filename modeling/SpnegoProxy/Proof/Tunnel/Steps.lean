import SpnegoProxy.Impl.Tunnel
import SpnegoProxy.Framework.Machine

/-!
# A tunnel: what a step does

`Moves` says which ways there are to take a step, and `tunnelStep_moves` that
there are no others. Most steps of a half only move it to its next place
(`Goes`); the others read its source, pass bytes to its destination, or read
and change the clock.
-/

namespace SP.Proof.Tunnel

open SP.Go SP.Impl

variable {cfg : TunnelConfig}

/-- Both halves of a tunnel, over the sources `src`. -/
def tunnel (cfg : TunnelConfig) (src : Dir → SourceStart) : Machine TunnelState TunnelAct :=
  ⟨TunnelState.init src, tunnelStep cfg⟩

/-- The half that takes a step. -/
def actor : TunnelAct → Dir
  | .step d | .time d _ | .connRead d _ _ | .tlsCalls d | .tlsReturns d _ _ | .transportRead d _ _ => d
  | .armFails d _ | .sys d _ | .ready d _ | .probe d _ _ _ | .tlsRecord d _ | .tlsTouch d | .tlsFails d _ => d
  | .closeWrite d _ => d

/-- Where `touch` returns to. -/
inductive Resumes : TouchAt → HalfPc → Prop where
  | writes (chunk : Str) (err : Option TunnelErr) : Resumes (.read chunk err) (.writing ⟨chunk, 0, err⟩)
  | tlsWrites (chunk : Str) (err : Option TunnelErr) : Resumes (.read chunk err) (.tlsWriting ⟨chunk, 0, err⟩)
  | next (w : Writing) : Resumes (.write w none) (.writing w)
  | fails (w : Writing) (err : TunnelErr) : Resumes (.write w (some err)) (.written w.total (some err) w.readErr)
  | tlsNext (w : Writing) : Resumes (.tlsWrite w) (.tlsWriting w)
  | expired (n : Nat) (err : Option NetErr) : Resumes (.transport n err) (.quiet (.readExpired n) .load)
  | handed (n : Nat) (err : Option NetErr) : Resumes (.transport n err) .tlsRead

theorem afterTouch_resumes (kind : DestKind) (c : TouchAt) : Resumes c (afterTouch kind c) := by
  cases c with
  | read chunk err =>
    rw [afterTouch]
    split
    · exact .tlsWrites chunk err
    · exact .writes chunk err
  | write w err =>
    cases err with
    | none => exact .next w
    | some err => exact .fails w err
  | tlsWrite w => exact .tlsNext w
  | transport n err =>
    rw [afterTouch]
    split
    · exact .expired n err
    · exact .handed n err

/-- The moves of a half that change nothing but its place. -/
inductive Goes : HalfPc → HalfPc → Prop where
  | asks (c : QuietAt) (last : Int) : Goes (.quiet c .load) (.quiet c (.sample last))
  | asksAgain (c : QuietAt) (last el : Int) : Goes (.quiet c (.reload last el)) (.quiet c .load)
  | arms (last el : Int) : Goes (.quiet .loop (.reload last el)) .reading
  | armsRead (last el : Int) : Goes (.quiet .readLoop (.reload last el)) .transportRead
  | handsOn (n : Nat) (last el : Int) : Goes (.quiet (.readExpired n) (.reload last el)) .tlsRead
  | swaps (c : TouchAt) {now last : Int} (h : last < now) : Goes (.touch c (.load now)) (.touch c (.swap now last))
  | swapsAgain (c : TouchAt) (now last : Int) : Goes (.touch c (.swap now last)) (.touch c (.load now))
  | gotNone (err : Option TunnelErr) : Goes (.got [] err) (.checked err)
  | gotSome (chunk : Str) (err : Option TunnelErr) : Goes (.got chunk err) (.touch (.read chunk err) .sample)
  | tlsCalls : Goes .tlsRead (.quiet .readLoop .load)
  | transport (n : Nat) (err : Option NetErr) : Goes .transportRead (.touch (.transport n err) .sample)
  | transportNone {n : Nat} {err : Option NetErr} {pc : HalfPc} (h : Resumes (.transport n err) pc) : Goes .transportRead pc
  | wroteAll {w : Writing} (h : w.p = []) : Goes (.writing w) (.written w.total none w.readErr)
  | armFails (w : Writing) (err : NetErr) : Goes (.writing w) (.written w.total (some (.net err)) w.readErr)
  | syscall (w : Writing) : Goes (.writing w) (.syscalling w)
  | probe (w : Writing) : Goes (.writing w) (.probing w)
  | eintr (w : Writing) : Goes (.syscalling w) (.syscalling w)
  | eagain (w : Writing) : Goes (.syscalling w) (.waiting w)
  | sysFails (w : Writing) (err : NetErr) : Goes (.syscalling w) (.chunk w 0 (some (.net err)))
  | ready (w : Writing) : Goes (.waiting w) (.syscalling w)
  | waitFails (w : Writing) (err : NetErr) : Goes (.waiting w) (.chunk w 0 (some (.net err)))
  | wrote (w : Writing) {n : Nat} (err : Option TunnelErr) (h : 0 < n) :
      Goes (.chunk w n err) (.touch (.write ⟨w.p.drop n, w.total + n, w.readErr⟩ err) .sample)
  | wroteNone (w : Writing) (err : Option TunnelErr) :
      Goes (.chunk w 0 err) (.written w.total (some (err.getD .noProgress)) w.readErr)
  | tlsWroteAll {w : Writing} (h : w.p = []) : Goes (.tlsWriting w) (.written w.total none w.readErr)
  | tlsTouch (w : Writing) : Goes (.tlsWriting w) (.touch (.tlsWrite w) .sample)
  | tlsFails (w : Writing) (err : NetErr) : Goes (.tlsWriting w) (.written w.total (some (.net err)) w.readErr)
  | loops : Goes (.checked none) (.quiet .loop .load)
  | timesOut : Goes (.checked (some (.net .timeout))) (.quiet .expired .load)
  | fails (err : TunnelErr) : Goes (.checked (some err)) (.returned (some err))

/-- The destination accepts the first `n` bytes of `w.p`, and the half goes on. -/
inductive Accepts (w : Writing) : Nat → HalfPc → HalfPc → Prop where
  | sys (n : Nat) : Accepts w n (.syscalling w) (.chunk w n none)
  | probe (n : Nat) (err : Option NetErr) : Accepts w n (.probing w) (.chunk w n (err.map .net))
  | probeAgain : Accepts w 0 (.probing w) (.probing w)
  | tlsRecord (n : Nat) : Accepts w n (.tlsWriting w) (.tlsWriting ⟨w.p.drop n, w.total + n,
    w.readErr⟩)

/-- A half is cut, where it asked how long the tunnel has been quiet. -/
inductive Cuts : QuietAt → HalfPc → Prop where
  | loop : Cuts .loop (.returned (some .idle))
  | expired : Cuts .expired (.returned (some .idle))
  | readLoop : Cuts .readLoop (.got [] (some .idle))

/-- A deadline that passed is armed again: by another round of the loop, after
the bytes that came with it are handed on. -/
def Rearmed : QuietAt → HalfPc → Prop
  | .expired, pc => pc = .quiet .loop .load
  | .readExpired n, pc => pc = if 0 < n then .tlsRead else .quiet .readLoop .load
  | _, _ => False

/-- What a step of the half `d` can be. -/
inductive Moves (cfg : TunnelConfig) (s : TunnelState) (d : Dir) : TunnelState → Prop where
  | goes {pc : HalfPc} (h : Goes (s.half d).pc pc) : Moves cfg s d (s.goto d pc [])
  | samples {c : QuietAt} {last now : Int} (hpc : (s.half d).pc = .quiet c (.sample last)) :
      Moves cfg s d { s.goto d (.quiet c (.reload last now)) [.sampled d now] with now := now }
  | times {c : TouchAt} {now : Int} (hpc : (s.half d).pc = .touch c .sample) :
      Moves cfg s d { s.goto d (.touch c (.load now)) [] with now := now }
  | touches {c : TouchAt} {t : TouchPc} {pc : HalfPc} {now last : Int} (hpc : (s.half d).pc = .touch c t)
      (hlast : last = s.last ∨ t = .swap last s.last) (hnow : now ≤ last) (hr : Resumes c pc) :
      Moves cfg s d { s.goto d pc [.progress d now] with last := last }
  | cuts {c : QuietAt} {el : Int} {pc : HalfPc} (hpc : (s.half d).pc = .quiet c (.reload s.last el))
      (hquiet : cfg.timeout ≤ el - s.last) (hc : Cuts c pc) : Moves cfg s d (s.goto d pc [.cut d el])
  | rearms {c : QuietAt} {el : Int} {pc : HalfPc} (hpc : (s.half d).pc = .quiet c (.reload s.last el))
      (hr : Rearmed c pc) : Moves cfg s d (s.goto d pc [.rearmed d el])
  | reads (hpc : (s.half d).pc = .reading) :
      Moves cfg s d (s.put d { s.half d with src := ((s.half d).src.read cfg (cfg.source d)).1,
                                             pc := ((s.half d).src.read cfg (cfg.source d)).2 } [])
  | delivers {k : Nat} {err : Option NetErr} (hpc : (s.half d).pc = .connRead ∨ (s.half d).pc = .tlsRead)
      (hk : err = some .eof → (s.half d).src.rest.length ≤ k) :
      Moves cfg s d (s.put d { s.half d with src := ((s.half d).src.deliver cfg k err hk).1,
                                             pc := ((s.half d).src.deliver cfg k err hk).2 } [])
  | accepts {w : Writing} {n : Nat} {pc : HalfPc} (hn : n ≤ w.p.length) (h : Accepts w n (s.half d).pc pc) :
      Moves cfg s d (s.accept d w.p n pc)
  | counts {n : Nat} {err rerr : Option TunnelErr} (hpc : (s.half d).pc = .written n err rerr) :
      Moves cfg s d (s.put d { s.half d with total := (s.half d).total + n,
                                             pc := if err = none then .checked rerr else .returned err } [])
  | ends (hpc : (s.half d).pc = .checked (some (.net .eof))) : Moves cfg s d (s.goto d (.returned none) [])
  | closes {err : TunnelErr} (hpc : (s.half d).pc = .returned (some err)) :
      Moves cfg s d { s.goto d (.done (some err)) [] with closed := true }
  | closesWrite {err : Option NetErr} (hpc : (s.half d).pc = .returned none) :
      Moves cfg s d { s.put d { s.half d with closedWrite := true, pc := .done (err.map .net) } [] with
        closed := s.closed || err.isSome }

section

variable {s s' : TunnelState} {d : Dir}

/-- `clock.remaining()` or `clock.idle()` is decided at a sample. -/
theorem decideQuiet_moves {c : QuietAt} {el : Int}
    (hpc : (s.half d).pc = .quiet c (.reload s.last el)) :
    Moves cfg s d (s.goto d (decideQuiet cfg d el (el - s.last) c).1 (decideQuiet cfg d el (el - s.last) c).2) := by
  cases c with
  | loop =>
    simp only [decideQuiet]
    split
    · exact .cuts hpc (by omega) .loop
    · exact .goes (by rw [hpc]; exact .arms s.last el)
  | expired =>
    simp only [decideQuiet]
    split
    · exact .cuts hpc (by omega) .expired
    · exact .rearms hpc rfl
  | readLoop =>
    simp only [decideQuiet]
    split
    · exact .cuts hpc (by omega) .readLoop
    · exact .goes (by rw [hpc]; exact .armsRead s.last el)
  | readExpired n =>
    simp only [decideQuiet]
    split
    · exact .goes (by rw [hpc]; exact .handsOn n s.last el)
    · exact .rearms hpc rfl

theorem afterRead_moves {rerr : Option TunnelErr} (hpc : (s.half d).pc = .checked rerr) :
    Moves cfg s d (s.goto d (afterRead rerr) []) := by
  rw [afterRead.eq_def]
  split
  · exact .goes (by rw [hpc]; exact .loops)
  · exact .goes (by rw [hpc]; exact .timesOut)
  · exact .ends hpc
  · exact .goes (by rw [hpc]; exact .fails _)

/-- A step of a half that the state decides. -/
theorem halfStep_moves (hs : halfStep cfg s d = some s') : Moves cfg s d s' := by
  rw [halfStep] at hs
  split at hs
  next c hpc =>
    obtain rfl := Option.some.inj hs
    exact .goes (by rw [hpc]; exact .asks c s.last)
  next c last el hpc =>
    split at hs <;> obtain rfl := Option.some.inj hs
    next hlast =>
      subst hlast
      exact decideQuiet_moves hpc
    next => exact .goes (by rw [hpc]; exact .asksAgain c last el)
  next c now hpc =>
    split at hs <;> obtain rfl := Option.some.inj hs
    next hlt => exact .goes (by rw [hpc]; exact .swaps c hlt)
    next hle => exact .touches hpc (.inl rfl) (Int.not_lt.mp hle) (afterTouch_resumes _ c)
  next c now last hpc =>
    split at hs <;> obtain rfl := Option.some.inj hs
    next hlast => exact .touches hpc (.inr (by rw [hlast])) (Int.le_refl _) (afterTouch_resumes _ c)
    next => exact .goes (by rw [hpc]; exact .swapsAgain c now last)
  next hpc =>
    obtain rfl := Option.some.inj hs
    exact .reads hpc
  next chunk err hpc =>
    obtain rfl := Option.some.inj hs
    split
    next hnil => exact .goes (by rw [hpc, hnil]; exact .gotNone err)
    next => exact .goes (by rw [hpc]; exact .gotSome chunk err)
  next w hpc =>
    obtain rfl := Option.some.inj hs
    simp only [chunkPc]
    split
    next hnil => exact .goes (by rw [hpc]; exact .wroteAll hnil)
    next =>
      split
      · exact .goes (by rw [hpc]; exact .syscall w)
      · exact .goes (by rw [hpc]; exact .probe w)
  next w n err hpc =>
    obtain rfl := Option.some.inj hs
    simp only [afterChunk]
    split
    next hn => exact .goes (by rw [hpc]; exact .wrote w err hn)
    next hn =>
      obtain rfl : n = 0 := by omega
      exact .goes (by rw [hpc]; exact .wroteNone w err)
  next w hpc =>
    obtain ⟨hnil, hs⟩ := Option.ite_none_right_eq_some.mp hs
    obtain rfl := Option.some.inj hs
    exact .goes (by rw [hpc]; exact .tlsWroteAll hnil)
  next n err rerr hpc =>
    obtain rfl := Option.some.inj hs
    exact .counts hpc
  next rerr hpc =>
    obtain rfl := Option.some.inj hs
    exact afterRead_moves hpc
  next err hpc =>
    obtain rfl := Option.some.inj hs
    exact .closes hpc
  next => cases hs

theorem delivered_moves {k : Nat} {err : Option NetErr}
    (hpc : (s.half d).pc = .connRead ∨ (s.half d).pc = .tlsRead)
    (hs : s.delivered cfg d k err = some s') : Moves cfg s d s' := by
  simp only [TunnelState.delivered] at hs
  split at hs
  next hk =>
    obtain rfl := Option.some.inj hs
    exact .delivers hpc hk.2.2
  next => cases hs

/-- `writeTunnelBuffered`: a timeout after some bytes is a success for them. -/
theorem probe_moves {w : Writing} {n : Nat} {err : Option NetErr} {before : Bool}
    (hpc : (s.half d).pc = .probing w) (hn : n ≤ w.p.length) :
    Moves cfg s d (s.accept d w.p n
      (if err = some .timeout then
        if 0 < n then .chunk w n none else if before then .probing w else .chunk w n (err.map .net)
      else .chunk w n (err.map .net))) := by
  split_ifs with ht hpos hb
  · exact .accepts hn (by rw [hpc]; exact .probe n none)
  · obtain rfl : n = 0 := by omega
    exact .accepts hn (by rw [hpc]; exact .probeAgain)
  · exact .accepts hn (by rw [hpc]; exact .probe n err)
  · exact .accepts hn (by rw [hpc]; exact .probe n err)

/-- Every step. -/
theorem tunnelStep_moves {a : TunnelAct} (hs : tunnelStep cfg s a = some s') :
    Moves cfg s (actor a) s' := by
  cases a with
  | step d => exact halfStep_moves hs
  | time d now =>
    obtain ⟨-, hs⟩ := Option.ite_none_right_eq_some.mp hs
    split at hs
    next c last hpc =>
      obtain rfl := Option.some.inj hs
      exact .samples hpc
    next c hpc =>
      obtain rfl := Option.some.inj hs
      exact .times hpc
    next => cases hs
  | connRead d k err =>
    obtain ⟨hpc, hs⟩ := Option.ite_none_right_eq_some.mp hs
    exact delivered_moves (.inl hpc) hs
  | tlsReturns d k err =>
    obtain ⟨hpc, hs⟩ := Option.ite_none_right_eq_some.mp hs
    exact delivered_moves (.inr hpc) hs
  | tlsCalls d =>
    obtain ⟨hpc, hs⟩ := Option.ite_none_right_eq_some.mp hs
    obtain rfl := Option.some.inj hs
    exact .goes (by rw [actor, hpc]; exact .tlsCalls)
  | transportRead d n err =>
    obtain ⟨hpc, hs⟩ := Option.ite_none_right_eq_some.mp hs
    obtain rfl := Option.some.inj hs
    split
    · exact .goes (by rw [actor, hpc]; exact .transport n err)
    · exact .goes (by rw [actor, hpc]; exact .transportNone (afterTouch_resumes _ _))
  | armFails d err =>
    simp only [tunnelStep] at hs
    split at hs
    next w hpc =>
      obtain rfl := Option.some.inj hs
      exact .goes (by rw [actor, hpc]; exact .armFails w err)
    next => cases hs
  | sys d r =>
    simp only [tunnelStep] at hs
    split at hs
    next w n hpc =>
      obtain ⟨hn, hs⟩ := Option.ite_none_right_eq_some.mp hs
      obtain rfl := Option.some.inj hs
      exact .accepts hn (by rw [actor, hpc]; exact .sys n)
    next w hpc =>
      obtain rfl := Option.some.inj hs
      exact .goes (by rw [actor, hpc]; exact .eintr w)
    next w hpc =>
      obtain rfl := Option.some.inj hs
      exact .goes (by rw [actor, hpc]; exact .eagain w)
    next w err hpc =>
      obtain rfl := Option.some.inj hs
      exact .goes (by rw [actor, hpc]; exact .sysFails w err)
    next => cases hs
  | ready d err =>
    simp only [tunnelStep] at hs
    split at hs
    next w hpc =>
      obtain rfl := Option.some.inj hs
      exact .goes (by rw [actor, hpc]; exact .ready w)
    next w err hpc =>
      obtain rfl := Option.some.inj hs
      exact .goes (by rw [actor, hpc]; exact .waitFails w err)
    next => cases hs
  | probe d n err before =>
    simp only [tunnelStep] at hs
    split at hs
    next w hpc =>
      obtain ⟨hn, hs⟩ := Option.ite_none_right_eq_some.mp hs
      obtain rfl := Option.some.inj hs
      exact probe_moves hpc hn
    next => cases hs
  | tlsRecord d k =>
    simp only [tunnelStep] at hs
    split at hs
    next w hpc =>
      obtain ⟨hk, hs⟩ := Option.ite_none_right_eq_some.mp hs
      obtain rfl := Option.some.inj hs
      exact .accepts hk.2 (by rw [actor, hpc]; exact .tlsRecord k)
    next => cases hs
  | tlsTouch d =>
    simp only [tunnelStep] at hs
    split at hs
    next w hpc =>
      obtain rfl := Option.some.inj hs
      exact .goes (by rw [actor, hpc]; exact .tlsTouch w)
    next => cases hs
  | tlsFails d err =>
    simp only [tunnelStep] at hs
    split at hs
    next w hpc =>
      obtain rfl := Option.some.inj hs
      exact .goes (by rw [actor, hpc]; exact .tlsFails w err)
    next => cases hs
  | closeWrite d err =>
    simp only [tunnelStep] at hs
    split at hs
    next hpc =>
      obtain rfl := Option.some.inj hs
      exact .closesWrite hpc
    next => cases hs

end

@[simp] theorem half_put (s : TunnelState) (d : Dir) (h : Half) (es : List TunnelEvent) :
    (s.put d h es).half d = h :=
  Function.update_self ..

@[simp] theorem half_goto (s : TunnelState) (d : Dir) (pc : HalfPc) (es : List TunnelEvent) :
    (s.goto d pc es).half d = { s.half d with pc := pc } := half_put ..

@[simp] theorem half_accept (s : TunnelState) (d : Dir) (p : Str) (n : Nat) (pc : HalfPc) :
    (s.accept d p n pc).half d = { s.half d with accepted := (s.half d).accepted ++ p.take n, pc := pc } := half_put ..

/-- Only the half that takes a step changes. -/
theorem Moves.update {s s' : TunnelState} {d : Dir} (h : Moves cfg s d s') :
    ∃ h, s'.half = Function.update s.half d h := by
  cases h <;> exact ⟨_, rfl⟩

theorem half_of_ne {s s' : TunnelState} {a : TunnelAct} {d : Dir}
    (hs : tunnelStep cfg s a = some s') (hd : d ≠ actor a) : s'.half d = s.half d := by
  obtain ⟨h, hh⟩ := (tunnelStep_moves hs).update
  rw [hh, Function.update_of_ne hd]

end SP.Proof.Tunnel
