import Mathlib.Logic.Function.Basic
import SpnegoProxy.Impl.Go.Strings

/-!
# Tunnels: `connect.go`, `tunnel_write.go`, `tunnel_write_unix.go`

The two halves of a tunnel with an idle timeout, and the clock they share.
Each half takes its steps one by one, in any order the scheduler picks: a
load or a swap of the clock is a step of its own. What a read, a write or the
time is at a step is part of it. Times count from the tunnel's beginning.

A source is a `bufio.Reader` over a connection, or over TLS; a destination is
a connection with or without a file descriptor, or TLS. Of TLS the model has
what it does with its transport, and that it passes bytes on in order.
-/

namespace SP.Impl

open SP.Go

/-- An error of a connection. -/
inductive NetErr where
  | eof
  /-- A deadline has passed: the errors that `isTimeoutError` finds. -/
  | timeout
  | other (msg : Str)
  deriving DecidableEq

inductive TunnelErr where
  | net (err : NetErr)
  /-- `errTunnelIdle`. -/
  | idle
  /-- `io.ErrNoProgress`. -/
  | noProgress
  deriving DecidableEq

inductive Dir where
  | up
  | down
  deriving DecidableEq

inductive SourceKind where
  | conn
  /-- `upstreamTLSConn`, which reads its transport with `tunnelConn.Read`. -/
  | tls
  deriving DecidableEq

inductive DestKind where
  /-- A `tunnelConn` over a `syscall.Conn`. -/
  | sys
  /-- A `tunnelConn` over any other connection. -/
  | buffered
  /-- `upstreamTLSConn`, which writes its transport with `tunnelConn.Write`. -/
  | tls
  deriving DecidableEq

structure TunnelConfig where
  timeout : Int
  pos : 0 < timeout
  /-- The length of `buf`. -/
  bufLen : Nat
  /-- The size of the `bufio.Reader`s. -/
  readerLen : Nat
  source : Dir → SourceKind
  dest : Dir → DestKind

/-! ## Places -/

/-- Where a half is in `quietForSince`. -/
inductive QuietPc where
  | load
  | sample (last : Int)
  | reload (last elapsed : Int)
  deriving DecidableEq

/-- What asks how long the tunnel has been quiet. -/
inductive QuietAt where
  /-- `clock.remaining()` at the top of `idleCopy`'s loop. -/
  | loop
  /-- `clock.idle()` of `idleCopy`, after a read that timed out. -/
  | expired
  /-- `clock.remaining()` at the top of `tunnelConn.Read`'s loop. -/
  | readLoop
  /-- `clock.idle()` of `tunnelConn.Read`, after a read of `n` bytes that timed out. -/
  | readExpired (n : Nat)
  deriving DecidableEq

/-- Where a half is in `touch`. -/
inductive TouchPc where
  | sample
  | load (now : Int)
  | swap (now last : Int)
  deriving DecidableEq

/-- A call of `dst.Write`: the bytes left, those written, and the error of
the read they came with. -/
structure Writing where
  p : Str
  total : Nat
  readErr : Option TunnelErr
  deriving DecidableEq

/-- What records progress. -/
inductive TouchAt where
  /-- `idleCopy`, after a read. -/
  | read (chunk : Str) (err : Option TunnelErr)
  /-- `tunnelConn.Write`, after `writeTunnelChunk`, whose error is `err`. -/
  | write (w : Writing) (err : Option TunnelErr)
  /-- `tunnelConn.Write` on the transport, below `tls.Conn.Write`. -/
  | tlsWrite (w : Writing)
  /-- `tunnelConn.Read`, after a read of `n` bytes. -/
  | transport (n : Nat) (err : Option NetErr)
  deriving DecidableEq

/-- Where a half is. -/
inductive HalfPc where
  | quiet (c : QuietAt) (q : QuietPc)
  | touch (c : TouchAt) (t : TouchPc)
  /-- Before `src.Read(buf)`, with the deadline armed. -/
  | reading
  /-- In `Read` of the connection. -/
  | connRead
  /-- In `tls.Conn.Read`. -/
  | tlsRead
  /-- In `c.Conn.Read(p)` of `tunnelConn.Read`. -/
  | transportRead
  /-- `src.Read` returned. -/
  | got (chunk : Str) (err : Option TunnelErr)
  /-- At the top of `tunnelConn.Write`'s loop. -/
  | writing (w : Writing)
  /-- In `writeTunnelChunk`, before `syscall.Write`. -/
  | syscalling (w : Writing)
  /-- Waiting until the descriptor can be written. -/
  | waiting (w : Writing)
  /-- In `conn.Write(p)` of `writeTunnelBuffered`. -/
  | probing (w : Writing)
  /-- `writeTunnelChunk` returned. -/
  | chunk (w : Writing) (n : Nat) (err : Option TunnelErr)
  /-- In `tls.Conn.Write`. -/
  | tlsWriting (w : Writing)
  /-- `dst.Write` returned. -/
  | written (n : Nat) (err : Option TunnelErr) (readErr : Option TunnelErr)
  /-- At `if readErr != nil`. -/
  | checked (readErr : Option TunnelErr)
  /-- `idleCopy` returned. -/
  | returned (err : Option TunnelErr)
  /-- `forwardHalf` returned. -/
  | done (err : Option TunnelErr)
  deriving DecidableEq

/-- A `bufio.Reader` and what its connection has yet to deliver. An end of
file is read at the end of the stream only. -/
structure Source where
  buffered : Str
  err : Option TunnelErr
  rest : Str
  eof : err = some (.net .eof) → rest = []

/-- The bytes that a source has yet to return. -/
def Source.stream (src : Source) : Str := src.buffered ++ src.rest

structure Half where
  src : Source
  /-- What the destination has accepted. -/
  accepted : Str
  /-- `total` of `idleCopy`. -/
  total : Nat
  /-- `CloseWrite` was called on the destination. -/
  closedWrite : Bool
  pc : HalfPc

/-- What can be seen of a tunnel. -/
inductive TunnelEvent where
  /-- `quietForSince` reads the time. -/
  | sampled (d : Dir) (elapsed : Int)
  /-- `touch` returns: progress of that time is recorded. -/
  | progress (d : Dir) (elapsed : Int)
  /-- A deadline that passed is armed again. -/
  | rearmed (d : Dir) (elapsed : Int)
  /-- The half is found idle: `errTunnelIdle` is returned. -/
  | cut (d : Dir) (elapsed : Int)
  /-- `idleCopy` returns. -/
  | ended (d : Dir) (err : Option TunnelErr)
  deriving DecidableEq

structure TunnelState where
  /-- `clock.last`. -/
  last : Int
  /-- The latest time read. -/
  now : Int
  half : Dir → Half
  /-- `forwardTunnel` has closed both connections. -/
  closed : Bool
  trace : List TunnelEvent

/-! ## What each place does next -/

/-- `Read` of the `bufio.Reader`'s connection returns `k` bytes. They are
read into `buf` at once if it is no shorter than the reader's own buffer. -/
def Source.deliver (cfg : TunnelConfig) (src : Source) (k : Nat) (err : Option NetErr)
    (h : err = some .eof → src.rest.length ≤ k) : Source × HalfPc :=
  if cfg.readerLen ≤ cfg.bufLen ∨ src.rest.take k = [] then
    (⟨src.buffered, none, src.rest.drop k, fun hs => nomatch hs⟩, .got (src.rest.take k) (err.map .net))
  else
    (⟨(src.rest.take k).drop cfg.bufLen, err.map .net, src.rest.drop k,
      fun hs => List.drop_eq_nil_of_le (h (by cases err <;> simp_all))⟩,
      .got ((src.rest.take k).take cfg.bufLen) none)

/-- `src.Read(buf)` while the reader holds bytes, then its error, and then
from its connection. -/
def Source.read (cfg : TunnelConfig) (kind : SourceKind) (src : Source) : Source × HalfPc :=
  if src.buffered ≠ [] then
    (⟨src.buffered.drop cfg.bufLen, src.err, src.rest, src.eof⟩, .got (src.buffered.take cfg.bufLen) none)
  else match src.err, kind with
    | some err, _ => (⟨src.buffered, none, src.rest, fun hs => nomatch hs⟩, .got [] (some err))
    | none, .conn => (src, .connRead)
    | none, .tls => (src, .tlsRead)

/-- The decision about a tunnel quiet for `quiet` at the time `elapsed`. -/
def decideQuiet (cfg : TunnelConfig) (d : Dir) (elapsed quiet : Int) :
    QuietAt → HalfPc × List TunnelEvent
  | .loop =>
    if cfg.timeout - quiet ≤ 0 then (.returned (some .idle), [.cut d elapsed])
    else (.reading, [])
  | .expired =>
    if cfg.timeout ≤ quiet then (.returned (some .idle), [.cut d elapsed])
    else (.quiet .loop .load, [.rearmed d elapsed])
  | .readLoop =>
    -- TLS passes the error on
    if cfg.timeout - quiet ≤ 0 then (.got [] (some .idle), [.cut d elapsed])
    else (.transportRead, [])
  | .readExpired n =>
    if cfg.timeout ≤ quiet then (.tlsRead, [])
    else (if 0 < n then .tlsRead else .quiet .readLoop .load, [.rearmed d elapsed])

/-- After `clock.touch()`. -/
def afterTouch (kind : DestKind) : TouchAt → HalfPc
  | .read chunk err => if kind = .tls then .tlsWriting ⟨chunk, 0, err⟩ else .writing ⟨chunk, 0, err⟩
  | .write w none => .writing w
  | .write w (some err) => .written w.total (some err) w.readErr
  | .tlsWrite w => .tlsWriting w
  | .transport n err => if err = some .timeout then .quiet (.readExpired n) .load else .tlsRead

/-- `writeTunnelChunk` on either kind of connection. -/
def chunkPc (kind : DestKind) (w : Writing) : HalfPc :=
  if kind = .sys then .syscalling w else .probing w

/-- After `writeTunnelChunk`. -/
def afterChunk (w : Writing) (n : Nat) (err : Option TunnelErr) : HalfPc :=
  if 0 < n then .touch (.write ⟨w.p.drop n, w.total + n, w.readErr⟩ err) .sample
  else .written w.total (some (err.getD .noProgress)) w.readErr

/-- At `if readErr != nil`: the next place, or the result of `idleCopy`. -/
def afterRead : Option TunnelErr → HalfPc
  | none => .quiet .loop .load
  | some (.net .timeout) => .quiet .expired .load
  | some (.net .eof) => .returned none
  | some err => .returned (some err)

def endedEvents (d : Dir) : HalfPc → List TunnelEvent
  | .returned err => [.ended d err]
  | _ => []

/-- The half `d` becomes `h`, and `events` are seen, and the end of `idleCopy`. -/
def TunnelState.put (s : TunnelState) (d : Dir) (h : Half) (events : List TunnelEvent) :
    TunnelState :=
  { s with half := Function.update s.half d h, trace := s.trace ++ (events ++ endedEvents d h.pc) }

def TunnelState.goto (s : TunnelState) (d : Dir) (pc : HalfPc) (events : List TunnelEvent) :
    TunnelState :=
  s.put d { s.half d with pc := pc } events

/-- The destination accepts the first `n` bytes of `p`. -/
def TunnelState.accept (s : TunnelState) (d : Dir) (p : Str) (n : Nat) (pc : HalfPc) :
    TunnelState :=
  s.put d { s.half d with accepted := (s.half d).accepted ++ p.take n, pc := pc } []

/-- A step that the state decides. -/
def halfStep (cfg : TunnelConfig) (s : TunnelState) (d : Dir) : Option TunnelState :=
  match (s.half d).pc with
  | .quiet c .load => some (s.goto d (.quiet c (.sample s.last)) [])
  | .quiet c (.reload last elapsed) =>
    if s.last = last then
      let (pc, events) := decideQuiet cfg d elapsed (elapsed - last) c
      some (s.goto d pc events)
    else some (s.goto d (.quiet c .load) [])
  | .touch c (.load now) =>
    if s.last < now then some (s.goto d (.touch c (.swap now s.last)) [])
    else some (s.goto d (afterTouch (cfg.dest d) c) [.progress d now])
  | .touch c (.swap now last) =>
    if s.last = last then some { s.goto d (afterTouch (cfg.dest d) c) [.progress d now] with last := now }
    else some (s.goto d (.touch c (.load now)) [])
  | .reading =>
    let (src, pc) := (s.half d).src.read cfg (cfg.source d)
    some (s.put d { s.half d with src := src, pc := pc } [])
  | .got chunk err => some (s.goto d (if chunk = [] then .checked err else .touch (.read chunk err) .sample) [])
  | .writing w => some (s.goto d (if w.p = [] then .written w.total none w.readErr else chunkPc (cfg.dest d) w) [])
  | .chunk w n err => some (s.goto d (afterChunk w n err) [])
  | .tlsWriting w => if w.p = [] then some (s.goto d (.written w.total none w.readErr) []) else none
  | .written n err readErr =>
    let pc := if err = none then .checked readErr else .returned err
    some (s.put d { s.half d with total := (s.half d).total + n, pc := pc } [])
  | .checked readErr => some (s.goto d (afterRead readErr) [])
  | .returned (some err) => some { s.goto d (.done (some err)) [] with closed := true }
  | _ => none

/-- What `syscall.Write` returns. -/
inductive SysWrite where
  | wrote (n : Nat)
  | eintr
  | eagain
  /-- Another error, also of `SyscallConn`. -/
  | failed (err : NetErr)
  deriving DecidableEq

inductive TunnelAct where
  | step (d : Dir)
  /-- The time is read. -/
  | time (d : Dir) (now : Int)
  /-- `Read` of the connection returns `k` bytes and `err`. -/
  | connRead (d : Dir) (k : Nat) (err : Option NetErr)
  /-- `tls.Conn.Read` reads its transport. -/
  | tlsCalls (d : Dir)
  /-- `tls.Conn.Read` returns. -/
  | tlsReturns (d : Dir) (k : Nat) (err : Option NetErr)
  /-- `Read` of the transport's connection returns. -/
  | transportRead (d : Dir) (n : Nat) (err : Option NetErr)
  /-- `SetWriteDeadline` fails. -/
  | armFails (d : Dir) (err : NetErr)
  | sys (d : Dir) (r : SysWrite)
  /-- The wait for the descriptor ends. -/
  | ready (d : Dir) (err : Option NetErr)
  /-- `conn.Write(p)` of `writeTunnelBuffered` returns, before its deadline or not. -/
  | probe (d : Dir) (n : Nat) (err : Option NetErr) (before : Bool)
  /-- `tls.Conn.Write` has written a record of `k` bytes. -/
  | tlsRecord (d : Dir) (k : Nat)
  /-- The transport has accepted a part of a record. -/
  | tlsTouch (d : Dir)
  | tlsFails (d : Dir) (err : NetErr)
  /-- `closeWrite(dst)` returns. -/
  | closeWrite (d : Dir) (err : Option NetErr)
  deriving DecidableEq

/-- The longest read of the `bufio.Reader`'s connection. -/
def readLen (cfg : TunnelConfig) : Nat := max cfg.bufLen cfg.readerLen

/-- The reader's connection returns `k` bytes, and the end of the file only
with the last of them. -/
def TunnelState.delivered (cfg : TunnelConfig) (s : TunnelState) (d : Dir) (k : Nat)
    (err : Option NetErr) : Option TunnelState :=
  let src := (s.half d).src
  if h : k ≤ readLen cfg ∧ k ≤ src.rest.length ∧ (err = some .eof → src.rest.length ≤ k) then
    let (src, pc) := src.deliver cfg k err h.2.2
    some (s.put d { s.half d with src := src, pc := pc } [])
  else none

/-- The steps of either half. -/
def tunnelStep (cfg : TunnelConfig) (s : TunnelState) : TunnelAct → Option TunnelState
  | .step d => halfStep cfg s d
  | .time d now =>
    if s.now ≤ now then
      match (s.half d).pc with
      | .quiet c (.sample last) => some { s.goto d (.quiet c (.reload last now)) [.sampled d now] with now := now }
      | .touch c .sample => some { s.goto d (.touch c (.load now)) [] with now := now }
      | _ => none
    else none
  | .connRead d k err => if (s.half d).pc = .connRead then s.delivered cfg d k err else none
  | .tlsCalls d => if (s.half d).pc = .tlsRead then some (s.goto d (.quiet .readLoop .load) []) else none
  | .tlsReturns d k err => if (s.half d).pc = .tlsRead then s.delivered cfg d k err else none
  | .transportRead d n err =>
    if (s.half d).pc = .transportRead then
      some (s.goto d (if 0 < n then .touch (.transport n err) .sample else afterTouch (cfg.dest d) (.transport n err)) [])
    else none
  | .armFails d err =>
    match (s.half d).pc with
    | .writing w => some (s.goto d (.written w.total (some (.net err)) w.readErr) [])
    | _ => none
  | .sys d r =>
    match (s.half d).pc, r with
    | .syscalling w,
      .wrote n => if n ≤ w.p.length then some (s.accept d w.p n (.chunk w n none)) else none
    | .syscalling w, .eintr => some (s.goto d (.syscalling w) [])
    | .syscalling w, .eagain => some (s.goto d (.waiting w) [])
    | .syscalling w, .failed err => some (s.goto d (.chunk w 0 (some (.net err))) [])
    | _, _ => none
  | .ready d err =>
    match (s.half d).pc, err with
    | .waiting w, none => some (s.goto d (.syscalling w) [])
    | .waiting w, some err => some (s.goto d (.chunk w 0 (some (.net err))) [])
    | _, _ => none
  | .probe d n err before =>
    match (s.half d).pc with
    | .probing w =>
      if n ≤ w.p.length then
        some (s.accept d w.p n
          (if err = some .timeout then
            if 0 < n then .chunk w n none else if before then .probing w else .chunk w n (err.map .net)
          else .chunk w n (err.map .net)))
      else none
    | _ => none
  | .tlsRecord d k =>
    match (s.half d).pc with
    | .tlsWriting w =>
      if 0 < k ∧ k ≤ w.p.length then
        some (s.accept d w.p k (.tlsWriting ⟨w.p.drop k, w.total + k, w.readErr⟩))
      else none
    | _ => none
  | .tlsTouch d =>
    match (s.half d).pc with
    | .tlsWriting w => some (s.goto d (.touch (.tlsWrite w) .sample) [])
    | _ => none
  | .tlsFails d err =>
    match (s.half d).pc with
    | .tlsWriting w => some (s.goto d (.written w.total (some (.net err)) w.readErr) [])
    | _ => none
  | .closeWrite d err =>
    match (s.half d).pc with
    | .returned none =>
      some { s.put d { s.half d with closedWrite := true, pc := .done (err.map .net) } [] with
        closed := s.closed || err.isSome }
    | _ => none

/-- A source when the tunnel begins: what is already buffered, and perhaps an
error that `bufio` has kept. -/
structure SourceStart where
  buffered : Str
  err : Option NetErr
  rest : Str
  eof : err = some .eof → rest = []

def SourceStart.source (src : SourceStart) : Source :=
  ⟨src.buffered, src.err.map .net, src.rest, fun h => src.eof (by cases he : src.err <;> simp_all)⟩

/-- The bytes of a source, from the beginning of the tunnel. -/
def SourceStart.stream (src : SourceStart) : Str := src.buffered ++ src.rest

/-- `forwardTunnel` when both halves begin. -/
def TunnelState.init (src : Dir → SourceStart) : TunnelState :=
  ⟨0, 0, fun d => ⟨(src d).source, [], 0, false, .quiet .loop .load⟩, false, []⟩

end SP.Impl
