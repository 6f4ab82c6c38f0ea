import SpnegoProxy.Impl.Session
import Mathlib.Data.List.ModifyLast

/-!
# The answers a client gets

`answers` reads off a session's trace, for each request that was read, the
response heads that were written before the next one. `Answered` says how
they must look: interim responses and then at most one final head, every head
in the place of its request, and nothing at all after a head that ends the
session.
-/

namespace SP.Spec

open SP.Go SP.Impl

/-- A message with a response head: all but the bytes of a tunnel. -/
def isHead : ClientMsg → Bool
  | .data _ => false
  | _ => true

/-- A head that a final one may still follow. -/
def isInterim : ClientMsg → Bool
  | .interim _ => true
  | _ => false

/-- A relayed response, the `200` of a tunnel, an error or a local response. -/
def isFinal (m : ClientMsg) : Bool := isHead m && !isInterim m

/-- The head that an event writes. -/
def headOf : Event → Option ClientMsg
  | .wrote m _ => if isHead m then some m else none
  | _ => none

/-- The event `e` after the answers `xs`. A read error counts as a request if
it is the first read and neither the end of the connection nor a shutdown. -/
def answersStep (xs : List (List ClientMsg)) (e : Event) : List (List ClientMsg) :=
  match e with
  | .read (.ok _) => xs ++ [[]]
  | .read (.error err) =>
    if xs.isEmpty ∧ err ≠ .shutdown ∧ isExpectedCloseError err = false then [[]] else xs
  | .wrote m _ => if isHead m then xs.modifyLast (· ++ [m]) else xs
  | _ => xs

/-- The requests of a trace, in order, as the heads written for each. -/
def answers (tr : List Event) : List (List ClientMsg) := tr.foldl answersStep []

/-- Some interim heads, then at most one final head. -/
def Answer (ms : List ClientMsg) : Prop :=
  ∃ is fs, ms = is ++ fs ∧ (∀ m ∈ is, isInterim m = true) ∧ (∀ m ∈ fs, isFinal m = true) ∧
    fs.length ≤ 1

/-- A write that ends the session: an error, a local response, or any head
whose write failed. -/
def endsSession (m : ClientMsg) (err : Option Str) : Bool :=
  match m with
  | .error _ => true
  | .maxForwards _ => true
  | _ => isHead m && err.isSome

/-- Every request got at most one final head. -/
structure Answered (tr : List Event) : Prop where
  /-- The heads that were written are those of the answers, in the order of the requests. -/
  ordered : tr.filterMap headOf = (answers tr).flatten
  once : ∀ ms ∈ answers tr, Answer ms
  /-- After a write that ends the session nothing is written, read or routed. -/
  last : ∀ {pre m err post}, tr = pre ++ .wrote m err :: post → endsSession m err = true → post = []

end SP.Spec
