import SpnegoProxy.Proof.Server.Steps

/-!
# The connection limit

A listener that keeps to a limit returns a connection only while fewer than `n`
of those it returned are open (`Limits`). What the server has to add is that it
closes what it was given: a connection that is open is in the accept loop's
hand or in that of a handler that has not returned, so as long as fewer than
`n` handlers are busy the next client is not kept waiting.
-/

namespace SP.Proof.Server

open SP.Go SP.Impl SP.Spec
open SP.Proof.Serve (serveStep_move)

variable {su : Setup} {s s' : ServerState}

/-! ## The connections that are open -/

theorem mem_openIn {es : List ListenerEvent} {i : Nat} :
    i ∈ openIn es ↔ .accepted i ∈ es ∧ .connClosed i ∉ es := by
  have hreturned (e : ListenerEvent) : returned e = some i ↔ e = .accepted i := by
    cases e <;> simp [returned]
  simp [openIn, hreturned]

/-- What comes later closes connections, if anything. -/
theorem openIn_append_le (es es' : List ListenerEvent) :
    (openIn (es ++ es')).length ≤ (openIn es).length + (es'.filterMap returned).length := by
  unfold openIn
  rw [List.filterMap_append, List.filter_append, List.length_append]
  refine Nat.add_le_add ?_ (List.length_filter_le _ _)
  rw [← List.countP_eq_length_filter, ← List.countP_eq_length_filter]
  refine List.countP_mono_left fun i _ hi => ?_
  simp only [Bool.not_eq_true', List.contains_eq_mem, decide_eq_false_iff_not] at hi ⊢
  exact fun hmem => hi (List.mem_append_left _ hmem)

theorem tells_returned (t : ServeState) (a : ServeAct) : (t.tells a).filterMap returned = [] := by
  unfold ServeState.tells
  split <;> rfl

/-- What a step has the listener see, besides a new connection. -/
theorem step_listened {a : ServerAct} (h : serverStep su s a = some s') :
    (∃ es, s'.listened = s.listened ++ es ∧ es.filterMap returned = [] ∧ s'.serve.conns = s.serve.conns) ∨
    (a = .accept ∧ su.listener.mayAccept s.listened = true ∧
      s'.listened = s.listened ++ [.accepted s.serve.conns] ∧
        s'.serve.conns = s.serve.conns + 1) := by
  have hclose (i : Nat) : ∃ es, (s.close i).listened = s.listened ++ es ∧
    es.filterMap returned = [] := by
    unfold ServerState.close
    split
    · exact ⟨[], (List.append_nil _).symm, rfl⟩
    · exact ⟨[.connClosed i], rfl, rfl⟩
  cases serverStep_move h with
  | cancel | deny => exact .inl ⟨[], (List.append_nil _).symm, rfl, rfl⟩
  | serve hmay ht =>
    refine .inl ⟨_, rfl, tells_returned _ _, ?_⟩
    cases serveStep_move ht with
    | accept => cases hmay
    | _ => rfl
  | accept hmay => exact .inr ⟨rfl, hmay, rfl, rfl⟩
  | acceptErr => exact .inl ⟨[.failed], rfl, rfl, rfl⟩
  | @session i _ t =>
    refine .inl ?_
    rw [withSession_serve]
    unfold ServerState.withSession
    split
    · exact (hclose i).imp fun es hes => ⟨hes.1, hes.2, rfl⟩
    · exact ⟨[], (List.append_nil _).symm, rfl, rfl⟩
  | @close i =>
    refine .inl ?_
    rw [close_serve]
    exact (hclose i).imp fun es hes => ⟨hes.1, hes.2, rfl⟩

section

variable {as : List ServerAct}

/-- `Accept` has returned the connections one after the other. -/
theorem returned_eq_range (h : (server su).exec as = some s) :
    s.listened.filterMap returned = List.range s.serve.conns := by
  refine Machine.invariant (I := fun _ s => s.listened.filterMap returned = List.range s.serve.conns) rfl ?_ h
  intro as s a s' _ ih hs
  rcases step_listened hs with ⟨es, hl, hes, hconns⟩ | ⟨-, -, hl, hconns⟩
  · rw [hl, List.filterMap_append, hes, List.append_nil, hconns, ih]
  · rw [hl, List.filterMap_append, hconns, ih, List.range_succ]
    rfl

theorem openIn_le {n : Nat} (hl : Limits su.listener n) (h : (server su).exec as = some s) :
    (openIn s.listened).length ≤ n := by
  refine Machine.invariant (M := server su) (I := fun _ s => (openIn s.listened).length ≤ n) (Nat.zero_le n) ?_ h
  intro as s a s' _ ih hs
  rcases step_listened hs with ⟨es, hlist, hes, -⟩ | ⟨-, hmay, hlist, -⟩
  · have hle := openIn_append_le s.listened es
    rw [hes, ← hlist] at hle
    exact Nat.le_trans hle ih
  · have hle := openIn_append_le s.listened [.accepted s.serve.conns]
    rw [← hlist] at hle
    exact Nat.le_trans hle (hl.bounded _ hmay)

/-- An open connection is in someone's hand. -/
theorem open_inHand (h : (server su).exec as = some s) {i : Nat} (hi : i ∈ openIn s.listened) :
    s.serve.loop = .accepted i ∨ i ∈ busyHandlers s := by
  have hconn : i ∈ List.range s.serve.conns := by
    rw [← returned_eq_range h]
    exact (List.mem_filter.mp hi).1
  have hlt := List.mem_range.mp hconn
  have hopen : s.closed i = false := by
    simpa [ServerState.closed] using (mem_openIn.mp hi).2
  have hbusy (hreturned : s.hasReturned su i = true) : False := by
    rw [closed_of_returned h hreturned] at hopen
    cases hopen
  rcases (server_serveInv h).2.accepted i ((server_onward h).seen i hlt) with hne | hl
  · refine .inr (Finset.mem_filter.mpr ⟨Finset.mem_range.mpr hlt, ?_⟩)
    cases hpc : s.serve.handler i with
    | absent => exact absurd hpc hne
    | spawned => exact .inl rfl
    | running => exact .inr rfl
    | returning => exact (hbusy ((server_coupled h).returned i (.inl hpc))).elim
    | finished => exact (hbusy ((server_coupled h).returned i (.inr hpc))).elim
  · exact .inl hl

/-- With a listener that keeps to a limit, no more client connections are open
at any time. Every one that is open is in the hands of the accept loop or of a
handler that has not returned; so while fewer handlers are busy than the limit
allows, a call of `Accept` can return the next connection. -/
theorem open_bounded {n : Nat} (hl : Limits su.listener n) (h : (server su).exec as = some s) :
    (openIn s.listened).length ≤ n ∧
    (∀ i ∈ openIn s.listened, s.serve.loop = .accepted i ∨ i ∈ busyHandlers s) ∧
    (s.serve.loop = .accepting → s.serve.listenerClosed = false → (busyHandlers s).card < n →
      ∃ s', (server su).exec (as ++ [.accept]) = some s') := by
  refine ⟨openIn_le hl h, fun i => open_inHand h, fun hloop hcl hlt => ?_⟩
  have hnodup : (openIn s.listened).Nodup := by
    unfold openIn
    rw [returned_eq_range h]
    exact List.nodup_range.filter _
  have hsub : (openIn s.listened).toFinset ⊆ busyHandlers s := by
    intro i hi
    rcases open_inHand h (List.mem_toFinset.mp hi) with hl | hbusy
    · rw [hloop] at hl
      cases hl
    · exact hbusy
  have hopen : (openIn s.listened).length < n := by
    rw [← List.toFinset_card_of_nodup hnodup]
    exact Nat.lt_of_le_of_lt (Finset.card_le_card hsub) hlt
  have hnot : .closed ∉ s.listened := by
    rw [(server_coupled h).told, hcl]
    exact Bool.false_ne_true
  have hmay : su.listener.mayAccept s.listened = true := hl.serves _ hnot hopen
  obtain ⟨s', hs'⟩ : ∃ s', serverStep su s .accept = some s' := by
    simp [serverStep, hmay, serveStep, hloop]
  exact ⟨s', Machine.execFrom_snoc.mpr ⟨s, h, hs'⟩⟩

end

/-- A listener that keeps to a limit, and fails when it is closed. -/
def limitedTo (n : Nat) : Listener where
  mayAccept es := (openIn es).length < n
  mayFail es := es.contains .closed

theorem limitedTo_limits (n : Nat) : Limits (limitedTo n) n :=
  ⟨fun _ h => of_decide_eq_true h, fun _ _ h => decide_eq_true h⟩

/-- A server for one client at a time. -/
def oneSlot : Setup where
  cfg := plainConfig
  allowedIPs := []
  listener := limitedTo 1
  drainTimeout := 10
  addr _ := str "192.0.2.1:1024"

/-- The first client is accepted and its request is routed. -/
def servedOne : List ServerAct :=
  [.accept, .serve .loop, .serve (.handler 0)] ++ List.replicate 4 (.session 0 .session) ++
    [.session 0 (.readReturns (.ok (plainGet (str "example.com") ⟨∅⟩)))] ++ List.replicate 5 (.session 0 .session)

/-- Its route has returned, and then its handler. -/
def leftOne : List ServerAct :=
  servedOne ++ [.session 0 (.relayReturns false)] ++ List.replicate 2 (.session 0 .session) ++ [.serve (.handler 0)]

theorem open_bounded_leftOne :
    (∃ s, (server oneSlot).exec servedOne = some s ∧ openIn s.listened = [0] ∧ (openIn s.listened).length ≤ 1 ∧
      (s.serve.loop = .accepted 0 ∨ 0 ∈ busyHandlers s)) ∧
    ∃ s, (server oneSlot).exec (leftOne ++ [.accept]) = some s := by
  have hserved : ((server oneSlot).exec servedOne).map (fun s => openIn s.listened) = some [0] := by decide +kernel
  have hleft : ((server oneSlot).exec leftOne).map
      (fun s => (busyHandlers s, s.serve.loop, s.serve.listenerClosed)) = some (∅, .accepting, false) := by
    decide +kernel
  obtain ⟨s, hs, hopen⟩ := Option.map_eq_some_iff.mp hserved
  obtain ⟨t, ht, hst⟩ := Option.map_eq_some_iff.mp hleft
  simp only [Prod.mk.injEq] at hst
  obtain ⟨hle, hhand, -⟩ := open_bounded (limitedTo_limits 1) hs
  obtain ⟨-, -, haccept⟩ := open_bounded (limitedTo_limits 1) ht
  have hlt : (busyHandlers t).card < 1 := by rw [hst.1]; decide
  refine ⟨⟨s, hs, hopen, hle, hhand 0 (by rw [hopen]; exact List.mem_singleton_self 0)⟩, ?_⟩
  exact haccept hst.2.1 hst.2.2 hlt

end SP.Proof.Server
