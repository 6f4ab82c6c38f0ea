import SpnegoProxy.Impl.Go.Net
import SpnegoProxy.Proof.Go.Strings

/-!
# Hosts with a port

`splitHostPort_ok_iff`: what `net.SplitHostPort` takes apart is a host in
brackets or a host without a colon, then a colon and a port, and there are no
brackets and no colons besides. Of what
`net.JoinHostPort` puts together the port is told again (`joinHostPort_inj`,
`splitHostPort_joinHostPort`), and the host (`host_of_join`).
-/

namespace SP.Proof

open SP.Go

/-- Neither a `[` nor a `]`. -/
def NoBracket (s : Str) : Prop := lbrack ∉ s ∧ rbrack ∉ s

/-- A string that is a host and a port. -/
inductive HostPort (host port : Str) : Str → Prop where
  | bracketed : NoBracket host → NoBracket port → colon ∉ port →
    HostPort host port (lbrack :: (host ++ rbrack :: colon :: port))
  | plain : NoBracket host → NoBracket port → colon ∉ host → colon ∉ port →
    HostPort host port (host ++ colon :: port)

theorem checkBrackets_ok_iff {l r a b : Str} {x : Str × Str} :
    checkBrackets l r a b = .ok x ↔ lbrack ∉ l ∧ rbrack ∉ r ∧ x = (a, b) := by
  rw [checkBrackets]
  split_ifs with hl hr
  · simp [hl]
  · simp [hr]
  · simp [hl, hr, eq_comm]

theorem HostPort.split {host port s : Str} (h : HostPort host port s) :
    splitHostPort s = .ok (host, port) := by
  rw [splitHostPort]
  cases h with
  | bracketed hh hp hc =>
    have hcut : cutLast colon (lbrack :: (host ++ rbrack :: colon :: port)) = some (lbrack :: (host ++ [rbrack]), port) := by
      rw [show lbrack :: (host ++ rbrack :: colon :: port) = (lbrack :: (host ++ [rbrack])) ++ colon :: port by simp]
      exact cutLast_append hc
    simp only [hcut, List.head?_cons, if_true, List.tail_cons, cutFirst_append hh.2]
    rw [if_neg (by simp), if_neg hc, checkBrackets_ok_iff]
    refine ⟨?_, ?_, rfl⟩
    · simp only [List.mem_append, List.mem_cons, not_or]
      exact ⟨hh.1, by decide, by decide, hp.1⟩
    · simp only [List.mem_cons, not_or]
      exact ⟨by decide, hp.2⟩
  | plain hh hp hch hc =>
    have hhead : (host ++ colon :: port).head? ≠ some lbrack := by
      cases host with
      | nil => exact fun he => absurd (Option.some.inj he) (by decide)
      | cons b host => exact fun he => hh.1 (List.mem_cons.mpr (.inl (Option.some.inj he).symm))
    simp only [cutLast_append hc, if_neg hhead]
    rw [if_neg hch, checkBrackets_ok_iff]
    refine ⟨?_, ?_, rfl⟩
    · simp only [List.mem_append, List.mem_cons, not_or]
      exact ⟨hh.1, by decide, hp.1⟩
    · simp only [List.mem_append, List.mem_cons, not_or]
      exact ⟨hh.2, by decide, hp.2⟩

theorem HostPort.of_split {host port s : Str} (h : splitHostPort s = .ok (host, port)) :
    HostPort host port s := by
  rw [splitHostPort] at h
  split at h
  · cases h
  rename_i a b hcut
  split_ifs at h with hb hc
  · -- a host in brackets: all is in the part after the first `[`
    cases s with
    | nil => cases hb
    | cons d t =>
      obtain rfl : d = lbrack := Option.some.inj hb
      rw [List.tail_cons] at h
      split at h
      · cases h
      · cases h
      rename_i before c after hfirst
      split_ifs at h with hd hn
      obtain ⟨hl, hr, he⟩ := checkBrackets_ok_iff.mp h
      cases he
      obtain rfl : c = colon := not_not.mp hd
      obtain ⟨rfl, hbefore⟩ := cutFirst_eq_some.mp hfirst
      simp only [List.mem_append, List.mem_cons, not_or] at hl hr
      exact .bracketed ⟨hl.1, hbefore⟩ ⟨hl.2.2.2, hr.2⟩ hn
  · obtain ⟨hl, hr, he⟩ := checkBrackets_ok_iff.mp h
    cases he
    obtain ⟨rfl, hport⟩ := cutLast_eq_some.mp hcut
    simp only [List.mem_append, List.mem_cons, not_or] at hl hr
    exact .plain ⟨hl.1, hr.1⟩ ⟨hl.2.2, hr.2.2⟩ hc hport

theorem splitHostPort_ok_iff {host port s : Str} :
    splitHostPort s = .ok (host, port) ↔ HostPort host port s :=
  ⟨HostPort.of_split, HostPort.split⟩

theorem HostPort.port {host port s : Str} (h : HostPort host port s) :
    NoBracket port ∧ colon ∉ port := by
  cases h with
  | bracketed _ hp hc => exact ⟨hp, hc⟩
  | plain _ hp _ hc => exact ⟨hp, hc⟩

/-- The last colon of a host and a port stands before the port. -/
theorem HostPort.cutLast_eq {host port s : Str} (h : HostPort host port s) :
    ∃ a, cutLast colon s = some (a, port) := by
  cases h with
  | bracketed _ _ hc =>
    refine ⟨lbrack :: (host ++ [rbrack]), cutLast_eq_some.mpr ⟨?_, hc⟩⟩
    simp
  | plain _ _ _ hc => exact ⟨host, cutLast_append hc⟩

/-! ## Joining -/

theorem cutLast_joinHostPort {h p : Str} (hp : colon ∉ p) :
    cutLast colon (joinHostPort h p) = some (if colon ∈ h then lbrack :: (h ++ [rbrack]) else h, p) := by
  rw [joinHostPort]
  refine cutLast_eq_some.mpr ⟨?_, hp⟩
  split <;> simp

/-- What `net.JoinHostPort` joins can be told apart again, as long as no port
has a colon. -/
theorem joinHostPort_inj {h h' p p' : Str} (hp : colon ∉ p) (hp' : colon ∉ p')
    (he : joinHostPort h p = joinHostPort h' p') : h = h' ∧ p = p' := by
  have hc : cutLast colon (joinHostPort h p) = _ := cutLast_joinHostPort hp
  rw [he, cutLast_joinHostPort hp'] at hc
  obtain ⟨hh, rfl⟩ := Prod.mk.inj (Option.some.inj hc)
  refine ⟨?_, rfl⟩
  by_cases hc : colon ∈ h <;> by_cases hc' : colon ∈ h'
  · simpa [hc, hc'] using hh.symm
  · rw [if_pos hc, if_neg hc'] at hh
    exact absurd (by rw [hh]; simp [hc]) hc'
  · rw [if_neg hc, if_pos hc'] at hh
    exact absurd (by rw [← hh]; simp [hc']) hc
  · simpa [hc, hc'] using hh.symm

/-- What `net.JoinHostPort` joins has its port, if it can be split at all. -/
theorem splitHostPort_joinHostPort {h p host port : Str} (hp : colon ∉ p)
    (hs : splitHostPort (joinHostPort h p) = .ok (host, port)) : port = p := by
  obtain ⟨a, hcut⟩ := (HostPort.of_split hs).cutLast_eq
  rw [cutLast_joinHostPort hp] at hcut
  exact (Prod.mk.inj (Option.some.inj hcut)).2.symm

/-- A host that was joined with a port is split off as it was. -/
theorem host_of_join {h p host port : Str} (hb : h.head? ≠ some lbrack) (hp : colon ∉ p)
    (hs : splitHostPort (joinHostPort h p) = .ok (host, port)) : host = h := by
  have hport : port = p := splitHostPort_joinHostPort hp hs
  subst hport
  generalize hj : joinHostPort h port = j at hs
  rw [joinHostPort] at hj
  cases HostPort.of_split hs with
  | bracketed hhost _ _ =>
    split_ifs at hj with hc
    · have hj : h ++ rbrack :: colon :: port = host ++ rbrack :: colon :: port :=
      (List.cons_eq_cons.mp hj).2
      exact (List.append_cancel_right hj).symm
    · -- an unbracketed host would begin with the bracket
      cases h with
      | nil => cases hj
      | cons b h => exact absurd (congrArg some (List.cons_eq_cons.mp hj).1) hb
  | plain hhost _ _ _ =>
    split_ifs at hj with hc
    · cases host with
      | nil => cases hj
      | cons b host =>
        have hbrack : lbrack = b := (List.cons_eq_cons.mp hj).1
        exact absurd (hbrack ▸ List.mem_cons_self ..) hhost.1
    · exact (List.append_cancel_right hj).symm

theorem HostPort.of_join {h p : Str} (hh : NoBracket h) (hp : NoBracket p) (hc : colon ∉ p) :
    HostPort h p (joinHostPort h p) := by
  rw [joinHostPort]
  split_ifs with hch
  · exact .bracketed hh hp hc
  · exact .plain hh hp hch hc

end SP.Proof
