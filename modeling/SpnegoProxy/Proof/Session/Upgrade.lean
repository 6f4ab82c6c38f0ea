import SpnegoProxy.Proof.Session.Stages

/-!
# The end of the stream at `101 Switching Protocols`

`isInterimResponse` takes a `101` for the final response, after which the
connection carries another protocol. Whether the session goes on after it is
up to `connectionWillClose`, which does not look at the status: the stream
ends there in every run in which each `101` closes the connection for another
reason.
-/

namespace SP.Proof

open SP.Go SP.Impl

/-- The event writes to `c`, or reads a response from it. -/
def usesConn (c : ConnId) : Event → Bool
  | .sent c' _ _ => c' = c
  | .payload c' _ => c' = c
  | .recv c' _ => c' = c
  | _ => false

/-- After a `101` was relayed for the request written last, its connection is
neither written to nor read as HTTP. -/
def StreamEnds (tr : List Event) : Prop :=
  ∀ {pre resp body post c req}, tr = pre ++ .wrote (.final resp body) none :: post →
    resp.statusCode = 101 →
    lastSent pre = some (c, req) → ∀ e ∈ post, usesConn c e = false

/-- Every `101` that is relayed closes the connection: its request is HTTP/1.0 or
asks for it, or the response says so. -/
def UpgradesClose (tr : List Event) : Prop :=
  ∀ {pre resp body post c req}, tr = pre ++ .wrote (.final resp body) none :: post →
    resp.statusCode = 101 →
    lastSent pre = some (c, req) → connectionWillClose req resp = true

section

variable {cfg : Config} {env : Env} {tr : List Event} {st : Stage}

/-- After a final response that closes the connection the session is over. -/
theorem Path.over_of_closing {pre post : List Event} {resp : Response} {body : Str} {c : ConnId}
    {req : Request}
    (h : Path cfg env tr st) (ht : tr = pre ++ .wrote (.final resp body) none :: post)
    (hl : lastSent pre = some (c, req)) (hc : connectionWillClose req resp = true) :
    post = [] ∧ st = .over := by
  obtain ⟨st₁, st₂, hp, hs, hover⟩ := h.split ht
  cases hs with
  | kept _ hk =>
    rw [hp.lastSent_eq] at hl
    cases hl
    rw [hk] at hc
    cases hc
  | closed => exact hover rfl

end

/-- In every run in which each `101` closes the connection, it is the end of the stream. -/
theorem upgrade_ends_stream (cfg : Config) (env : Env) (n : Nat)
    (h : UpgradesClose (run cfg env n).trace) : StreamEnds (run cfg env n).trace := by
  intro pre resp body post c req ht hs hl e he
  obtain ⟨st, hp, -⟩ := run_path cfg env n
  obtain ⟨rfl, -⟩ := hp.over_of_closing ht hl (h ht hs hl)
  cases he

theorem mem_of_lastSent {tr : List Event} {c : ConnId} {req : Request}
    (h : lastSent tr = some (c, req)) : ∃ answer, .sent c req answer ∈ tr := by
  obtain ⟨e, he, hr⟩ := List.mem_filterMap.mp (List.mem_of_getLast? h)
  cases e with
  | sent c' req' answer => cases hr; exact ⟨answer, he⟩
  | _ => cases hr

/-- Two requests, of which each is answered by `101 Switching Protocols`;
`close` is whether they ask to close the connection. -/
def upgradedGets (close : Bool) : Env :=
  scripted [{ plainGet (str "h") ⟨∅⟩ with close },
    { plainGet (str "h") ⟨∅⟩ with close }] (str "dG9r")
    [.head (plainResponse 101)]

/-- A request is sent with `Connection: close`, if one is sent. -/
def sentClosing : Event → Bool
  | .sent _ req _ => req.close
  | _ => true

theorem upgrade_ends_stream_closing : StreamEnds (run plainConfig (upgradedGets true) 3).trace ∧
    (wroteAt (run plainConfig (upgradedGets true) 3).trace 5).isSome = true := by
  refine ⟨upgrade_ends_stream plainConfig (upgradedGets true) 3 fun ht _ hl => ?_, by decide +kernel⟩
  have hall : ((run plainConfig (upgradedGets true) 3).trace.all sentClosing) = true :=
    by decide +kernel
  obtain ⟨answer, hm⟩ := mem_of_lastSent hl
  have hclose := List.all_eq_true.mp hall _ (by rw [ht]; exact List.mem_append_left _ hm)
  simp only [connectionWillClose, Bool.or_eq_true]
  exact .inl (.inr hclose)

/-- The second request is written on the connection that has switched protocols. -/
theorem upgradedGets_goes_on : ¬ StreamEnds (run plainConfig (upgradedGets false) 3).trace := by
  intro h
  have hw : (finalAt (run plainConfig (upgradedGets false) 3).trace 5).map (fun x => (x.1.statusCode, x.2.2)) =
      some (101, none) := by decide +kernel
  have hs : (sentAt ((run plainConfig (upgradedGets false) 3).trace.drop 6) 1).map (·.1) = some 0 :=
    by decide +kernel
  have hl : (lastSent ((run plainConfig (upgradedGets false) 3).trace.take 5)).map (·.1) = some 0 :=
    by decide +kernel
  obtain ⟨⟨resp, body, err⟩, hf, hcode⟩ := Option.map_eq_some_iff.mp hw
  obtain ⟨⟨c, req, answer⟩, hc, hc₀⟩ := Option.map_eq_some_iff.mp hs
  obtain ⟨⟨c', req'⟩, hl, hc'⟩ := Option.map_eq_some_iff.mp hl
  obtain ⟨hcode, rfl⟩ := Prod.mk.inj hcode
  have hu := h (split_of_finalAt hf) hcode hl (.sent c req answer)
    (by rw [split_of_sentAt hc]; exact List.mem_append_right _ List.mem_cons_self)
  simp only [usesConn, decide_eq_false_iff_not] at hu
  exact hu (hc₀.trans hc'.symm)

end SP.Proof
