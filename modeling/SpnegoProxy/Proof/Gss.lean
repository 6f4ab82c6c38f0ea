import Mathlib.Data.List.TakeWhile
import SpnegoProxy.Framework.Ends
import SpnegoProxy.Spec.Gss

/-!
# The GSS provider

The C code stays inside its arrays whatever the framework's messages are, and
uses and releases each handle while it is allocated.
-/

namespace SP.Proof.Gss

open SP.Go SP.Impl SP.Impl.Gss SP.Spec.Gss

/-- From the heap `h` the program ends in `Q`, without a fault. -/
def Safe {α : Type} (m : CM α) (h : Heap) (Q : α → Heap → Prop) : Prop := Ends m h Q fun _ => False

variable {α β : Type} {m : CM α} {h : Heap} {Q Q' : α → Heap → Prop}

theorem Safe.mono (hm : Safe m h Q) (hq : ∀ a h', Q a h' → Q' a h') : Safe m h Q' :=
  Ends.mono hm hq fun _ => id

theorem Safe.bind {f : α → CM β} {Q : β → Heap → Prop} (hm : Safe m h fun a h' => Safe (f a) h' Q) :
    Safe (m >>= f) h Q := Ends.bind_iff.mpr hm

theorem Safe.map {f : α → β} {Q : β → Heap → Prop}
    (hm : Safe m h fun a h' => Q (f a) h') : Safe (f <$> m) h Q := by
  rw [← bind_pure_comp]
  exact .bind (hm.mono fun _ _ hq => hq)

theorem Safe.run (hm : Safe m h Q) : ∃ a h', m.run h = .ok (a, h') ∧ Q a h' := by
  unfold Safe Ends at hm
  cases hr : m.run h with
  | error e =>
    rw [hr] at hm
    exact hm.elim
  | ok r =>
    rw [hr] at hm
    exact ⟨r.1, r.2, rfl, hm⟩

theorem Safe.ite {c : Prop} [Decidable c] {m' : CM α} (ht : c → Safe m h Q)
    (he : ¬ c → Safe m' h Q) : Safe (if c then m else m') h Q := Ends.ite ht he

/-! ## Handles -/

theorem access_safe {k : Kind} {p : Nat} {Q : Unit → Heap → Prop} (hp : (p, k) ∈ h.live)
    (hq : Q () h) : Safe (access k p) h Q :=
  .bind (Ends.get_iff.mpr (.ite (fun _ => hq) fun hn => absurd hp hn))

theorem release_safe {k : Kind} {p : Nat} {Q : Unit → Heap → Prop} (hp : (p, k) ∈ h.live)
    (hq : Q () { h with live := h.live.erase (p, k) }) : Safe (release k p) h Q :=
  .bind (Ends.get_iff.mpr (.ite (fun _ => hq) fun hn => absurd hp hn))

/-! ## Arrays -/

theorem sizeSub_eq {a b : Nat} (hb : b ≤ a) (ha : a < 2 ^ 64) : sizeSub a b = a - b := by
  unfold sizeSub
  omega

/-- A byte is written behind what the array holds. -/
theorem store_safe {buf t : Str} {b : UInt8} (ht : t <+: buf) (hlt : t.length < buf.length) :
    Safe (store buf t.length b) h fun buf' h' => h' = h ∧ buf'.length = buf.length ∧ t ++ [b] <+: buf' := by
  refine .ite (fun _ => ⟨rfl, List.length_set, ?_⟩) fun hn => absurd hlt hn
  obtain ⟨rest, rfl⟩ := ht
  cases rest with
  | nil => simp at hlt
  | cons x rest =>
    rw [List.set_append_right _ _ (Nat.le_refl _), Nat.sub_self, List.set_cons_zero]
    exact ⟨rest, by simp⟩

/-- Bytes are copied behind what the array holds. -/
theorem memcpy_safe {buf t src : Str} {n : Nat} (ht : t <+: buf) (hn : t.length + n ≤ buf.length)
    (hs : n ≤ src.length) :
    Safe (memcpy buf t.length src n) h fun buf' h' => h' = h ∧ buf'.length = buf.length ∧ t ++ src.take n <+: buf' := by
  refine .ite (fun _ => ⟨rfl, ?_, ?_⟩) fun hn' => absurd ⟨hn, hs⟩ hn'
  · simp only [List.length_append, List.length_take, List.length_drop]
    omega
  · rw [← List.prefix_iff_eq_take.mp ht]
    exact List.prefix_append _ _

/-- The array holds `t` and the end of the string. -/
def NulTerminated (buf t : Str) : Prop := t ++ [0] <+: buf

theorem cText_append (t rest : Str) : cText (t ++ 0 :: rest) = cText t := by
  induction t with
  | nil => rfl
  | cons b t ih =>
    unfold cText at ih ⊢
    rw [List.cons_append, List.takeWhile_cons, List.takeWhile_cons, ih]

theorem readString_safe {buf t : Str} (ht : NulTerminated buf t) :
    Safe (readString buf) h fun s h' => h' = h ∧ s = cText t := by
  obtain ⟨rest, rfl⟩ := ht
  refine .ite (fun _ => ⟨rfl, ?_⟩) fun hn => absurd (by simp) hn
  rw [List.append_assoc]
  exact cText_append t rest

theorem snprintf_safe (buf s : Str) (hb : buf.length < 2 ^ 64) (hs : s.length < buf.length) :
    Safe (snprintf buf s) h fun buf' h' => h' = h ∧ NulTerminated buf' s := by
  have hn : min s.length (sizeSub buf.length 1) = s.length := by
    rw [sizeSub_eq (by omega) hb]
    omega
  unfold snprintf
  rw [hn]
  refine .bind ((memcpy_safe (t := []) ( List.nil_prefix) (by simp; omega) (Nat.le_refl _)).mono fun buf' h' hm => ?_)
  obtain ⟨rfl, hl, hp⟩ := hm
  rw [List.nil_append, List.take_length] at hp
  exact (store_safe hp (by omega)).mono fun _ _ h' => ⟨h'.1, h'.2.2⟩

/-! ## Messages -/

theorem sublist_glue (w msg : Str) : w.Sublist (glue w msg) := by
  unfold glue
  split
  next hw => exact hw ▸ List.nil_sublist _
  next => exact (List.sublist_append_left _ _).trans (List.sublist_append_left _ _)

theorem sublist_foldl_glue (w : Str) (msgs : List Str) : w.Sublist (msgs.foldl glue w) := by
  induction msgs generalizing w with
  | nil => exact List.Sublist.refl _
  | cons msg msgs ih => exact (sublist_glue w msg).trans (ih _)

theorem shows_nil {size : Nat} (h : 0 < size) : Shows size [] [] :=
  ⟨h, List.Sublist.refl _, fun _ => rfl⟩

/-- An array that is full shows no more of a longer text. -/
theorem shows_of_full {size : Nat} {w w' t : Str} (h : Shows size w t) (hfull : size ≤ t.length + 1)
    (hw : w.Sublist w') : Shows size w' t :=
  have hpart := h.part.trans hw
  ⟨h.fits, hpart, fun hlt => hpart.eq_of_length_le (by omega)⟩

/-- The separator that is written before a message. -/
def separator (size : Nat) (t : Str) : Str :=
  if 0 < t.length ∧ t.length + 2 < size then str "; " else []

theorem separator_sublist (size : Nat) (t : Str) : (separator size t).Sublist (str "; ") := by
  unfold separator
  split
  · exact List.Sublist.refl _
  · exact List.nil_sublist _

theorem length_separator (size : Nat) (t : Str) :
    (separator size t).length = if 0 < t.length ∧ t.length + 2 < size then 2 else 0 := by
  unfold separator
  split <;> rfl

theorem separator_fits {size : Nat} {t : Str} (h : t.length < size) :
    (t ++ separator size t).length < size := by
  rw [List.length_append, length_separator]
  split <;> omega

/-- One more message, as far as there is room. -/
theorem shows_glue {size n : Nat} {w t msg : Str} (h : Shows size w t)
    (hn : n = min msg.length (size - 1 - (t ++ separator size t).length)) :
    Shows size (glue w msg) (t ++ separator size t ++ msg.take n) := by
  have hfits := separator_fits h.fits
  refine ⟨?_, ?_, fun hlt => ?_⟩
  · rw [List.length_append, List.length_take]
    omega
  · unfold Spec.Gss.glue
    split
    next hw =>
      -- nothing was shown so far
      obtain rfl : t = [] := List.sublist_nil.mp (hw ▸ h.part)
      exact List.take_sublist _ _
    next => exact (h.part.append (separator_sublist size t)).append (List.take_sublist _ _)
  · unfold Spec.Gss.glue at hlt ⊢
    split at hlt
    next hw =>
      obtain rfl : t = [] := List.sublist_nil.mp (hw ▸ h.part)
      have hsep : separator size [] = [] := rfl
      rw [if_pos hw, hsep, hn, hsep]
      exact List.take_of_length_le (by simp; omega)
    next hw =>
      rw [List.length_append, List.length_append, show (str "; ").length = 2 from rfl] at hlt
      obtain rfl := h.full (by omega)
      have hsep : separator size t = str "; " := if_pos ⟨List.length_pos_of_ne_nil hw, by omega⟩
      rw [if_neg hw, hsep]
      rw [hsep, List.length_append, show (str "; ").length = 2 from rfl] at hn
      rw [List.take_of_length_le (by omega)]

theorem appendSeparator_safe {buf t : Str} (hb : buf.length < 2 ^ 64) (ht : t <+: buf)
    (hfits : t.length < buf.length) :
    Safe (appendSeparator buf.length buf t.length) h fun r h' => h' = h ∧ r.1.length = buf.length ∧
      r.2 = (t ++ separator buf.length t).length ∧ t ++ separator buf.length t <+: r.1 := by
  have hcond : 0 < t.length ∧ t.length < sizeSub buf.length 2 ↔ 0 < t.length ∧
    t.length + 2 < buf.length := by
    -- the difference wraps only where the array has one byte, and then nothing is in it
    by_cases h2 : 2 ≤ buf.length
    · rw [sizeSub_eq h2 hb]
      omega
    · constructor <;> intro hc <;> omega
  unfold appendSeparator separator
  refine .ite (fun hc => ?_) fun hc => ?_
  · have hc' := hcond.mp hc
    rw [if_pos hc']
    refine .bind ((store_safe ht hfits).mono fun buf₁ h₁ hs => ?_)
    obtain ⟨rfl, hl₁, ht₁⟩ := hs
    have hlen : t.length + 1 = (t ++ [0x3B]).length := by simp
    rw [hlen]
    refine .bind ((store_safe ht₁ (by rw [← hlen]; omega)).mono fun buf₂ h₂ hs => ?_)
    obtain ⟨rfl, hl₂, ht₂⟩ := hs
    rw [List.append_assoc] at ht₂
    refine ⟨rfl, hl₂.trans hl₁, ?_, ht₂⟩
    rw [List.length_append]
    rfl
  · rw [if_neg (mt hcond.mpr hc), List.append_nil]
    exact ⟨rfl, rfl, rfl, ht⟩

/-- The array with what it shows of a text. -/
structure Showing (size : Nat) (live : List (Nat × Kind)) (whole buf : Str) (offset : Nat)
    (h : Heap) : Prop where
  live : h.live = live
  length : buf.length = size
  shown : ∃ t : Str, offset = t.length ∧ t <+: buf ∧ Shows size whole t

theorem Showing.pos {size offset : Nat} {live : List (Nat × Kind)} {w buf : Str}
    (hs : Showing size live w buf offset h) :
    0 < size := by
  obtain ⟨-, -, t, -, -, hshows⟩ := hs
  exact Nat.zero_lt_of_lt hshows.fits

theorem appendMessage_safe {size offset : Nat} {msg buf w : Str} {live : List (Nat × Kind)}
    (hb : size < 2 ^ 64) (hs : Showing size live w buf offset h) :
    Safe (appendMessage size msg buf offset) h fun r h' => Showing size live (glue w msg) r.1 r.2 h' := by
  obtain ⟨rfl, rfl, t, rfl, ht, hshows⟩ := hs
  refine .bind (m := alloc .buffer) (.bind ((appendSeparator_safe hb ht hshows.fits).mono fun r h₁ hr => ?_))
  obtain ⟨buf₁, offset⟩ := r
  obtain ⟨rfl, hl, ho, ht₁⟩ := hr
  dsimp only at hl ho ht₁
  subst ho
  have hfits := separator_fits hshows.fits
  have hglue : ∀ n, n = min msg.length (buf.length - 1 - (t ++ separator buf.length t).length) →
      Shows buf.length (glue w msg) (t ++ separator buf.length t ++ msg.take n) :=
        fun _ => shows_glue hshows
  generalize t ++ separator buf.length t = u at ht₁ hfits hglue
  have hcopy : (if msg.length < sizeSub (sizeSub buf.length u.length) 1 then msg.length
      else sizeSub (sizeSub buf.length u.length) 1) = min msg.length (buf.length - 1 - u.length) := by
    rw [sizeSub_eq (Nat.le_of_lt hfits) hb, sizeSub_eq (by omega) (by omega)]
    split <;> omega
  dsimp only
  rw [hcopy]
  generalize hn : min msg.length (buf.length - 1 - u.length) = n
  refine .bind (access_safe (List.mem_cons_self ..) (.bind ?_))
  refine (memcpy_safe ht₁ (by omega) (by omega)).mono fun buf₂ h₂ hm => ?_
  obtain ⟨rfl, hl₂, ht₂⟩ := hm
  refine .bind (release_safe (List.mem_cons_self ..) ⟨List.erase_cons_head .., hl₂.trans hl, _, ?_,
    ht₂, hglue n hn.symm⟩)
  rw [List.length_append, List.length_take, Nat.min_eq_left (by omega)]

theorem appendMessages_safe {size : Nat} (hb : size < 2 ^ 64) {live : List (Nat × Kind)}
    (more : List Str) (msg : Str)
    {w buf : Str} {offset : Nat} {h : Heap} (hs : Showing size live w buf offset h) :
    Safe (appendMessages size msg more buf offset) h fun r h' =>
      Showing size live ((msg :: more).foldl glue w) r.1 r.2 h' := by
  induction more generalizing msg w buf offset h with
  | nil =>
    unfold appendMessages
    exact .bind ((appendMessage_safe hb hs).mono fun r h' hs' => hs')
  | cons next more ih =>
    unfold appendMessages
    rw [sizeSub_eq hs.pos hb]
    refine .bind ((appendMessage_safe hb hs).mono fun r h' hs' => ?_)
    refine .ite (fun _ => ih next hs') fun hfull => ?_
    obtain ⟨hl, hsize, t, hr, ht, hshows⟩ := hs'
    exact ⟨hl, hsize, t, hr, ht, shows_of_full hshows (by omega) (sublist_foldl_glue _ _)⟩

theorem appendStatusMessages_safe {size : Nat} (hb : size < 2 ^ 64) {live : List (Nat × Kind)}
    {f : Framework}
    {code : UInt32} {type : StatusType} (hd : (f.displayStatus code type).isSome = true)
    {w buf : Str} {offset : Nat} {h : Heap} (hs : Showing size live w buf offset h) :
    Safe (appendStatusMessages f code type size buf offset) h fun r h' =>
      Showing size live ((displayed f code type).foldl glue w) r.1 r.2 h' := by
  obtain ⟨⟨msg, more⟩, hmsgs⟩ := Option.isSome_iff_exists.mp hd
  rw [appendStatusMessages, displayed, hmsgs]
  exact appendMessages_safe hb more msg hs

theorem Showing.finish {size : Nat} {live : List (Nat × Kind)} {w buf : Str} {offset : Nat}
    (hs : Showing size live w buf offset h) :
    Safe (store buf offset 0) h fun buf h' => h'.live = live ∧ ∃ t, NulTerminated buf t ∧ Shows size w t := by
  obtain ⟨hl, hsize, t, hr, ht, hshows⟩ := hs
  rw [hr]
  refine (store_safe ht (hsize ▸ hshows.fits)).mono fun buf h' hb => ?_
  obtain ⟨rfl, -, hend⟩ := hb
  exact ⟨hl, t, hend, hshows⟩

/-- A status that can be displayed is described in an array of any size, and
the description ends there. -/
theorem formatGssError_safe {f : Framework} {st : Status} (hd : Displays f st) {buf : Str}
    (hpos : 0 < buf.length) (hb : buf.length < 2 ^ 64) :
    Safe (formatGssError f st buf) h fun buf' h' =>
      h'.live = h.live ∧ ∃ t, NulTerminated buf' t ∧ Describes f st buf.length t := by
  have hstart : Showing buf.length h.live [] buf 0 h :=
    ⟨rfl, rfl, [], rfl, List.nil_prefix, shows_nil hpos⟩
  unfold formatGssError Describes messages
  refine .bind ((appendStatusMessages_safe hb hd.1 hstart).mono fun r₁ h₁ hs₁ => ?_)
  refine .ite (fun hm => ?_) fun hm => ?_
  · refine .bind ((appendStatusMessages_safe hb (hd.2 hm) hs₁).mono fun r₂ h₂ hs₂ => ?_)
    rw [if_pos hm, List.foldl_append]
    exact hs₂.finish
  · rw [if_neg hm, List.append_nil]
    exact hs₁.finish

/-! ## `acquire_spnego_token` -/

/-- What is allocated for a handle that may not be set. -/
def handles (k : Kind) (p : Option Nat) : List (Nat × Kind) := p.toList.map (·, k)

/-- A handle is released, and all others are kept. -/
theorem release_live {k : Kind} {p : Nat} {A B : List (Nat × Kind)} (hl : h.live = A ++ (p, k) :: B)
    (hk : ∀ x ∈ A, x.2 ≠ k) : Safe (release k p) h fun _ h' => h'.live = A ++ B := by
  refine release_safe (by rw [hl]; simp) ?_
  show h.live.erase (p, k) = A ++ B
  rw [hl, List.erase_append_right _ fun hm => hk _ hm rfl, List.erase_cons_head]

theorem handles_ne {k k' : Kind} (p : Option Nat) (hne : k' ≠ k) : ∀ x ∈ handles k' p, x.2 ≠ k := by
  intro x hx
  obtain ⟨q, -, rfl⟩ := List.mem_map.mp hx
  exact hne

theorem append_ne {k : Kind} {A B : List (Nat × Kind)} (hA : ∀ x ∈ A, x.2 ≠ k)
    (hB : ∀ x ∈ B, x.2 ≠ k) :
    ∀ x ∈ A ++ B, x.2 ≠ k := fun x hx => (List.mem_append.mp hx).elim (hA x) (hB x)

theorem deleteSecContext_live {p : Option Nat} {A B : List (Nat × Kind)}
    (hl : h.live = A ++ (handles .context p ++ B))
    (hk : ∀ x ∈ A, x.2 ≠ .context) : Safe (deleteSecContext p) h fun _ h' => h'.live = A ++ B := by
  cases p with
  | none => exact hl
  | some p => exact release_live hl hk

theorem releaseBuffer_live {b : Option (Nat × Str)} {A B : List (Nat × Kind)}
    (hl : h.live = A ++ (handles .buffer (b.map Prod.fst) ++ B)) (hk : ∀ x ∈ A, x.2 ≠ .buffer) :
    Safe (releaseBuffer b) h fun _ h' => h'.live = A ++ B := by
  cases b with
  | none => exact hl
  | some b => exact release_live hl hk

theorem length_errorMsg : (List.replicate 256 0 : Str).length = 256 := List.length_replicate

theorem snprintf_errorMsg {s : Str} (hs : s.length < 256) :
    Safe (snprintf (List.replicate 256 0) s) h fun buf' h' => h' = h ∧ NulTerminated buf' s := by
  apply snprintf_safe
  · rw [length_errorMsg]
    decide
  · rw [length_errorMsg]
    exact hs

theorem failedResult_safe {f : Framework} {st : Status} (hd : Displays f st) :
    Safe (failedResult f st) h fun r h' => h'.live = h.live ∧ r.errorCode = 1 ∧
      ∃ t, NulTerminated r.errorMsg t ∧ Describes f st 256 t := by
  refine .bind ((formatGssError_safe hd (by rw [length_errorMsg]; decide) (by rw [length_errorMsg]; decide)).mono
    fun buf h' hb => ?_)
  obtain ⟨hl, t, hend, hdesc⟩ := hb
  exact ⟨hl, rfl, t, hend, length_errorMsg ▸ hdesc⟩

/-- The copy of a token, and the block that it is in. -/
inductive Copied (f : Framework) (r : TokenResult) : Option Str → Option Nat → Prop where
  | none {token : Option Str} (ht : token.getD [] = []) (hc : r.errorCode = 0) (hd : r.data = Option.none) :
      Copied f r token .none
  | memory {bs : Str} (hne : bs ≠ []) (hm : f.malloc = false) (hc : r.errorCode = 1)
      (he : NulTerminated r.errorMsg (str "failed to allocate memory for token")) : Copied f r (some bs) .none
  | token {bs : Str} {p : Nat} (hne : bs ≠ []) (hm : f.malloc = true) (hc : r.errorCode = 0)
      (hd : r.data = some (p, bs)) (hn : r.length = bs.length) : Copied f r (some bs) (some p)

theorem copyToken_safe {f : Framework} {b : Option (Nat × Str)} {A : List (Nat × Kind)}
    (hl : h.live = handles .buffer (b.map Prod.fst) ++ A) :
    Safe (copyToken f b) h fun r h' => ∃ p, h'.live = handles .block p ++ h.live ∧ Copied f r (b.map Prod.snd) p := by
  cases b with
  | none => exact ⟨none, rfl, .none rfl rfl rfl⟩
  | some b =>
    obtain ⟨q, bs⟩ := b
    have hlive : (q, Kind.buffer) ∈ h.live := by
      rw [hl]
      exact List.mem_cons_self ..
    refine .ite (fun hpos => ?_) fun hnil => ?_
    · have hne : bs ≠ [] := List.length_pos_iff.mp hpos
      refine .ite (fun hm => ?_) fun hm => ?_
      · exact .bind (m := alloc .block) (.bind (access_safe (List.mem_cons_of_mem _ hlive)
          ⟨some h.next, rfl, .token hne hm rfl rfl rfl⟩))
      · have hs : (str "failed to allocate memory for token").length < 256 := by decide
        -- a variable in place of the text: nothing is to be evaluated
        generalize hmsg : str "failed to allocate memory for token" = msg at hs ⊢
        refine .bind ((snprintf_errorMsg hs).mono fun buf h' hb => ?_)
        obtain ⟨rfl, hend⟩ := hb
        exact ⟨none, rfl, .memory hne (Bool.not_eq_true _ ▸ hm) rfl (hmsg ▸ hend)⟩
    · have hbs : bs = [] := List.eq_nil_of_length_eq_zero (by omega)
      exact ⟨none, rfl, .none hbs rfl rfl⟩

/-- What `acquire_spnego_token` returns, and what it leaves allocated over `live`. -/
inductive Returned (f : Framework) (spn : Str) (live : List (Nat × Kind)) (r : TokenResult)
    (h : Heap) : Prop where
  | failed {shown : Str} {l : List (Nat × Kind)} (hc : r.errorCode = 1) (he : NulTerminated r.errorMsg shown)
      (hr : Reports f spn (cText shown)) (hl : h.live = l ++ live) (hleft : l.map Prod.snd = leftBehind f spn)
  | empty (hc : r.errorCode = 0) (hd : r.data = none) (hr : HasContext f spn) (ht : f.outputToken.getD [] = [])
      (hl : h.live = live)
  | token {bs : Str} {p : Nat} (hc : r.errorCode = 0) (hd : r.data = some (p,
    bs)) (hn : r.length = bs.length)
      (hr : HasContext f spn) (ht : f.outputToken = some bs) (hne : bs ≠ []) (hm : f.malloc = true)
      (hl : h.live = (p, .block) :: live)

/-- Only a `gss_init_sec_context` that failed leaves something behind. -/
theorem leftBehind_eq_nil {f : Framework} {spn : Str}
    (h : (f.importName (cText spn)).isError = true ∨ f.acquireCred.isError = true ∨ f.initSecContext.isError = false) :
    leftBehind f spn = [] := by
  refine if_neg fun hc => ?_
  obtain ⟨hn, hcred, hi, -⟩ := hc
  simp [hn, hcred, hi] at h

theorem Copied.returned {f : Framework} {spn : Str} {live : List (Nat × Kind)} {r : TokenResult}
    {p : Option Nat} (hc : Copied f r f.outputToken p) (hr : HasContext f spn)
    (hl : h.live = handles .block p ++ live) : Returned f spn live r h := by
  generalize htok : f.outputToken = token at hc
  cases hc with
  | none ht hc hd => exact .empty hc hd hr (htok ▸ ht) hl
  | memory hne hm hc he =>
    refine .failed (l := []) hc he ?_ hl (leftBehind_eq_nil (.inr (.inr hr.init))).symm
    exact Reports.memory hr htok hne hm
  | token hne hm hc hd hn => exact .token hc hd hn hr htok hne hm hl

theorem makeContext_safe (f : Framework) :
    Safe f.makeContext h fun c h' => h'.live = handles .context c ++ h.live :=
  .ite (fun _ => .map (m := alloc .context) rfl) fun _ => rfl

theorem makeOutputToken_safe (f : Framework) :
    Safe f.makeOutputToken h fun b h' => h'.live = handles .buffer (b.map Prod.fst) ++ h.live ∧
      b.map Prod.snd = f.outputToken := by
  unfold Framework.makeOutputToken
  cases f.outputToken with
  | none => exact ⟨rfl, rfl⟩
  | some bs => exact .map (m := alloc .buffer) ⟨rfl, rfl⟩

theorem initSecContext_safe {f : Framework} {spn : Str} {serverName cred : Nat}
    {live : List (Nat × Kind)}
    (hd : Explains f spn) (hn : (f.importName (cText spn)).isError = false)
    (hc : f.acquireCred.isError = false)
    (hl : h.live = (cred, .cred) :: (serverName, .name) :: live) :
    Safe (initSecContext f serverName cred) h (Returned f spn live) := by
  refine .bind (access_safe (by simp [hl]) (.bind (access_safe (by simp [hl]) (.bind ?_))))
  refine (makeContext_safe f).mono fun context h₁ hl₁ => .bind ?_
  refine (makeOutputToken_safe f).mono fun output h₂ hout => ?_
  obtain ⟨hl₂, hout⟩ := hout
  rw [hl₁, hl] at hl₂
  have hcred : ∀ x ∈ handles .buffer (output.map Prod.fst) ++ handles .context context,
    x.2 ≠ .cred :=
    append_ne (handles_ne _ (by decide)) (handles_ne _ (by decide))
  have hname : ∀ x ∈ handles .buffer (output.map Prod.fst) ++ handles .context context,
    x.2 ≠ .name :=
    append_ne (handles_ne _ (by decide)) (handles_ne _ (by decide))
  refine .ite (fun hi => .bind ?_) fun hi => .bind ?_
  · refine (failedResult_safe (hd _ (by simp) hi)).mono fun r h₃ hr => ?_
    obtain ⟨hl₃, hcode, t, hend, hdesc⟩ := hr
    rw [hl₂, ← List.append_assoc] at hl₃
    refine .bind ((release_live hl₃ hcred).mono fun _ h₄ hl₄ => ?_)
    refine .bind ((release_live hl₄ hname).mono fun _ h₅ hl₅ => ?_)
    rw [List.append_assoc] at hl₅
    refine .bind ((deleteSecContext_live hl₅ (handles_ne _ (by decide))).mono fun _ h₆ hl₆ => ?_)
    refine .failed hcode hend (.initSecContext hn hc hi hdesc) hl₆ ?_
    -- what is left is the output token, if there is one
    unfold leftBehind
    rw [← hout]
    cases output with
    | none => simp [handles]
    | some b => simp [handles, hn, hc, hi]
  · have hcontext : HasContext f spn := ⟨hn, hc, by simpa using hi⟩
    rw [← List.append_assoc] at hl₂
    refine (release_live hl₂ hcred).mono fun _ h₃ hl₃ => ?_
    rw [List.append_assoc] at hl₃
    refine .bind ((copyToken_safe hl₃).mono fun r h₄ hr => ?_)
    obtain ⟨block, hl₄, hcopied⟩ := hr
    rw [hl₃] at hl₄
    refine .bind ((releaseBuffer_live hl₄ (handles_ne _ (by decide))).mono fun _ h₅ hl₅ => ?_)
    rw [← List.append_assoc] at hl₅
    have hname' : ∀ x ∈ handles .block block ++ handles .context context, x.2 ≠ .name :=
      append_ne (handles_ne _ (by decide)) (handles_ne _ (by decide))
    refine .bind ((release_live hl₅ hname').mono fun _ h₆ hl₆ => ?_)
    rw [List.append_assoc] at hl₆
    refine .bind ((deleteSecContext_live hl₆ (handles_ne _ (by decide))).mono fun _ h₇ hl₇ => ?_)
    exact Copied.returned (hout ▸ hcopied) hcontext hl₇

theorem cText_credential (t : Str) :
    cText (str "credential check: " ++ cText t) = str "credential check: " ++ cText t := by
  have hpre : (str "credential check: ").all (· ≠ 0) = true := by decide
  unfold cText
  rw [List.takeWhile_append_of_pos (List.all_eq_true.mp hpre), List.takeWhile_idem]

theorem checkCredentials_safe {f : Framework} {spn : Str} {serverName : Nat}
    {live : List (Nat × Kind)}
    (hd : Explains f spn) (hn : (f.importName (cText spn)).isError = false)
    (hl : h.live = (serverName, .name) :: live) :
    Safe (checkCredentials f serverName) h (Returned f spn live) := by
  refine .ite (fun hc => .bind ?_) fun hc => ?_
  · have hlen : ((List.range 230).map f.stack).length = 230 :=
    by rw [List.length_map, List.length_range]
    generalize (List.range 230).map f.stack = buf at hlen ⊢
    refine (formatGssError_safe (hd _ (by simp) hc) (by omega) (by omega)).mono fun gssErr h₁ hb => ?_
    obtain ⟨hl₁, t, hend, hdesc⟩ := hb
    rw [hlen] at hdesc
    refine .bind ((readString_safe hend).mono fun s h₂ hs => ?_)
    have hfits : (str "credential check: " ++ s).length < 256 := by
      rw [hs.2]
      have ht : (cText t).length ≤ t.length := (List.takeWhile_sublist _).length_le
      have hd := hdesc.fits
      rw [List.length_append, show (str "credential check: ").length = 18 from by decide]
      omega
    generalize hmsg : str "credential check: " ++ s = msg at hfits ⊢
    refine .bind ((snprintf_errorMsg hfits).mono fun buf' h₃ hm => ?_)
    obtain ⟨rfl, hend'⟩ := hm
    obtain ⟨rfl, rfl⟩ := hs
    refine .bind ((release_live (A := []) (hl₁.trans hl) (by simp)).mono fun _ h₄ hl₄ => ?_)
    refine .failed (l := []) rfl hend' ?_ hl₄ ?_
    · rw [← hmsg, cText_credential]
      exact .acquireCred hn hc hdesc
    · exact (leftBehind_eq_nil (.inr (.inl hc))).symm
  · exact .bind (m := alloc .cred) (initSecContext_safe hd hn (by simpa using hc) (congrArg _ hl))

theorem acquireSpnegoToken_safe {f : Framework} {spn : Str} {p : Nat} {live : List (Nat × Kind)}
    (hd : Explains f spn) (hl : h.live = (p, .cString) :: live) :
    Safe (acquireSpnegoToken f (p, spn ++ [0])) h (Returned f spn h.live) := by
  refine .bind (access_safe (by simp [hl]) (.bind ?_))
  refine (readString_safe (List.prefix_refl (spn ++ [0]))).mono fun s h₁ hs => ?_
  obtain ⟨rfl, rfl⟩ := hs
  refine .ite (fun hi => ?_) fun hi => ?_
  · refine (failedResult_safe (hd _ (by simp) hi)).mono fun r h₂ hr => ?_
    obtain ⟨hl₂, hcode, t, hend, hdesc⟩ := hr
    exact .failed (l := []) hcode hend (.importName hi hdesc) hl₂ (leftBehind_eq_nil (.inl hi)).symm
  · exact .bind (m := alloc .name) (checkCredentials_safe hd (by simpa using hi) rfl)

/-! ## `GetToken` -/

theorem goBytes_safe {p : Nat} {bs : Str} (hp : (p, .block) ∈ h.live) (hlen : bs.length < 2 ^ 31) :
    Safe (goBytes (p, bs) bs.length) h fun s h' => h' = h ∧ s = bs := by
  have hmod : bs.length % 2 ^ 32 = bs.length := Nat.mod_eq_of_lt (by omega)
  unfold goBytes
  rw [hmod]
  refine .bind (access_safe hp ?_)
  rw [if_neg (by omega), if_pos (Nat.le_refl _), List.take_length]
  exact ⟨rfl, rfl⟩

/-- A call ends with an answer, and with what it left behind over `live`. -/
def Answered (f : Framework) (spn ccname : Str) (live : List (Nat × Kind)) (r : Except GoError Str)
    (h : Heap) : Prop :=
  Answer f spn ccname r ∧ ∃ left, h.live = left ++ live ∧ left.map Prod.snd = leftBehind f spn

theorem tokenOf_safe {f : Framework} {spn ccname : Str} {live : List (Nat × Kind)} {r : TokenResult}
    (hlen : ∀ bs, f.outputToken = some bs → bs.length < 2 ^ 31) (hr : Returned f spn live r h) :
    Safe (tokenOf r ccname) h (Answered f spn ccname live) := by
  unfold tokenOf
  cases hr with
  | failed hc he hr hl hleft =>
    rw [if_pos (by rw [hc]; decide)]
    refine .bind ((readString_safe he).mono fun s h' hs => ?_)
    obtain ⟨rfl, rfl⟩ := hs
    exact ⟨.error hr, _, hl, hleft⟩
  | empty hc hd hr ht hl =>
    rw [if_neg (by rw [hc]; decide), hd]
    exact ⟨.empty hr ht, [], hl, (leftBehind_eq_nil (.inr (.inr hr.init))).symm⟩
  | @token bs p hc hd hn hr ht hne hm hl =>
    rw [if_neg (by rw [hc]; decide), hd, hn]
    dsimp only
    rw [if_neg fun h0 => hne (List.eq_nil_of_length_eq_zero h0)]
    refine .bind ((goBytes_safe (by rw [hl]; exact List.mem_cons_self ..) (hlen bs ht)).mono fun s h' hs => ?_)
    obtain ⟨rfl, rfl⟩ := hs
    refine .bind ((release_live (A := []) hl (by simp)).mono fun _ h₁ hl₁ => ?_)
    exact ⟨.token hr ht hne hm, [], hl₁, (leftBehind_eq_nil (.inr (.inr hr.init))).symm⟩

theorem leftBehind_ne {f : Framework} {spn : Str} {left : List (Nat × Kind)}
    (hl : left.map Prod.snd = leftBehind f spn) : ∀ x ∈ left, x.2 ≠ .cString := by
  intro x hx
  have hmem : x.2 ∈ leftBehind f spn := hl ▸ List.mem_map_of_mem hx
  unfold leftBehind at hmem
  split at hmem
  · rw [List.mem_singleton.mp hmem]
    decide
  · cases hmem

theorem getToken_safe {f : Framework} {spn ccname : Str} (hd : Explains f spn)
    (hlen : ∀ bs, f.outputToken = some bs → bs.length < 2 ^ 31) :
    Safe (getToken spn f ccname) h (Answered f spn ccname h.live) := by
  refine .bind (m := alloc .cString) (.bind ?_)
  refine (acquireSpnegoToken_safe hd rfl).mono fun result h₁ hr => ?_
  refine .bind ((tokenOf_safe hlen hr).mono fun r h₂ ha => ?_)
  obtain ⟨hanswer, left, hl, hleft⟩ := ha
  refine .bind ((release_live hl (leftBehind_ne hleft)).mono fun _ h₃ hl₃ => ?_)
  exact ⟨hanswer, left, hl₃, hleft⟩

/-- Calls of `GetToken`, one after another. -/
def getTokens (spn : Str) (calls : List (Framework × Str)) : CM (List (Except GoError Str)) :=
  calls.mapM fun x => getToken spn x.1 x.2

theorem getTokens_safe (spn : Str) (calls : List (Framework × Str)) {h : Heap}
    (hd : ∀ x ∈ calls, Explains x.1 spn)
    (hlen : ∀ x ∈ calls, ∀ bs, x.1.outputToken = some bs → bs.length < 2 ^ 31) :
    Safe (getTokens spn calls) h fun rs h' => List.Forall₂ (fun x r => Answer x.1 spn x.2 r) calls rs ∧
      h'.live.map Prod.snd = calls.reverse.flatMap (fun x => leftBehind x.1 spn) ++ h.live.map Prod.snd := by
  induction calls generalizing h with
  | nil => exact ⟨.nil, rfl⟩
  | cons x calls ih =>
    unfold getTokens
    rw [List.mapM_cons]
    refine .bind ((getToken_safe (hd x (List.mem_cons_self ..)) (hlen x (List.mem_cons_self ..))).mono fun r h₁ hr => ?_)
    obtain ⟨hanswer, left, hl, hleft⟩ := hr
    refine .bind ((ih (fun y hy => hd y (List.mem_cons_of_mem _ hy)) fun y hy => hlen y (List.mem_cons_of_mem _ hy)).mono fun rs h₂ hrs => ?_)
    refine ⟨.cons hanswer hrs.1, ?_⟩
    rw [hrs.2, hl, List.map_append, hleft]
    simp

/-- The GSS provider is memory safe. In any number of calls of `GetToken`,
however long the framework's messages are and whatever `malloc` does, no call
reads or writes outside of an array or uses or releases what is not allocated,
if the framework can display the statuses that its calls fail with and its
tokens are not larger than an `int` can say. Each call gives the token, or
tells what failed. All that is left allocated are tokens of
`gss_init_sec_context`s that failed. -/
theorem gss_calls_safe (spn : Str) (calls : List (Framework × Str))
    (hd : ∀ x ∈ calls, Explains x.1 spn)
    (hlen : ∀ x ∈ calls, ∀ bs, x.1.outputToken = some bs → bs.length < 2 ^ 31) :
    ∃ rs h, (getTokens spn calls).run {} = .ok (rs, h) ∧
      List.Forall₂ (fun x r => Answer x.1 spn x.2 r) calls rs ∧
      h.live.map Prod.snd = calls.reverse.flatMap fun x => leftBehind x.1 spn := by
  obtain ⟨rs, h, hrun, hanswers, hl⟩ := (getTokens_safe spn calls hd hlen (h := {})).run
  exact ⟨rs, h, hrun, hanswers, hl.trans (List.append_nil _)⟩

/-- A framework with a credential, whose `gss_init_sec_context` returns `major` and a token. -/
def withToken (major : UInt32) : Framework where
  displayStatus _ _ := some (str "Unspecified GSS failure", [str "Server not found"])
  importName _ := ⟨0, 0⟩
  acquireCred := ⟨0, 0⟩
  initSecContext := ⟨major, 7⟩
  context := true
  outputToken := some (str "abc")
  malloc := true
  stack _ := 0xAA

theorem gss_calls_safe_withToken :
    ∃ rs h, (getTokens (str "HTTP@px") [(withToken 0xD0000, []),
      (withToken 0, [])]).run {} = .ok (rs, h) ∧
      h.live.map Prod.snd = [.buffer] := by
  have hlen : ∀ x ∈ [(withToken 0xD0000, ([] : Str)), (withToken 0, [])], ∀ bs,
    x.1.outputToken = some bs →
      bs.length < 2 ^ 31 := by
    intro x hx bs hbs
    have htok : x.1.outputToken = some (str "abc") := by
      rcases List.mem_cons.mp hx with rfl | hx
      · rfl
      · rw [List.mem_singleton.mp hx]
        rfl
    obtain rfl := Option.some.inj (hbs.symm.trans htok)
    decide
  have hd : ∀ x ∈ [(withToken 0xD0000, ([] : Str)), (withToken 0, [])],
    Explains x.1 (str "HTTP@px") := by
    intro x hx
    rcases List.mem_cons.mp hx with rfl | hx
    · exact fun _ _ _ => ⟨rfl, fun _ => rfl⟩
    · rw [List.mem_singleton.mp hx]
      exact fun _ _ _ => ⟨rfl, fun _ => rfl⟩
  obtain ⟨rs, h, hrun, -, hl⟩ := gss_calls_safe (str "HTTP@px") _ hd hlen
  exact ⟨rs, h, hrun, hl⟩

end SP.Proof.Gss
