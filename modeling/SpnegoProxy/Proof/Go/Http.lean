import SpnegoProxy.Impl.Go.Http
import SpnegoProxy.Proof.Go.Strings

/-!
# Header maps

How `Set` and `Del` change the entries of a header map, and the lines that a
map is written as: `lines h name` are the values under every key that names
the field `name`, in whatever letter case. In a map with canonical keys that
is the one entry of the name.
-/

namespace SP.Go

theorem isTokenByte_fold : ∀ c : UInt8, isTokenByte c = true →
    isTokenByte (upperByte c) = true ∧ isTokenByte (lowerByte c) = true ∧
    upperByte (upperByte c) = upperByte c ∧ lowerByte (lowerByte c) = lowerByte c ∧
    ((upperByte c = 0x2D ↔ c = 0x2D) ∧ (lowerByte c = 0x2D ↔ c = 0x2D)) :=
  forall_byte (by decide +kernel)

theorem canonicalBytes_token {s : Str} (up : Bool) (h : s.all isTokenByte = true) :
    (canonicalBytes up s).all isTokenByte = true := by
  induction s generalizing up with
  | nil => rfl
  | cons c s ih =>
    simp only [List.all_cons, Bool.and_eq_true] at h
    obtain ⟨hu, hl, -⟩ := isTokenByte_fold c h.1
    simp only [canonicalBytes, List.all_cons, Bool.and_eq_true]
    refine ⟨?_, ih _ h.2⟩
    cases up
    · exact hl
    · exact hu

theorem canonicalBytes_idem {s : Str} (up : Bool) (h : s.all isTokenByte = true) :
    canonicalBytes up (canonicalBytes up s) = canonicalBytes up s := by
  induction s generalizing up with
  | nil => rfl
  | cons c s ih =>
    simp only [List.all_cons, Bool.and_eq_true] at h
    obtain ⟨-, -, hu, hl, hud, hld⟩ := isTokenByte_fold c h.1
    cases up
    · simp only [canonicalBytes, Bool.false_eq_true, if_false, hl, hld, ih _ h.2]
    · simp only [canonicalBytes, if_true, hu, hud, ih _ h.2]

theorem canonicalKey_idem (s : Str) : canonicalKey (canonicalKey s) = canonicalKey s := by
  by_cases h : s.all isTokenByte = true
  · simp only [canonicalKey, h, if_true, canonicalBytes_token true h, canonicalBytes_idem true h]
  · simp only [canonicalKey, h, if_false, Bool.false_eq_true]

theorem lowerByte_fold : ∀ c :
    UInt8, upperByte (lowerByte c) = upperByte c ∧ lowerByte (lowerByte c) = lowerByte c ∧
    lowerByte (upperByte c) = lowerByte c ∧ (lowerByte c = 0x2D ↔ c = 0x2D) ∧
    isTokenByte (lowerByte c) = isTokenByte c := forall_byte (by decide +kernel)

/-- The canonical form does not depend on the letter case, -/
theorem canonicalBytes_foldCase (up : Bool) (s : Str) :
    canonicalBytes up (foldCase s) = canonicalBytes up s := by
  induction s generalizing up with
  | nil => rfl
  | cons c s ih =>
    obtain ⟨hu, hl, -, hd, -⟩ := lowerByte_fold c
    rw [foldCase, List.map_cons, canonicalBytes, ← foldCase, ih, canonicalBytes, hu, hl]
    simp only [hd]

/-- and it only changes the letter case. -/
theorem foldCase_canonicalBytes (up : Bool) (s : Str) :
    foldCase (canonicalBytes up s) = foldCase s := by
  induction s generalizing up with
  | nil => rfl
  | cons c s ih =>
    obtain ⟨-, hl, hu, -, -⟩ := lowerByte_fold c
    rw [canonicalBytes, foldCase, List.map_cons, ← foldCase, ih, foldCase, foldCase, List.map_cons]
    cases up
    · rw [if_neg (by decide), hl]
    · rw [if_pos rfl, hu]

theorem token_foldCase (s : Str) : (foldCase s).all isTokenByte = s.all isTokenByte := by
  rw [foldCase, List.all_map]
  exact List.all_congr rfl fun c => (lowerByte_fold c).2.2.2.2

/-- The names with the canonical form `k` are `k` in any letter case. -/
theorem canonicalKey_eq_iff {name k : Str} (hk : canonicalKey k = k)
    (ht : k.all isTokenByte = true) : canonicalKey name = k ↔ foldCase name = foldCase k := by
  constructor
  · rintro rfl
    rw [canonicalKey]
    split
    · rw [foldCase_canonicalBytes]
    · rfl
  · intro hf
    have hn : name.all isTokenByte = true := by rw [← token_foldCase, hf, token_foldCase, ht]
    rw [canonicalKey, if_pos ht] at hk
    rw [canonicalKey, if_pos hn, ← canonicalBytes_foldCase, hf, canonicalBytes_foldCase, hk]

namespace Header

variable {h : Header} {key k v : Str}

theorem entry_set_self : (h.set key v).entry (canonicalKey key) = some [v] :=
  AList.lookup_insert _

theorem entry_set_ne (hk : k ≠ canonicalKey key) : (h.set key v).entry k = h.entry k :=
  AList.lookup_insert_ne hk

theorem entry_del_self : (h.del key).entry (canonicalKey key) = none := AList.lookup_erase _ _

theorem entry_del_ne (hk : k ≠ canonicalKey key) : (h.del key).entry k = h.entry k :=
  AList.lookup_erase_ne hk

theorem entry_del : (h.del key).entry k = if k = canonicalKey key then none else h.entry k := by
  split
  · rename_i hk
    rw [hk]; exact entry_del_self
  · exact entry_del_ne ‹_›

/-- There is nothing to delete. -/
theorem del_of_none (hn : h.entry (canonicalKey key) = none) : h.del key = h := by
  have hk : canonicalKey key ∉ h.fields.entries.keys := AList.lookup_eq_none.mp hn
  exact congrArg Header.mk (AList.ext (List.kerase_of_notMem_keys hk))

theorem foldl_del_of_none {names : List Str}
    (hn : ∀ name ∈ names, h.entry (canonicalKey name) = none) : names.foldl del h = h := by
  induction names with
  | nil => rfl
  | cons name names ih =>
    rw [List.foldl_cons, del_of_none (hn name List.mem_cons_self)]
    exact ih fun name' hm => hn name' (List.mem_cons_of_mem _ hm)

/-- The names in a list are gone after all of them are deleted, and no other. -/
theorem entry_foldl_del {names : List Str} :
    (names.foldl del h).entry k = if k ∈ names.map canonicalKey then none else h.entry k := by
  induction names generalizing h with
  | nil => rfl
  | cons name names ih =>
    rw [List.foldl_cons, ih, entry_del, List.map_cons]
    by_cases hk : k = canonicalKey name
    · rw [if_pos hk, ite_self, if_pos (hk ▸ List.mem_cons_self)]
    · rw [if_neg hk]
      exact if_congr (by rw [List.mem_cons, or_iff_right hk]) rfl rfl

/-- Every key is in canonical form. -/
def Canonical (h : Header) : Prop := ∀ k, h.entry k ≠ none → canonicalKey k = k

instance : Decidable h.Canonical :=
  decidable_of_iff (∀ k ∈ h.fields.keys, canonicalKey k = k) <| by
    simp only [Canonical, entry, ne_eq, AList.lookup_eq_none, not_not, AList.mem_keys]

theorem Canonical.set (hc : h.Canonical) : (h.set key v).Canonical := fun k hk => by
  by_cases he : k = canonicalKey key
  · rw [he]; exact canonicalKey_idem key
  · exact hc k (by rwa [entry_set_ne he] at hk)

theorem Canonical.del (hc : h.Canonical) : (h.del key).Canonical := fun k hk => by
  by_cases he : k = canonicalKey key
  · rw [he]; exact canonicalKey_idem key
  · exact hc k (by rwa [entry_del_ne he] at hk)

theorem Canonical.foldl_del {names : List Str} (hc : h.Canonical) :
    (names.foldl Header.del h).Canonical := by
  induction names generalizing h with
  | nil => exact hc
  | cons name names ih => exact ih hc.del

/-- The values of the lines that are written for the field `name`: keys are
compared without regard to letter case. -/
def lines (h : Header) (name : Str) : List Str :=
  h.fields.entries.flatMap fun e => if canonicalKey e.1 = canonicalKey name then e.2 else []

/-- In a list with each key once, the values at a key are those of its entry. -/
theorem flatMap_key {l : List (Sigma fun _ : Str => List Str)} (hl : l.NodupKeys) :
    (l.flatMap fun e => if e.1 = k then e.2 else []) = (l.dlookup k).getD [] := by
  induction l with
  | nil => rfl
  | cons e l ih =>
    obtain ⟨k', v⟩ := e
    obtain ⟨hn, hl⟩ := List.nodupKeys_cons.mp hl
    rw [List.flatMap_cons, ih hl]
    by_cases he : k' = k
    · subst he
      rw [List.dlookup_cons_eq, List.dlookup_eq_none.mpr hn]
      simp
    · rw [List.dlookup_cons_ne _ _ (Ne.symm he), if_neg he, List.nil_append]

/-- With canonical keys, the lines of a field are its entry. -/
theorem Canonical.lines_eq (hc : h.Canonical) :
    h.lines key = (h.entry (canonicalKey key)).getD [] := by
  rw [entry, AList.lookup, ← flatMap_key h.fields.nodupKeys, lines]
  refine List.flatMap_congr fun e he => ?_
  have hk : h.entry e.1 ≠ none := by
    rw [entry, Ne, AList.lookup_eq_none, not_not]
    exact List.mem_keys_of_mem he
  rw [hc e.1 hk]

end Header

end SP.Go
