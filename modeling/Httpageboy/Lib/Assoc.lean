import Httpageboy.Lib.Writes
import Mathlib.Data.List.AList

set_option relaxedAutoImplicit false
set_option autoImplicit false

/-!
# Association lists as finite maps

An `AList` is a finite map together with the order in which it is walked. These are the facts
about the map that do not depend on the order, and the ways to change the order.

## Main definitions

* `Assoc.insertAll` — insert the pairs of a list one after the other.

## Main results

* `Assoc.lookup_insertAll` — the last pair with a key wins, over those the map has.
* `Assoc.lookup_foldl_insert` — the same for pairs that are written one after the other.
* `Assoc.exists_front` — any entry can be the first one of the walk.
* `Assoc.find?_eq_of_unique` — a search finds the same entry in every order when only one entry
  satisfies its condition.
-/

namespace Assoc

variable {K V : Type}

/-! ## Orders of the entries -/

/-- Any entry can come first. -/
theorem exists_front {m : AList fun _ : K => V} {e : Σ _ : K, V} (h : e ∈ m.entries) :
    ∃ m' : AList fun _ : K => V, m'.entries.Perm m.entries ∧ ∃ rest, m'.entries = e :: rest := by
  obtain ⟨front, back, hsplit⟩ := List.append_of_mem h
  have hperm : (e :: (front ++ back)).Perm m.entries := by
    rw [hsplit]
    exact List.perm_middle.symm
  exact ⟨⟨e :: (front ++ back), (List.perm_nodupKeys hperm).2 m.nodupKeys⟩, hperm, _, rfl⟩

/-- A search whose condition at most one entry satisfies does not depend on the order. -/
theorem find?_eq_of_unique {l l' : List (Σ _ : K, V)} (hperm : l.Perm l')
    {p : (Σ _ : K, V) → Bool}
    (hunique : ∀ e ∈ l, ∀ e' ∈ l, p e = true → p e' = true → e = e') :
    l.find? p = l'.find? p := by
  cases hfind : l.find? p with
  | none =>
    symm
    rw [List.find?_eq_none] at hfind ⊢
    intro e he
    exact hfind e (hperm.mem_iff.2 he)
  | some e =>
    have he := List.mem_of_find?_eq_some hfind
    have hp := List.find?_some hfind
    have hsome : (l'.find? p).isSome = true :=
      List.find?_isSome.2 ⟨e, hperm.mem_iff.1 he, hp⟩
    obtain ⟨e', hfind'⟩ := Option.isSome_iff_exists.1 hsome
    have he' := hperm.mem_iff.2 (List.mem_of_find?_eq_some hfind')
    rw [hfind', hunique e he e' he' hp (List.find?_some hfind')]

/-! ## Insertions -/

variable [DecidableEq K]

/-- Insert the pairs of a list, in order. -/
def insertAll (pairs : List (Σ _ : K, V)) (m : AList fun _ : K => V) : AList fun _ : K => V :=
  pairs.foldl (fun m p => m.insert p.1 p.2) m

/-- Without pairs the map stays as it is. -/
@[simp] lemma insertAll_nil (m : AList fun _ : K => V) : insertAll [] m = m := rfl

/-- The pairs are inserted from the first one on. -/
@[simp] lemma insertAll_cons (p : Σ _ : K, V) (pairs : List (Σ _ : K, V))
    (m : AList fun _ : K => V) :
    insertAll (p :: pairs) m = insertAll pairs (m.insert p.1 p.2) := rfl

/-- A lookup behind one insertion. -/
lemma lookup_insert (key : K) (a : K) (b : V) (m : AList fun _ : K => V) :
    (m.insert a b).lookup key = if key = a then some b else m.lookup key := by
  by_cases h : key = a
  · subst h
    rw [if_pos rfl, AList.lookup_insert]
  · rw [if_neg h, AList.lookup_insert_ne h]

/-- Insertions are writes: the last one with a key counts, and behind it what the map has. -/
theorem lookup_foldl_insert (key : K) (pairs : List (K × V)) (m : AList fun _ : K => V) :
    (pairs.foldl (fun m p => m.insert p.1 p.2) m).lookup key =
      (Writes.last key pairs).or (m.lookup key) := by
  have hget := Writes.get_foldl (fun (m : AList fun _ : K => V) k v => m.insert k v)
    (fun m k => m.lookup k) (fun _ v => some v) (fun m _ _ => AList.lookup_insert m)
    (fun m _ _ _ hne => AList.lookup_insert_ne (Ne.symm hne)) pairs m key
  rw [hget]
  cases Writes.last key pairs <;> rfl

/-- **What the pairs bind hides what the map has.** -/
theorem lookup_insertAll (key : K) (pairs : List (Σ _ : K, V)) (m : AList fun _ : K => V) :
    (insertAll pairs m).lookup key = ((insertAll pairs ∅).lookup key).or (m.lookup key) := by
  induction pairs generalizing m with
  | nil => simp
  | cons p pairs ih =>
    rw [insertAll_cons, insertAll_cons, ih, ih (AList.insert p.1 p.2 ∅), lookup_insert,
      lookup_insert, AList.lookup_empty]
    by_cases h : key = p.1
    · rw [if_pos h, if_pos h]
      cases (insertAll pairs ∅).lookup key <;> rfl
    · rw [if_neg h, if_neg h, Option.or_none]

/-- Inserting the entries of a map into another one. -/
lemma lookup_insertAll_entries (key : K) (m m' : AList fun _ : K => V) :
    (insertAll m.entries m').lookup key = (m.lookup key).or (m'.lookup key) := by
  rw [lookup_insertAll]
  congr 1
  obtain ⟨entries, hnodup⟩ := m
  show (insertAll entries ∅).lookup key = entries.dlookup key
  induction entries with
  | nil => rfl
  | cons p entries ih =>
    obtain ⟨hnot, hrest⟩ := List.nodupKeys_cons.1 hnodup
    rw [insertAll_cons, lookup_insertAll, ih hrest, lookup_insert, AList.lookup_empty]
    by_cases h : key = p.1
    · have hnone : entries.dlookup key = none := List.dlookup_eq_none.2 (h ▸ hnot)
      subst h
      rw [if_pos rfl, hnone, Option.none_or, List.dlookup_cons_eq]
    · rw [if_neg h, Option.or_none, List.dlookup_cons_ne _ _ h]

/-- An entry is what its key is bound to. -/
lemma mem_entries_iff {key : K} {value : V} {m : AList fun _ : K => V} :
    ⟨key, value⟩ ∈ m.entries ↔ m.lookup key = some value :=
  AList.mem_lookup_iff.symm

end Assoc
