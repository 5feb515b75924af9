import Mathlib.Data.List.Destutter
import Mathlib.Data.List.Sort
import Mathlib.Data.Nat.Notation
import Mathlib.Order.Lattice
import Mathlib.Tactic.Common

set_option relaxedAutoImplicit false
set_option autoImplicit false

/-!
# Stable sorting by a key

A list that is sorted stably by a key, and from which the elements are then removed that have the
key of the element in front of them: of every key the first element of the original list stays.

## Main definitions

* `Sorting.sortBy` — sort by a key, stably.
* `Sorting.groupBy` — the elements of a list, grouped by a key in a sorted map.
* `Sorting.dedupBy` — remove the elements with the key of the last one that was kept.

## Main results

* `Sorting.filter_sortBy` — sorting is stable.
* `Sorting.sortBy_eq_of_perm` — sorting different keys does not depend on the order.
* `Sorting.pairwise_dedupBy` — what stays of a sorted list increases strictly.
* `Sorting.mem_dedupBy_sortBy_iff` — the elements that stay are the first ones with their key.
* `Sorting.groupBy_spec` — the keys of the groups increase, and each group has its elements.
* `Sorting.filterMap_eq_map_iff` — when what is read at some places is what is wanted of some marks.
-/

namespace Sorting

variable {α κ : Type} [LinearOrder κ] (key : α → κ)

/-- `slice::sort_by` with a comparison of keys: elements with the same key stay in order. -/
def sortBy (l : List α) : List α := l.insertionSort fun a b => key a ≤ key b

/-- `Vec::dedup_by` with an equality of keys: an element goes when the last one that was kept has
its key. -/
def dedupBy (l : List α) : List α := l.destutter fun kept a => key a ≠ key kept

/-- Sorting only reorders. -/
lemma perm_sortBy (l : List α) : (sortBy key l).Perm l := List.perm_insertionSort _ l

/-- A sorted list has its keys in order. -/
lemma pairwise_sortBy (l : List α) : (sortBy key l).Pairwise fun a b => key a ≤ key b := by
  have htotal : Std.Total fun a b : α => key a ≤ key b := ⟨fun a b => le_total (key a) (key b)⟩
  have htrans : IsTrans α fun a b => key a ≤ key b := ⟨fun _ _ _ => le_trans⟩
  exact List.pairwise_insertionSort _ l

/-- **Sorting is stable**: the elements with a key keep their order. -/
theorem filter_sortBy (k : κ) (l : List α) :
    ((sortBy key l).filter fun a => key a = k) = l.filter fun a => key a = k := by
  have htotal : Std.Total fun a b : α => key a ≤ key b := ⟨fun a b => le_total (key a) (key b)⟩
  have htrans : IsTrans α fun a b => key a ≤ key b := ⟨fun _ _ _ => le_trans⟩
  have hequal : (l.filter fun a => key a = k).Pairwise fun a b => key a ≤ key b := by
    refine List.pairwise_of_forall_mem_list fun a ha b hb => ?_
    have hak : key a = k := by simpa using (List.mem_filter.1 ha).2
    have hbk : key b = k := by simpa using (List.mem_filter.1 hb).2
    rw [hak, hbk]
  have hsub : (l.filter fun a => key a = k).Sublist (sortBy key l) :=
    List.sublist_insertionSort hequal List.filter_sublist
  have hsubfilter := hsub.filter fun a => decide (key a = k)
  rw [List.filter_filter] at hsubfilter
  simp only [Bool.and_self] at hsubfilter
  exact (hsubfilter.eq_of_length ((perm_sortBy key l).filter _).length_eq.symm).symm

/-- A sorted list has the same first element with a key as the original one. -/
lemma find?_sortBy (k : κ) (l : List α) :
    (sortBy key l).find? (fun a => key a = k) = l.find? fun a => key a = k := by
  rw [← List.head?_filter, ← List.head?_filter, filter_sortBy]

/-- Where different elements have different keys, sorting does not depend on the order. -/
theorem sortBy_eq_of_perm {l l' : List α} (h : l.Perm l')
    (hkey : ∀ a ∈ l, ∀ b ∈ l, key a = key b → a = b) : sortBy key l = sortBy key l' := by
  have hperm : (sortBy key l).Perm (sortBy key l') :=
    (perm_sortBy key l).trans (h.trans (perm_sortBy key l').symm)
  refine hperm.eq_of_pairwise ?_ (pairwise_sortBy key l) (pairwise_sortBy key l')
  intro a b ha hb hab hba
  exact hkey a ((perm_sortBy key l).mem_iff.1 ha) b
    (h.mem_iff.2 ((perm_sortBy key l').mem_iff.1 hb)) (le_antisymm hab hba)

/-- Where different elements have different keys, the sorted list increases strictly. -/
lemma pairwise_lt_sortBy {l : List α} (h : (l.map key).Nodup) :
    (sortBy key l).Pairwise fun a b => key a < key b := by
  have hnodup : ((sortBy key l).map key).Nodup := ((perm_sortBy key l).map key).nodup_iff.2 h
  rw [List.Nodup, List.pairwise_map] at hnodup
  exact (List.pairwise_and_iff.2 ⟨pairwise_sortBy key l, hnodup⟩).imp fun h =>
    lt_of_le_of_ne h.1 h.2

/-- What is kept behind an element of a list that is sorted from there on.

**Proof sketch.** Induction on the list: an element with the key of the last one that was kept is
removed, and one with a larger key takes its place. -/
lemma dedupBy_cons {a : α} {l : List α} (h : (a :: l).Pairwise fun a b => key a ≤ key b) :
    (dedupBy key (a :: l)).Pairwise (fun a b => key a < key b) ∧
      ∀ x, x ∈ dedupBy key (a :: l) ↔ (a :: l).find? (fun y => key y = key x) = some x := by
  unfold dedupBy
  rw [List.destutter_cons']
  induction l generalizing a with
  | nil => simp [eq_comm]
  | cons b l ih =>
    obtain ⟨hle, hrest⟩ := List.pairwise_cons.1 h
    have hab : key a ≤ key b := hle b List.mem_cons_self
    by_cases hkey : key b = key a
    · rw [List.destutter'_cons_neg _ (not_not.2 hkey)]
      have hskip : (a :: l).Pairwise fun a b => key a ≤ key b :=
        List.pairwise_cons.2 ⟨fun c hc => hle c (List.mem_cons_of_mem _ hc),
          (List.pairwise_cons.1 hrest).2⟩
      obtain ⟨hlt, hmem⟩ := ih hskip
      refine ⟨hlt, fun x => ?_⟩
      rw [hmem]
      by_cases hx : key a = key x
      · simp [hx]
      · simp [hx, hkey]
    · rw [List.destutter'_cons_pos _ hkey]
      obtain ⟨hlt, hmem⟩ := ih hrest
      have hfirst : ∀ x ∈ (b :: l), key a < key x := by
        intro x hx
        refine lt_of_lt_of_le (lt_of_le_of_ne hab (Ne.symm hkey)) ?_
        rcases List.mem_cons.1 hx with rfl | hx
        · exact le_rfl
        · exact (List.pairwise_cons.1 hrest).1 x hx
      refine ⟨List.pairwise_cons.2 ⟨fun x hx => ?_, hlt⟩, fun x => ?_⟩
      · exact hfirst x (List.mem_of_find?_eq_some ((hmem x).1 hx))
      · rw [List.mem_cons, hmem]
        by_cases hx : key a = key x
        · have hnot : ¬ (b :: l).find? (fun y => key y = key x) = some x := by
            intro hfind
            exact absurd hx (hfirst x (List.mem_of_find?_eq_some hfind)).ne
          have hfound : (a :: b :: l).find? (fun y => key y = key x) = some a := by simp [hx]
          rw [hfound, Option.some.injEq]
          constructor
          · rintro (rfl | hfind)
            · rfl
            · exact absurd hfind hnot
          · rintro rfl
            exact .inl rfl
        · have hnext : (a :: b :: l).find? (fun y => key y = key x) =
              (b :: l).find? fun y => key y = key x := by simp [hx]
          rw [hnext]
          constructor
          · rintro (rfl | hfind)
            · exact absurd rfl hx
            · exact hfind
          · exact .inr

/-- What stays of a sorted list increases strictly. -/
theorem pairwise_dedupBy {l : List α} (h : l.Pairwise fun a b => key a ≤ key b) :
    (dedupBy key l).Pairwise fun a b => key a < key b := by
  cases l with
  | nil => exact List.Pairwise.nil
  | cons a l => exact (dedupBy_cons key h).1

/-- The elements that stay of a sorted list are the first ones with their key. -/
lemma mem_dedupBy_iff {l : List α} (h : l.Pairwise fun a b => key a ≤ key b) (x : α) :
    x ∈ dedupBy key l ↔ l.find? (fun y => key y = key x) = some x := by
  cases l with
  | nil => simp [dedupBy]
  | cons a l => exact (dedupBy_cons key h).2 x

/-- **The elements that stay** of a list that is sorted stably are the first ones with their key in
the original list. -/
theorem mem_dedupBy_sortBy_iff (l : List α) (x : α) :
    x ∈ dedupBy key (sortBy key l) ↔ l.find? (fun y => key y = key x) = some x := by
  rw [mem_dedupBy_iff key (pairwise_sortBy key l), find?_sortBy]

/-- `entry(key).or_default().push(..)` on a sorted map from keys to lists. -/
def pushGroup (k : κ) (a : α) : List (κ × List α) → List (κ × List α)
  | [] => [(k, [a])]
  | (k', group) :: groups =>
    if k = k' then (k', group ++ [a]) :: groups
    else if k < k' then (k, [a]) :: (k', group) :: groups
    else (k', group) :: pushGroup k a groups

/-- The elements of a list, grouped by their keys in a sorted map. -/
def groupBy (l : List α) : List (κ × List α) :=
  l.foldl (fun groups a => pushGroup (key a) a groups) []

variable {key}

/-- Pushing an element adds no other key than its own. -/
lemma fst_mem_pushGroup {k : κ} {a : α} {groups : List (κ × List α)} {p : κ × List α}
    (h : p ∈ pushGroup k a groups) : p.1 = k ∨ ∃ p' ∈ groups, p'.1 = p.1 := by
  induction groups with
  | nil =>
    obtain rfl := List.mem_singleton.1 h
    exact .inl rfl
  | cons p' groups ih =>
    obtain ⟨k', group⟩ := p'
    rw [pushGroup] at h
    split_ifs at h with heq hlt
    · rcases List.mem_cons.1 h with rfl | hmem
      · exact .inl heq.symm
      · exact .inr ⟨p, List.mem_cons_of_mem _ hmem, rfl⟩
    · rcases List.mem_cons.1 h with rfl | hmem
      · exact .inl rfl
      · exact .inr ⟨p, hmem, rfl⟩
    · rcases List.mem_cons.1 h with rfl | hmem
      · exact .inr ⟨_, List.mem_cons_self, rfl⟩
      · rcases ih hmem with hk | ⟨p', hp', hkey⟩
        · exact .inl hk
        · exact .inr ⟨p', List.mem_cons_of_mem _ hp', hkey⟩

/-- Pushing an element keeps the keys in order. -/
lemma pairwise_pushGroup (k : κ) (a : α) {groups : List (κ × List α)}
    (h : groups.Pairwise fun p p' => p.1 < p'.1) :
    (pushGroup k a groups).Pairwise fun p p' => p.1 < p'.1 := by
  induction groups with
  | nil => exact List.pairwise_singleton _ _
  | cons p groups ih =>
    obtain ⟨k', group⟩ := p
    obtain ⟨hfirst, hrest⟩ := List.pairwise_cons.1 h
    rw [pushGroup]
    split_ifs with heq hlt
    · exact List.pairwise_cons.2 ⟨hfirst, hrest⟩
    · refine List.pairwise_cons.2 ⟨fun p hp => ?_, h⟩
      rcases List.mem_cons.1 hp with rfl | hp
      · exact hlt
      · exact hlt.trans (hfirst p hp)
    · refine List.pairwise_cons.2 ⟨fun p hp => ?_, ih hrest⟩
      rcases fst_mem_pushGroup hp with hk | ⟨p', hp', hkey⟩
      · rw [hk]
        exact lt_of_le_of_ne (not_lt.1 hlt) (Ne.symm heq)
      · rw [← hkey]
        exact hfirst p' hp'

/-- Pushing an element changes the group of its key only. -/
lemma mem_pushGroup_of_ne {k k' : κ} {a : α} {groups : List (κ × List α)} {group : List α}
    (h : k' ≠ k) : (k', group) ∈ pushGroup k a groups ↔ (k', group) ∈ groups := by
  induction groups with
  | nil => simp [pushGroup, h]
  | cons p groups ih =>
    obtain ⟨k₀, group₀⟩ := p
    rw [pushGroup]
    split_ifs with heq hlt
    · subst heq
      simp [h]
    · simp [h]
    · rw [List.mem_cons, List.mem_cons, ih]

/-- The element comes last in the group of its key. -/
lemma mem_pushGroup_self {k : κ} {a : α} {groups : List (κ × List α)} {group : List α}
    (h : groups.Pairwise fun p p' => p.1 < p'.1) :
    (k, group) ∈ pushGroup k a groups ↔
      (∃ front, (k, front) ∈ groups ∧ group = front ++ [a]) ∨
        (∀ p ∈ groups, p.1 ≠ k) ∧ group = [a] := by
  induction groups with
  | nil => simp [pushGroup]
  | cons p groups ih =>
    obtain ⟨k', group'⟩ := p
    obtain ⟨hfirst, hrest⟩ := List.pairwise_cons.1 h
    have hnew : ∀ front, (k', front) ∈ groups → False := fun front hmem =>
      lt_irrefl k' (hfirst _ hmem)
    rw [pushGroup]
    split_ifs with heq hlt
    · subst heq
      have hnone : ∀ group'', (k, group'') ∉ groups := fun group'' hmem => hnew group'' hmem
      simp [hnone]
    · have hnone : ∀ group'', (k, group'') ∉ groups := fun group'' hmem =>
        lt_asymm hlt (hfirst _ hmem)
      have hother : ∀ p ∈ groups, p.1 ≠ k := fun p hp hk => hnone p.2 (hk ▸ hp)
      simp only [List.forall_mem_cons, List.mem_cons (a := (k, _)), Prod.mk.injEq, heq, false_and,
        false_or, hnone, or_false, exists_false, true_and]
      exact ⟨fun hgroup => ⟨⟨Ne.symm heq, hother⟩, hgroup⟩, And.right⟩
    · rw [List.mem_cons, ih hrest, List.forall_mem_cons]
      simp only [List.mem_cons, Prod.mk.injEq, heq, false_and, false_or]
      exact or_congr Iff.rfl (and_congr_left' ⟨fun hall => ⟨Ne.symm heq, hall⟩, And.right⟩)

variable (key)

/-- **The groups of a list**, in the order of their keys: of each key that occurs, the elements
with this key, in order.

**Proof sketch.** Induction on the list from its end. -/
theorem groupBy_spec (l : List α) :
    ((groupBy key l).Pairwise fun p p' => p.1 < p'.1) ∧
      ∀ k group, (k, group) ∈ groupBy key l ↔
        group = l.filter (fun a => key a = k) ∧ group ≠ [] := by
  induction l using List.reverseRecOn with
  | nil =>
    refine ⟨List.Pairwise.nil, fun k group => ?_⟩
    simp [groupBy]
  | append_singleton l a ih =>
    obtain ⟨hsorted, hmem⟩ := ih
    have hstep : groupBy key (l ++ [a]) = pushGroup (key a) a (groupBy key l) := by
      rw [groupBy, List.foldl_append]
      rfl
    rw [hstep]
    refine ⟨pairwise_pushGroup _ _ hsorted, fun k group => ?_⟩
    rw [List.filter_append]
    by_cases hk : k = key a
    · subst hk
      rw [mem_pushGroup_self hsorted]
      have hlast : [a].filter (fun b => key b = key a) = [a] := by simp
      rw [hlast]
      constructor
      · rintro (⟨front, hfront, rfl⟩ | ⟨hnone, rfl⟩)
        · rw [((hmem _ _).1 hfront).1]
          exact ⟨rfl, by simp⟩
        · have hempty : l.filter (fun b => key b = key a) = [] := by
            by_contra hne
            exact hnone _ ((hmem _ _).2 ⟨rfl, hne⟩) rfl
          rw [hempty]
          exact ⟨rfl, by simp⟩
      · rintro ⟨rfl, -⟩
        by_cases hempty : l.filter (fun b => key b = key a) = []
        · refine .inr ⟨fun p hp hpk => ?_, by rw [hempty, List.nil_append]⟩
          obtain ⟨hgroup, hne⟩ := (hmem p.1 p.2).1 hp
          rw [hpk] at hgroup
          exact hne (hgroup.trans hempty)
        · exact .inl ⟨_, (hmem _ _).2 ⟨rfl, hempty⟩, rfl⟩
    · have hlast : [a].filter (fun b => key b = k) = [] := by simp [Ne.symm hk]
      rw [mem_pushGroup_of_ne hk, hmem, hlast, List.append_nil]

/-! ## Alignment -/

section Alignment

variable {β γ : Type} {places : List κ} {marked : List (κ × γ)} {read : κ → Option β}
  {want : γ → β}

/-- Increasing marks that are all among the places are the marked ones of them. -/
lemma filter_mem_marked (hplaces : places.Pairwise (· < ·))
    (hmarked : (marked.map Prod.fst).Pairwise (· < ·)) (h : ∀ p ∈ marked, p.1 ∈ places) :
    (places.filter fun k => k ∈ marked.map Prod.fst) = marked.map Prod.fst := by
  refine (hplaces.filter _).eq_of_mem_iff hmarked fun k => ?_
  rw [List.mem_filter, decide_eq_true_iff]
  refine ⟨And.right, fun hk => ⟨?_, hk⟩⟩
  obtain ⟨p, hp, rfl⟩ := List.mem_map.1 hk
  exact h p hp

omit [LinearOrder κ] in
/-- As much is read at the marks as is wanted exactly when at each of them that is read. -/
lemma filterMap_marked_iff :
    (marked.map Prod.fst).filterMap read = marked.map (fun p => want p.2) ↔
      ∀ p ∈ marked, read p.1 = some (want p.2) := by
  induction marked with
  | nil => simp
  | cons p marked ih =>
    rw [List.map_cons, List.map_cons, List.forall_mem_cons, ← ih]
    cases hread : read p.1 with
    | none =>
      rw [List.filterMap_cons_none hread]
      refine iff_of_false (fun heq => ?_) fun h => by cases h.1
      have hlength := congrArg List.length heq
      have hle := List.length_filterMap_le read (marked.map Prod.fst)
      simp only [List.length_map, List.length_cons] at hlength hle
      omega
    | some b =>
      rw [List.filterMap_cons_some hread, List.cons.injEq, Option.some.injEq]

/-- **Reading at places and at marks.** Where nothing is read at the places that are not marked,
what is read is what is wanted of the marks exactly when each mark is a place at which that is
read. Where each mark is such a place, it is so exactly when nothing is read at the other places.

**Proof sketch.** What is read is counted: without the other places it is at most one thing for
each mark. -/
theorem filterMap_eq_map_iff (hplaces : places.Pairwise (· < ·))
    (hmarked : (marked.map Prod.fst).Pairwise (· < ·)) :
    ((∀ k ∈ places, k ∉ marked.map Prod.fst → read k = none) →
      (places.filterMap read = (marked.map fun p => want p.2) ↔
        ∀ p ∈ marked, p.1 ∈ places ∧ read p.1 = some (want p.2))) ∧
    ((∀ p ∈ marked, p.1 ∈ places ∧ read p.1 = some (want p.2)) →
      (places.filterMap read = (marked.map fun p => want p.2) ↔
        ∀ k ∈ places, k ∉ marked.map Prod.fst → read k = none)) := by
  have hothers : (∀ k ∈ places, k ∉ marked.map Prod.fst → read k = none) →
      places.filterMap read =
        (places.filter fun k => k ∈ marked.map Prod.fst).filterMap read := by
    intro h
    rw [List.filterMap_filter]
    refine List.filterMap_congr fun k hk => ?_
    by_cases hmem : k ∈ marked.map Prod.fst
    · simp [hmem]
    · simp [hmem, h k hk hmem]
  have henough : (∀ k ∈ places, k ∉ marked.map Prod.fst → read k = none) →
      (∀ p ∈ marked, p.1 ∈ places ∧ read p.1 = some (want p.2)) →
      places.filterMap read = marked.map fun p => want p.2 := by
    intro hnone hread
    rw [hothers hnone, filter_mem_marked hplaces hmarked fun p hp => (hread p hp).1]
    exact filterMap_marked_iff.2 fun p hp => (hread p hp).2
  refine ⟨fun hnone => ⟨fun heq => ?_, henough hnone⟩,
    fun hread => ⟨fun heq => ?_, fun hnone => henough hnone hread⟩⟩
  · have hsub : ((places.filter fun k => k ∈ marked.map Prod.fst)).Sublist
        (marked.map Prod.fst) := by
      refine List.sublist_of_subperm_of_pairwise ?_ (hplaces.filter _) hmarked
      refine List.subperm_of_subset ((hplaces.filter _).nodup) fun k hk => ?_
      simpa using (List.mem_filter.1 hk).2
    rw [hothers hnone] at heq
    have hsame : (places.filter fun k => k ∈ marked.map Prod.fst) = marked.map Prod.fst := by
      refine hsub.eq_of_length_le ?_
      have hle := List.length_filterMap_le read
        (places.filter fun k => k ∈ marked.map Prod.fst)
      rw [heq, List.length_map] at hle
      rwa [List.length_map]
    rw [hsame] at heq
    intro p hp
    have hmem : p.1 ∈ places.filter fun k => k ∈ marked.map Prod.fst := by
      rw [hsame]
      exact List.mem_map_of_mem hp
    exact ⟨(List.mem_filter.1 hmem).1, filterMap_marked_iff.1 heq p hp⟩
  · have hkept := filter_mem_marked hplaces hmarked fun p hp => (hread p hp).1
    have hall := filterMap_marked_iff.2 fun p hp => (hread p hp).2
    have hcount := List.countP_eq_countP_filter_add places (fun k => (read k).isSome)
      fun k => k ∈ marked.map Prod.fst
    rw [hkept, ← List.length_filterMap_eq_countP, ← List.length_filterMap_eq_countP, heq, hall,
      Nat.left_eq_add, List.countP_eq_zero] at hcount
    intro k hk hother
    simpa using hcount k (List.mem_filter.2 ⟨hk, by simpa using hother⟩)

end Alignment

end Sorting
