import Mathlib.Data.List.Basic

set_option relaxedAutoImplicit false
set_option autoImplicit false

/-!
# Sequences of writes

A list of pairs of a field and a value, written in order: for every field the last write counts.

## Main definitions

* `Writes.last` — the value of the last write to a field.

## Main results

* `Writes.last_append`, `Writes.last_eq_some_iff` — the last write of a sequence.
* `Writes.last_filterMap_eq_some_iff` — the same where only some elements of a list write.
* `Writes.get_foldl` — what a record holds after a sequence of writes.
-/

namespace Writes

variable {F V : Type} [DecidableEq F]

/-- The value of the last write to a field. -/
def last (field : F) : List (F × V) → Option V
  | [] => none
  | (f, v) :: writes => (last field writes).or (if f = field then some v else none)

/-- Nothing has been written. -/
@[simp] lemma last_nil (field : F) : last field ([] : List (F × V)) = none := rfl

/-- A later write wins over an earlier one. -/
lemma last_cons (field f : F) (v : V) (writes : List (F × V)) :
    last field ((f, v) :: writes) =
      (last field writes).or (if f = field then some v else none) := rfl

/-- Later writes come before earlier ones. -/
theorem last_append (field : F) (writes writes' : List (F × V)) :
    last field (writes ++ writes') = (last field writes').or (last field writes) := by
  induction writes with
  | nil => simp
  | cons w writes ih =>
    obtain ⟨f, v⟩ := w
    rw [List.cons_append, last_cons, last_cons, ih, Option.or_assoc]

/-- Nothing is written to a field that no write names. -/
lemma last_eq_none_iff {field : F} {writes : List (F × V)} :
    last field writes = none ↔ ∀ w ∈ writes, w.1 ≠ field := by
  induction writes with
  | nil => simp
  | cons w writes ih =>
    obtain ⟨f, v⟩ := w
    rw [last_cons, Option.or_eq_none_iff, ih, List.forall_mem_cons]
    by_cases h : f = field
    · simp [h]
    · simp [h]

/-- The last write to a field is followed by writes to other fields only. -/
theorem last_eq_some_iff {field : F} {value : V} {writes : List (F × V)} :
    last field writes = some value ↔
      ∃ before after, writes = before ++ (field, value) :: after ∧ ∀ w ∈ after, w.1 ≠ field := by
  constructor
  · intro h
    induction writes with
    | nil => cases h
    | cons w writes ih =>
      obtain ⟨f, v⟩ := w
      rw [last_cons] at h
      cases hlast : last field writes with
      | some v' =>
        rw [hlast, Option.some_or, Option.some.injEq] at h
        obtain ⟨before, after, rfl, hafter⟩ := ih (by rw [hlast, h])
        exact ⟨(f, v) :: before, after, rfl, hafter⟩
      | none =>
        rw [hlast, Option.none_or] at h
        split_ifs at h with hf
        obtain rfl := Option.some.inj h
        exact ⟨[], writes, by rw [hf]; rfl, last_eq_none_iff.1 hlast⟩
  · intro h
    obtain ⟨before, after, rfl, hafter⟩ := h
    rw [last_append, last_cons, last_eq_none_iff.2 hafter, if_pos rfl]
    rfl

/-- The last write of a list in which some elements write: the elements behind the one that made
it write to other fields, or not at all. -/
theorem last_filterMap_eq_some_iff {α : Type} {write : α → Option (F × V)} {field : F} {value : V}
    {l : List α} :
    last field (l.filterMap write) = some value ↔
      ∃ before x after, l = before ++ x :: after ∧ write x = some (field, value) ∧
        ∀ y ∈ after, ∀ w, write y = some w → w.1 ≠ field := by
  rw [last_eq_some_iff]
  constructor
  · rintro ⟨writes, later, hsplit, hlater⟩
    obtain ⟨front, back, rfl, -, hback⟩ := List.filterMap_eq_append_iff.1 hsplit
    obtain ⟨skipped, x, after, rfl, -, hx, hafter⟩ := List.filterMap_eq_cons_iff.1 hback
    refine ⟨front ++ skipped, x, after, by rw [List.append_assoc], hx, fun y hy w hw => ?_⟩
    apply hlater
    rw [← hafter]
    exact List.mem_filterMap.2 ⟨y, hy, hw⟩
  · rintro ⟨before, x, after, rfl, hx, hafter⟩
    refine ⟨before.filterMap write, after.filterMap write, ?_, fun w hw => ?_⟩
    · rw [List.filterMap_append, List.filterMap_cons_some hx]
    · obtain ⟨y, hy, hwrite⟩ := List.mem_filterMap.1 hw
      exact hafter y hy w hwrite

/-- **What a record holds after a sequence of writes**: at every field the value of the last
write to it, and what it held before where there is none.

**Proof sketch.** By induction on the writes; the first one is seen through the others at its own
field, and not at all at the other fields. -/
theorem get_foldl {P W : Type} (set : P → F → V → P) (get : P → F → W) (read : F → V → W)
    (hsame : ∀ p f v, get (set p f v) f = read f v)
    (hother : ∀ p f g v, f ≠ g → get (set p f v) g = get p g) (writes : List (F × V)) (p : P)
    (field : F) :
    get (writes.foldl (fun p w => set p w.1 w.2) p) field =
      ((last field writes).map (read field)).getD (get p field) := by
  induction writes generalizing p with
  | nil => rfl
  | cons w writes ih =>
    obtain ⟨f, v⟩ := w
    rw [List.foldl_cons, ih, last_cons]
    cases last field writes with
    | some v' => rfl
    | none =>
      by_cases h : f = field
      · subst h
        simp [hsame]
      · simp [h, hother p f field v h]

/-- The last element of a list with a property. -/
theorem exists_last {α : Type} {p : α → Prop} {l : List α} (h : ∃ x ∈ l, p x) :
    ∃ before x after, l = before ++ x :: after ∧ p x ∧ ∀ y ∈ after, ¬ p y := by
  induction l with
  | nil =>
    obtain ⟨x, hx, -⟩ := h
    cases hx
  | cons a l ih =>
    by_cases hl : ∃ x ∈ l, p x
    · obtain ⟨before, x, after, rfl, hx, hafter⟩ := ih hl
      exact ⟨a :: before, x, after, rfl, hx, hafter⟩
    · obtain ⟨x, hx, hpx⟩ := h
      have ha : x = a := by
        rcases List.mem_cons.1 hx with rfl | hmem
        · rfl
        · exact absurd ⟨x, hmem, hpx⟩ hl
      subst ha
      exact ⟨[], x, l, rfl, hpx, fun y hy hpy => hl ⟨y, hy, hpy⟩⟩

end Writes
