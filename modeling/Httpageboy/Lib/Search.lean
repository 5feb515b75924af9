import Mathlib.Data.List.Basic
import Mathlib.Data.List.Infix
import Mathlib.Data.Nat.Notation
import Mathlib.Tactic.Common

set_option relaxedAutoImplicit false
set_option autoImplicit false

/-!
# First occurrence of a pattern

The first position of a pattern in a list, what it says about the list, and how it behaves
when the list is extended on the right: a position found in a prefix stays, and a position
that appears only after an extension overlaps the extension.

## Main definitions

* `Search.position` — the first index at which a pattern occurs.
* `Search.cut` — the text in front of the first occurrence of a pattern, and behind it.
* `Search.unlines` — lines, each followed by a two-letter terminator.
* `Search.splitPair` — the pieces between the occurrences of a two-letter separator.
* `Search.Paired` — the two letters of a separator occur as the separator only.

## Main results

* `Search.position_eq_some_iff` — the first occurrence, as a split of the list.
* `Search.position_append`, `Search.length_lt_of_position_append` — extension on the right.
* `Search.position_blank_line` — the first blank line of a block of nonblank lines is the
  one that ends it.
* `Search.unlines_splitPair` — splitting loses nothing.
* `Search.paired_unlines`, `Search.eq_nil_of_blank_line` — in a block of lines the letters of the
  terminator occur in terminators only, and the blank line at its end is its only one.
-/

namespace Search

variable {α : Type} [DecidableEq α]

/-- The first index at which `pat` occurs in the list. -/
def position (pat : List α) : List α → Option ℕ
  | [] => if pat = [] then some 0 else none
  | a :: l => if pat <+: a :: l then some 0 else (position pat l).map (· + 1)

/-- A pattern in front is found there. -/
lemma position_eq_zero {pat l : List α} (h : pat <+: l) : position pat l = some 0 := by
  cases l with
  | nil => simp [position, List.prefix_nil.1 h]
  | cons a l => simp [position, h]

/-- A pattern that is not in front is found in the rest. -/
lemma position_cons {pat l : List α} {a : α} (h : ¬ pat <+: a :: l) :
    position pat (a :: l) = (position pat l).map (· + 1) := by
  simp [position, h]

/-- An occurrence splits the list around the pattern. -/
lemma exists_of_position {pat l : List α} {i : ℕ} (h : position pat l = some i) :
    ∃ u v, l = u ++ pat ++ v ∧ u.length = i := by
  induction l generalizing i with
  | nil =>
    simp only [position] at h
    split_ifs at h with hp
    exact ⟨[], [], by simp [hp], by simpa using h⟩
  | cons a l ih =>
    by_cases hp : pat <+: a :: l
    · rw [position_eq_zero hp] at h
      obtain ⟨v, hv⟩ := hp
      exact ⟨[], v, by simp [hv], by simpa using h⟩
    · rw [position_cons hp] at h
      obtain ⟨j, hj, rfl⟩ := Option.map_eq_some_iff.1 h
      obtain ⟨u, v, rfl, rfl⟩ := ih hj
      exact ⟨a :: u, v, by simp, by simp⟩

/-- Where a pattern is found there is room for it. -/
lemma length_of_position {pat l : List α} {i : ℕ} (h : position pat l = some i) :
    i + pat.length ≤ l.length := by
  obtain ⟨u, v, rfl, rfl⟩ := exists_of_position h
  simp only [List.length_append]
  omega

/-- A pattern that occurs at all has a first occurrence, no later than the given one. -/
lemma exists_position_le (pat u v : List α) :
    ∃ i ≤ u.length, position pat (u ++ pat ++ v) = some i := by
  induction u with
  | nil => exact ⟨0, le_rfl, position_eq_zero ⟨v, by simp⟩⟩
  | cons a u ih =>
    obtain ⟨i, hi, hpos⟩ := ih
    by_cases hp : pat <+: a :: (u ++ pat ++ v)
    · exact ⟨0, Nat.zero_le _, position_eq_zero hp⟩
    · refine ⟨i + 1, by simpa using hi, ?_⟩
      rw [List.cons_append, List.cons_append, position_cons hp, hpos]
      rfl

/-- The first occurrence, as a split of the list with no earlier one. -/
theorem position_eq_some_iff {pat l : List α} {i : ℕ} :
    position pat l = some i ↔
      (∃ u v, l = u ++ pat ++ v ∧ u.length = i) ∧
        ∀ u v, l = u ++ pat ++ v → i ≤ u.length := by
  constructor
  · intro h
    refine ⟨exists_of_position h, ?_⟩
    rintro u v rfl
    obtain ⟨j, hj, hpos⟩ := exists_position_le pat u v
    rw [h] at hpos
    obtain rfl : i = j := by simpa using hpos
    exact hj
  · rintro ⟨⟨u, v, rfl, rfl⟩, hmin⟩
    obtain ⟨j, hj, hpos⟩ := exists_position_le pat u v
    obtain ⟨u', v', huv, rfl⟩ := exists_of_position hpos
    have := hmin u' v' huv
    rw [hpos]
    exact congrArg some (by omega)

/-- A pattern is not found exactly when it does not occur. -/
lemma position_eq_none_iff {pat l : List α} : position pat l = none ↔ ¬ pat <:+: l := by
  constructor
  · rintro h ⟨u, v, rfl⟩
    obtain ⟨i, -, hpos⟩ := exists_position_le pat u v
    rw [h] at hpos
    cases hpos
  · intro h
    rw [Option.eq_none_iff_forall_ne_some]
    intro i hi
    obtain ⟨u, v, rfl, -⟩ := exists_of_position hi
    exact h ⟨u, v, rfl⟩

/-- A position found in a prefix is the position in every extension. -/
theorem position_append {pat l : List α} {i : ℕ} (h : position pat l = some i) (t : List α) :
    position pat (l ++ t) = some i := by
  obtain ⟨⟨u, v, rfl, rfl⟩, hmin⟩ := position_eq_some_iff.1 h
  refine position_eq_some_iff.2 ⟨⟨u, v ++ t, by simp, rfl⟩, ?_⟩
  intro u' v' huv
  by_contra hlt
  -- an earlier occurrence ends inside the prefix, so it was there before
  have hpre : u' ++ pat <+: u ++ pat ++ v := by
    have hleft : u' ++ pat <+: u ++ pat ++ v ++ t := ⟨v', by rw [huv]⟩
    refine List.prefix_of_prefix_length_le hleft (List.prefix_append _ _) ?_
    simp only [List.length_append]
    omega
  obtain ⟨w, hw⟩ := hpre
  exact hlt (hmin u' w (by rw [hw]))

/-- An occurrence that only appears when the list is extended overlaps the extension. -/
theorem length_lt_of_position_append {pat l t : List α} {i : ℕ} (h : position pat l = none)
    (h' : position pat (l ++ t) = some i) : l.length < i + pat.length := by
  by_contra hle
  obtain ⟨u, v, huv, rfl⟩ := exists_of_position h'
  have hpre : u ++ pat <+: l := by
    have hleft : u ++ pat <+: l ++ t := ⟨v, by rw [huv]⟩
    refine List.prefix_of_prefix_length_le hleft (List.prefix_append _ _) ?_
    simp only [List.length_append]
    omega
  obtain ⟨w, rfl⟩ := hpre
  exact (position_eq_none_iff.1 h) ⟨u, w, rfl⟩

/-- The first occurrence is decided by the list up to its end: replacing everything after it
keeps it. -/
lemma position_replace {pat u v : List α} (h : position pat (u ++ pat ++ v) = some u.length)
    (w : List α) : position pat (u ++ pat ++ w) = some u.length := by
  have htake : position pat (u ++ pat) = some u.length := by
    refine position_eq_some_iff.2 ⟨⟨u, [], by simp, rfl⟩, ?_⟩
    intro u' v' huv
    exact (position_eq_some_iff.1 h).2 u' (v' ++ v) (by rw [huv]; simp)
  exact position_append htake w

/-- Text without the first letter of the pattern is skipped. -/
lemma position_skip {a : α} {pat u : List α} (h : a ∉ u) (v : List α) :
    position (a :: pat) (u ++ v) = (position (a :: pat) v).map (· + u.length) := by
  induction u with
  | nil => simp
  | cons b u ih =>
    have hb : a ≠ b := fun e => h (by simp [e])
    have hu : a ∉ u := fun e => h (by simp [e])
    rw [List.cons_append, position_cons (by simp [hb]), ih hu, Option.map_map]
    rfl

/-- Text without the first letter of the pattern, then the pattern. -/
lemma position_of_notMem {a : α} {pat u : List α} (h : a ∉ u) (v : List α) :
    position (a :: pat) (u ++ (a :: pat) ++ v) = some u.length := by
  rw [List.append_assoc, position_skip h, position_eq_zero (List.prefix_append _ _)]
  simp

/-- The text in front of the first occurrence of a pattern, and the text behind it. -/
def cut (pat l : List α) : Option (List α × List α) :=
  (position pat l).map fun i => (l.take i, l.drop (i + pat.length))

/-- `cut` splits the list at the first occurrence. -/
theorem cut_eq_some_iff {pat l u v : List α} :
    cut pat l = some (u, v) ↔
      l = u ++ pat ++ v ∧ ∀ u' v', l = u' ++ pat ++ v' → u.length ≤ u'.length := by
  unfold cut
  rw [Option.map_eq_some_iff]
  constructor
  · rintro ⟨i, hi, hsplit⟩
    obtain ⟨⟨u', v', rfl, rfl⟩, hmin⟩ := position_eq_some_iff.1 hi
    obtain ⟨rfl, rfl⟩ := Prod.mk.inj hsplit
    have htake : (u' ++ pat ++ v').take u'.length = u' := by
      rw [List.append_assoc, List.take_left]
    have hdrop : (u' ++ pat ++ v').drop (u'.length + pat.length) = v' := by
      rw [← List.length_append, List.drop_left]
    rw [htake, hdrop]
    exact ⟨rfl, hmin⟩
  · rintro ⟨rfl, hmin⟩
    refine ⟨u.length, position_eq_some_iff.2 ⟨⟨u, v, rfl, rfl⟩, hmin⟩, ?_⟩
    rw [← List.length_append, List.drop_left, List.append_assoc, List.take_left]

/-- The first occurrence stays the first one when the text goes on. -/
lemma cut_append {pat l u v : List α} (h : cut pat l = some (u, v)) (t : List α) :
    cut pat (l ++ t) = some (u, v ++ t) := by
  obtain ⟨i, hi, -⟩ := Option.map_eq_some_iff.1 h
  obtain ⟨rfl, hmin⟩ := cut_eq_some_iff.1 h
  have hlength : i = u.length := by
    obtain ⟨⟨u', v', heq, rfl⟩, hfirst⟩ := position_eq_some_iff.1 hi
    exact le_antisymm (hfirst u v rfl) (hmin u' v' heq)
  obtain ⟨-, hfirst⟩ := position_eq_some_iff.1 (position_append hi t)
  refine cut_eq_some_iff.2 ⟨by simp, fun u' v' heq => ?_⟩
  rw [← hlength]
  exact hfirst u' v' heq

/-- There is no occurrence in front of the first one. -/
lemma not_infix_of_cut {pat l u v : List α} (hpat : pat ≠ []) (h : cut pat l = some (u, v)) :
    ¬ pat <:+: u := by
  obtain ⟨rfl, hmin⟩ := cut_eq_some_iff.1 h
  rintro ⟨a, b, rfl⟩
  have hle := hmin a (b ++ pat ++ v) (by simp)
  have hpos := List.length_pos_iff.2 hpat
  rw [List.length_append, List.length_append] at hle
  omega

/-- There is no cut exactly when the pattern does not occur. -/
lemma cut_eq_none_iff {pat l : List α} : cut pat l = none ↔ ¬ pat <:+: l := by
  unfold cut
  rw [Option.map_eq_none_iff, position_eq_none_iff]

omit [DecidableEq α] in
/-- Across a letter that the pattern does not have there is no occurrence. -/
lemma prefix_append_cons {c : α} {pat u x : List α} (hc : c ∉ pat) (h : pat <+: u ++ c :: x) :
    pat <+: u := by
  obtain ⟨rest, hrest⟩ := h
  rcases List.append_eq_append_iff.1 hrest with ⟨as, hu, -⟩ | ⟨bs, hpat, hcons⟩
  · exact ⟨as, hu.symm⟩
  · cases bs with
    | nil => exact ⟨[], by rw [hpat]; simp⟩
    | cons b bs =>
      obtain ⟨rfl, -⟩ := List.cons.inj hcons
      exact absurd (by rw [hpat]; simp) hc

/-- Text without the pattern is skipped up to a letter that the pattern does not have. -/
lemma position_append_cons {c : α} {pat u : List α} (hc : c ∉ pat) (h : ¬ pat <:+: u)
    (x : List α) :
    position pat (u ++ c :: x) = (position pat x).map (· + (u.length + 1)) := by
  induction u with
  | nil =>
    have hstart : ¬ pat <+: c :: x := fun hpre => h (prefix_append_cons (u := []) hc hpre).isInfix
    rw [List.nil_append, position_cons hstart]
    simp
  | cons b u ih =>
    have hstart : ¬ pat <+: b :: (u ++ c :: x) := fun hpre =>
      h (prefix_append_cons (u := b :: u) hc hpre).isInfix
    have hrest : ¬ pat <:+: u := fun hin => h (hin.trans (List.suffix_cons b u).isInfix)
    rw [List.cons_append, position_cons hstart, ih hrest, Option.map_map]
    rfl

/-- A character that is not in the pattern separates the search in front of it from the one behind
it. -/
lemma cut_append_cons {c : α} {pat u : List α} (hc : c ∉ pat) (h : ¬ pat <:+: u) (x : List α) :
    cut pat (u ++ c :: x) = (cut pat x).map fun p => (u ++ c :: p.1, p.2) := by
  unfold cut
  rw [position_append_cons hc h, Option.map_map, Option.map_map]
  congr 1
  funext i
  have htake : (u ++ c :: x).take (i + (u.length + 1)) = u ++ c :: x.take i := by
    have hi : i + (u.length + 1) - u.length = i + 1 := by omega
    rw [List.take_append, List.take_of_length_le (by omega), hi, List.take_succ_cons]
  have hdrop : (u ++ c :: x).drop (i + (u.length + 1) + pat.length) = x.drop (i + pat.length) := by
    have hi : i + (u.length + 1) + pat.length - u.length = i + pat.length + 1 := by omega
    rw [List.drop_append, List.drop_of_length_le (by omega), hi, List.drop_succ_cons,
      List.nil_append]
  exact Prod.ext htake hdrop

/-- A text that goes on behind such a letter has the pattern in front of it or behind it. -/
lemma infix_append_cons_iff {c : α} {pat u : List α} (hc : c ∉ pat) (x : List α) :
    pat <:+: u ++ c :: x ↔ pat <:+: u ∨ pat <:+: x := by
  by_cases h : pat <:+: u
  · exact iff_of_true (h.trans (List.prefix_append _ _).isInfix) (.inl h)
  · rw [or_iff_right h, ← not_iff_not, ← position_eq_none_iff, ← position_eq_none_iff,
      position_append_cons hc h, Option.map_eq_none_iff]

/-- The first occurrence of a pattern whose first letter occurs in it once is the one behind a text
without the pattern. -/
lemma cut_first {a : α} {pat u : List α} (ha : a ∉ pat) (h : ¬ (a :: pat) <:+: u) (v : List α) :
    cut (a :: pat) (u ++ (a :: pat) ++ v) = some (u, v) := by
  refine cut_eq_some_iff.2 ⟨rfl, fun u' v' heq => ?_⟩
  by_contra hlt
  rw [List.append_assoc, List.append_assoc] at heq
  rcases List.append_eq_append_iff.1 heq with ⟨as, rfl, -⟩ | ⟨bs, rfl, hbehind⟩
  · simp at hlt
  · rcases List.append_eq_append_iff.1 hbehind with ⟨as, rfl, -⟩ | ⟨cs, hpat, hcs⟩
    · exact h ⟨u', as, by simp⟩
    · cases bs with
      | nil => simp at hlt
      | cons b bs =>
        obtain ⟨rfl, rfl⟩ := List.cons.inj hpat
        cases cs with
        | nil => exact h ⟨u', [], by simp⟩
        | cons c cs =>
          obtain ⟨rfl, -⟩ := List.cons.inj hcs
          exact ha (by simp)

/-- A single letter: the text in front of its first occurrence does not contain it. -/
lemma cut_singleton_eq_some_iff {c : α} {l u v : List α} :
    cut [c] l = some (u, v) ↔ l = u ++ c :: v ∧ c ∉ u := by
  rw [cut_eq_some_iff, List.append_assoc, List.singleton_append]
  refine and_congr_right fun hl => ⟨fun hmin hmem => ?_, fun hnot u' v' hl' => ?_⟩
  · obtain ⟨a, b, rfl⟩ := List.append_of_mem hmem
    have hle := hmin a (b ++ c :: v) (by rw [hl]; simp)
    rw [List.length_append, List.length_cons] at hle
    omega
  · by_contra hlt
    rw [hl, List.append_assoc, List.singleton_append] at hl'
    rcases List.append_eq_append_iff.1 hl' with ⟨as, rfl, -⟩ | ⟨bs, rfl, hbs⟩
    · simp at hlt
    · cases bs with
      | nil => simp at hlt
      | cons b bs =>
        obtain ⟨rfl, -⟩ := List.cons.inj hbs
        simp at hnot

/-- The position of a single letter is the length of the text in front of it. -/
lemma position_singleton_eq_some {c : α} {u : List α} (h : c ∉ u) (v : List α) :
    position [c] (u ++ c :: v) = some u.length := by
  have hfirst : position [c] (u ++ [c] ++ v) = some u.length := position_of_notMem h v
  rwa [List.append_assoc, List.singleton_append] at hfirst

/-! ## Lines -/

/-- The lines, each followed by the terminator `a b`. -/
def unlines (a b : α) (ls : List (List α)) : List α :=
  ls.flatMap (· ++ [a, b])

omit [DecidableEq α] in
/-- No lines, no text. -/
@[simp] lemma unlines_nil (a b : α) : unlines a b [] = [] := rfl

omit [DecidableEq α] in
/-- The first line, with its ending, and the others. -/
@[simp] lemma unlines_cons (a b : α) (l : List α) (ls : List (List α)) :
    unlines a b (l :: ls) = l ++ [a, b] ++ unlines a b ls := rfl

/-- After a terminated line, a block of nonblank lines without the letter `a` and one more
terminator, the first doubled terminator is the one that ends the block.

**Proof sketch.** Induction on the lines. The doubled terminator cannot start inside a line,
which has no `a`, nor at a terminator, which is followed by the first letter of a line. -/
theorem position_blank_line {a b : α} (hab : a ≠ b) (l : List α) (ls : List (List α))
    (hl : a ∉ l) (hls : ∀ m ∈ ls, a ∉ m ∧ m ≠ []) (v : List α) :
    position [a, b, a, b] (unlines a b (l :: ls) ++ [a, b] ++ v) =
      some ((unlines a b (l :: ls)).length - 2) := by
  induction ls generalizing l with
  | nil =>
    simpa using @position_of_notMem _ _ a [b, a, b] l hl v
  | cons m ls ih =>
    obtain ⟨hm, hne⟩ := hls m (by simp)
    have hrec := ih m hm fun m' hm' => hls m' (by simp [hm'])
    obtain ⟨c, m, rfl⟩ := List.exists_cons_of_ne_nil hne
    have hac : a ≠ c := fun e => hm (by simp [e])
    have hsplit : unlines a b (l :: (c :: m) :: ls) ++ [a, b] ++ v =
        l ++ (a :: b :: (unlines a b ((c :: m) :: ls) ++ [a, b] ++ v)) := by simp
    have hlong : 2 ≤ (unlines a b ((c :: m) :: ls)).length := by simp; omega
    rw [hsplit, position_skip hl, position_cons (by simp [hac]), position_cons (by simp [hab]),
      hrec]
    simp only [Option.map_some, Option.some.injEq]
    simp only [unlines_cons, List.length_append, List.length_cons, List.length_nil] at hlong ⊢
    omega

/-! ## Splitting at a two-letter separator -/

/-- Split at every occurrence of the separator `a b`, left to right. The separators are not in
the result. -/
def splitPair (a b : α) : List α → List (List α)
  | [] => [[]]
  | [c] => [[c]]
  | c :: d :: l =>
    if c = a ∧ d = b then [] :: splitPair a b l else (splitPair a b (d :: l)).modifyHead (c :: ·)

/-- There is one line at least. -/
lemma splitPair_ne_nil (a b : α) (l : List α) : splitPair a b l ≠ [] := by
  fun_induction splitPair a b l <;> simp_all

/-- Terminating the pieces gives back the list and one terminator. -/
theorem unlines_splitPair (a b : α) (l : List α) :
    unlines a b (splitPair a b l) = l ++ [a, b] := by
  fun_induction splitPair a b l with
  | case1 => rfl
  | case2 c => rfl
  | case3 c d l h ih =>
    obtain ⟨rfl, rfl⟩ := h
    simp [ih]
  | case4 c d l h ih =>
    obtain ⟨p, ps, hp⟩ := List.exists_cons_of_ne_nil (splitPair_ne_nil a b (d :: l))
    rw [hp] at ih ⊢
    simpa using ih

/-- Text without the first letter of the separator is one piece. -/
lemma splitPair_of_notMem {a b : α} {l : List α} (h : a ∉ l) : splitPair a b l = [l] := by
  fun_induction splitPair a b l with
  | case1 => rfl
  | case2 c => rfl
  | case3 c d l hcd ih => simp [hcd.1] at h
  | case4 c d l hcd ih =>
    rw [ih fun e => h (List.mem_cons_of_mem _ e)]
    rfl

/-- A piece without the first letter of the separator, then the separator. -/
lemma splitPair_append {a b : α} (hab : a ≠ b) {l : List α} (h : a ∉ l) (r : List α) :
    splitPair a b (l ++ a :: b :: r) = l :: splitPair a b r := by
  induction l with
  | nil => simp [splitPair]
  | cons c l ih =>
    have hc : c ≠ a := fun e => h (by simp [e])
    have hrec := ih fun e => h (List.mem_cons_of_mem _ e)
    cases l with
    | nil => simp_all [splitPair]
    | cons d l =>
      simp only [List.cons_append] at hrec ⊢
      rw [splitPair, if_neg fun e => hc e.1, hrec]
      rfl

/-- A nonempty first piece starts with the first letter. -/
lemma head_of_splitPair {a b d e : α} {l p : List α} {ps : List (List α)}
    (h : splitPair a b (d :: l) = (e :: p) :: ps) : e = d := by
  cases l with
  | nil =>
    cases h
    rfl
  | cons f l =>
    rw [splitPair] at h
    by_cases hsep : d = a ∧ f = b
    · rw [if_pos hsep] at h
      cases h
    · rw [if_neg hsep] at h
      obtain ⟨q, qs, hq⟩ := List.exists_cons_of_ne_nil (splitPair_ne_nil a b (f :: l))
      rw [hq] at h
      simp only [List.modifyHead_cons, List.cons.injEq] at h
      exact h.1.1.symm

/-- No piece contains the separator. -/
theorem not_infix_of_mem_splitPair {a b : α} {l p : List α} (h : p ∈ splitPair a b l) :
    ¬ [a, b] <:+: p := by
  fun_induction splitPair a b l generalizing p with
  | case1 =>
    rw [List.mem_singleton] at h
    simp [h]
  | case2 c =>
    rw [List.mem_singleton] at h
    intro hinfix
    have hlen := hinfix.length_le
    rw [h] at hlen
    simp at hlen
  | case3 c d l hsep ih =>
    rcases List.mem_cons.1 h with rfl | h
    · simp
    · exact ih h
  | case4 c d l hsep ih =>
    obtain ⟨q, qs, hq⟩ := List.exists_cons_of_ne_nil (splitPair_ne_nil a b (d :: l))
    rw [hq] at h ih
    rw [List.modifyHead_cons] at h
    rcases List.mem_cons.1 h with rfl | h
    · intro hinfix
      rcases List.infix_cons_iff.1 hinfix with hfirst | hlater
      · -- the separator would start at `c`, so the piece behind it starts with `b = d`
        obtain ⟨hac, r, hr⟩ := List.cons_prefix_cons.1 hfirst
        rw [← hr] at hq
        exact hsep ⟨hac.symm, (head_of_splitPair hq).symm⟩
      · exact ih List.mem_cons_self hlater
    · exact ih (List.mem_cons_of_mem _ h)

/-- The lines with the separator between them. -/
def joinPair (a b : α) (l : List α) (ls : List (List α)) : List α :=
  l ++ ls.flatMap ([a, b] ++ ·)

omit [DecidableEq α] in
/-- Joined lines with an ending behind them are lines with endings. -/
lemma joinPair_append (a b : α) (l : List α) (ls : List (List α)) :
    joinPair a b l ls ++ [a, b] = unlines a b (l :: ls) := by
  induction ls generalizing l with
  | nil => simp [joinPair]
  | cons m ls ih =>
    have hjoin : joinPair a b l (m :: ls) = l ++ [a, b] ++ joinPair a b m ls := by
      simp [joinPair]
    rw [hjoin, List.append_assoc, ih]
    rfl

/-- Joining and splitting lines. -/
lemma splitPair_joinPair {a b : α} (hab : a ≠ b) {l : List α} {ls : List (List α)}
    (hl : a ∉ l) (hls : ∀ m ∈ ls, a ∉ m) : splitPair a b (joinPair a b l ls) = l :: ls := by
  induction ls generalizing l with
  | nil => simpa [joinPair] using splitPair_of_notMem hl
  | cons m ls ih =>
    have hjoin : joinPair a b l (m :: ls) = l ++ a :: b :: joinPair a b m ls := by
      simp [joinPair]
    rw [hjoin, splitPair_append hab hl,
      ih (hls m List.mem_cons_self) fun k hk => hls k (List.mem_cons_of_mem _ hk)]

/-- An empty piece after the first one is a doubled separator. -/
theorem exists_of_nil_mem_splitPair {a b : α} {l p : List α} {ps : List (List α)}
    (h : splitPair a b l = p :: ps) (hnil : [] ∈ ps) :
    ∃ u v, l ++ [a, b] = u ++ [a, b, a, b] ++ v := by
  obtain ⟨qs, rs, rfl⟩ := List.append_of_mem hnil
  have hl := unlines_splitPair a b l
  rw [h] at hl
  obtain ⟨ms, m, hms⟩ : ∃ ms m, p :: qs = ms ++ [m] :=
    ⟨_, _, (List.dropLast_append_getLast (List.cons_ne_nil p qs)).symm⟩
  refine ⟨unlines a b ms ++ m, unlines a b rs, ?_⟩
  rw [← hl, ← List.cons_append, hms]
  simp [unlines]

/-- Splitting terminated lines gives the lines back, and what is behind the last terminator. -/
lemma splitPair_unlines {a b : α} (hab : a ≠ b) {ls : List (List α)} (hls : ∀ m ∈ ls, a ∉ m) :
    splitPair a b (unlines a b ls) = ls ++ [[]] := by
  induction ls with
  | nil => rfl
  | cons m ls ih =>
    obtain ⟨hm, hrest⟩ := List.forall_mem_cons.1 hls
    have hsplit : unlines a b (m :: ls) = m ++ a :: b :: unlines a b ls := by simp
    rw [hsplit, splitPair_append hab hm, ih hrest]
    rfl

/-! ## Letters of the separator -/

/-- Every `a` is followed by a `b`, and every `b` follows an `a`. -/
structure Paired (a b : α) (l : List α) : Prop where
  follows : ∀ u v, l = u ++ a :: v → v.head? = some b
  precedes : ∀ u v, l = u ++ b :: v → u.getLast? = some a

omit [DecidableEq α] in
/-- Terminated lines without the two letters have them in the terminators only.

**Proof sketch.** Induction on the lines. A letter `a` or `b` is not in the first line, so it is
the `a` or the `b` of its terminator, or it comes later. -/
theorem paired_unlines {a b : α} (hab : a ≠ b) {ls : List (List α)}
    (hls : ∀ m ∈ ls, a ∉ m ∧ b ∉ m) : Paired a b (unlines a b ls) := by
  induction ls with
  | nil =>
    refine ⟨fun u v h => ?_, fun u v h => ?_⟩
    · cases u <;> cases h
    · cases u <;> cases h
  | cons m ls ih =>
    obtain ⟨⟨ham, hbm⟩, hrest⟩ := List.forall_mem_cons.1 hls
    have hsplit : unlines a b (m :: ls) = m ++ a :: b :: unlines a b ls := by simp
    -- where a split of the block lies, relative to the first terminator
    have hcut : ∀ (u v : List α) (c : α), c ∉ m → m ++ a :: b :: unlines a b ls = u ++ c :: v →
        (u = m ∧ c = a ∧ v = b :: unlines a b ls) ∨
        (u = m ++ [a] ∧ c = b ∧ v = unlines a b ls) ∨
        ∃ w, u = m ++ a :: b :: w ∧ unlines a b ls = w ++ c :: v := by
      intro u v c hc h
      rcases List.append_eq_append_iff.1 h with ⟨w, rfl, hw⟩ | ⟨w, rfl, hw⟩
      · rcases w with _ | ⟨d, _ | ⟨e, w⟩⟩
        · obtain ⟨rfl, rfl⟩ := List.cons.inj hw
          exact .inl ⟨List.append_nil m, rfl, rfl⟩
        · obtain ⟨rfl, htail⟩ := List.cons.inj hw
          obtain ⟨rfl, rfl⟩ := List.cons.inj htail
          exact .inr (.inl ⟨rfl, rfl, rfl⟩)
        · obtain ⟨rfl, htail⟩ := List.cons.inj hw
          obtain ⟨rfl, hlines⟩ := List.cons.inj htail
          exact .inr (.inr ⟨w, rfl, hlines⟩)
      · rcases w with _ | ⟨d, w⟩
        · obtain ⟨rfl, rfl⟩ := List.cons.inj hw
          exact .inl ⟨(List.append_nil u).symm, rfl, rfl⟩
        · obtain ⟨rfl, -⟩ := List.cons.inj hw
          exact absurd (List.mem_append_right u List.mem_cons_self) hc
    rw [hsplit]
    constructor
    · intro u v h
      rcases hcut u v a ham h with ⟨-, -, rfl⟩ | ⟨-, heq, -⟩ | ⟨w, -, hw⟩
      · rfl
      · exact absurd heq hab
      · exact (ih hrest).follows w v hw
    · intro u v h
      rcases hcut u v b hbm h with ⟨-, heq, -⟩ | ⟨rfl, -, -⟩ | ⟨w, rfl, hw⟩
      · exact absurd heq.symm hab
      · exact List.getLast?_concat
      · have hlast := (ih hrest).precedes w v hw
        rw [List.getLast?_append, List.getLast?_cons_cons, List.getLast?_cons, hlast]
        rfl

/-- Behind a block of lines whose only blank one is the last, the doubled terminator does not
occur once more. -/
theorem eq_nil_of_blank_line {a b : α} (hab : a ≠ b) {l : List α} {ls : List (List α)}
    (hl : a ∉ l) (hls : ∀ m ∈ ls, a ∉ m ∧ m ≠ []) {u v : List α}
    (h : unlines a b (l :: ls) ++ [a, b] = u ++ [a, b, a, b] ++ v) : v = [] := by
  have hfirst := position_blank_line hab l ls hl hls []
  rw [List.append_nil] at hfirst
  have hmin := (position_eq_some_iff.1 hfirst).2 u v h
  have hlength := congrArg List.length h
  simp only [List.length_append, List.length_cons, List.length_nil, unlines_cons] at hlength hmin
  exact List.length_eq_zero_iff.1 (by omega)

end Search
