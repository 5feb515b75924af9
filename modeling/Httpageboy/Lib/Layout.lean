import Httpageboy.Lib.Search
import Httpageboy.Lib.Str

set_option relaxedAutoImplicit false
set_option autoImplicit false

/-!
# Text on one line

A text of several lines is put on one line by trimming its lines and joining them with spaces. Only
white space changes by that; white space between two words stays white space, and a word without
line feeds stays as it is.

## Main definitions

* `Layout.oneLine` — the text behind some point of a line, on one line.
* `Layout.solid` — without the white space.

## Main results

* `Layout.oneLine_append_line` — one more line.
* `Layout.oneLine_append`, `Layout.oneLine_space` — words and the white space in front of them.
* `Layout.solid_oneLine` — only white space changes.
-/

namespace Layout

open Str

/-- The text without its white space. -/
def solid (s : Str) : Str := s.filter fun c => !isWhitespace c

/-- All of the text is white space. -/
def IsSpace (s : Str) : Prop := ∀ c ∈ s, isWhitespace c = true

/-- A word: it does not start or end with white space and is on one line. -/
structure IsWord (s : Str) : Prop where
  oneLine : '\n' ∉ s
  starts : ∃ c rest, s = c :: rest ∧ isWhitespace c = false
  ends : ∃ rest c, s = rest ++ [c] ∧ isWhitespace c = false

/-- The text behind a point of a line, on one line: the white space at the end of the first line
goes, and the other lines follow trimmed, each behind a space. -/
def oneLine (s : Str) : Str :=
  match s.splitOn '\n' with
  | [] => []
  | line :: lines => trimEnd line ++ lines.flatMap fun line => ' ' :: trim line

/-- What is solid in a text is what is solid in its parts. -/
@[simp]
lemma solid_append (s t : Str) : solid (s ++ t) = solid s ++ solid t := List.filter_append _ _

/-- What is no white space stays. -/
lemma mem_solid_iff {c : Char} {s : Str} : c ∈ solid s ↔ c ∈ s ∧ isWhitespace c = false := by
  simp [solid]

/-- Only white space has nothing solid. -/
lemma solid_eq_nil_iff {s : Str} : solid s = [] ↔ IsSpace s := by
  simp [solid, IsSpace, List.filter_eq_nil_iff]

/-- In front of what is left of a text there was white space. -/
lemma exists_isSpace_append (s : Str) : ∃ w, IsSpace w ∧ w ++ trimStart s = s :=
  ⟨_, fun _ hc => List.mem_takeWhile_imp hc, List.takeWhile_append_dropWhile⟩

/-- Behind what is left of a text there was white space. -/
lemma exists_append_isSpace (s : Str) : ∃ w, IsSpace w ∧ trimEnd s ++ w = s :=
  ⟨_, fun _ hc => List.mem_rtakeWhile_imp hc, List.rdropWhile_append_rtakeWhile⟩

/-- Trimming takes only white space off. -/
lemma solid_trimEnd (s : Str) : solid (trimEnd s) = solid s := by
  obtain ⟨w, hw, hsplit⟩ := exists_append_isSpace s
  conv_rhs => rw [← hsplit, solid_append, solid_eq_nil_iff.2 hw, List.append_nil]

/-- Trimming keeps what is solid. -/
lemma solid_trim (s : Str) : solid (trim s) = solid s := by
  obtain ⟨w, hw, hsplit⟩ := exists_isSpace_append s
  rw [trim, solid_trimEnd]
  conv_rhs => rw [← hsplit, solid_append, solid_eq_nil_iff.2 hw, List.nil_append]

/-- Trimming keeps what is no white space. -/
lemma mem_trim {c : Char} {s : Str} (h : c ∈ s) (hc : isWhitespace c = false) : c ∈ trim s := by
  have hmem : c ∈ solid (trim s) := by
    rw [solid_trim]
    exact mem_solid_iff.2 ⟨h, hc⟩
  exact (mem_solid_iff.1 hmem).1

/-! ## Lines -/

/-- A text with a character in it, split at the last place. -/
lemma exists_append_cons_notMem {c : Char} {s : Str} (h : c ∈ s) :
    ∃ a b, s = a ++ c :: b ∧ c ∉ b := by
  obtain ⟨a, b, hs, ha⟩ := List.eq_append_cons_of_mem (List.mem_reverse.2 h)
  refine ⟨b.reverse, a.reverse, ?_, by simpa using ha⟩
  rw [← List.reverse_reverse s, hs]
  simp

/-- Induction over the lines of a text, from the first one on. -/
theorem lines_induction {P : Str → Prop} (line : ∀ s, '\n' ∉ s → P s)
    (more : ∀ s line, '\n' ∉ line → P s → P (s ++ '\n' :: line)) (s : Str) : P s := by
  induction hn : s.length using Nat.strongRecOn generalizing s with
  | ind n ih =>
    by_cases h : '\n' ∈ s
    · obtain ⟨front, last, rfl, hlast⟩ := exists_append_cons_notMem h
      exact more front last hlast (ih front.length (by rw [← hn]; simp) front rfl)
    · exact line s h

/-- A single line is only trimmed at its end. -/
lemma oneLine_line {s : Str} (h : '\n' ∉ s) : oneLine s = trimEnd s := by
  rw [oneLine, List.splitOn_eq_singleton h]
  exact List.append_nil _

/-- The lines behind a line feed are trimmed, each behind a space. -/
lemma oneLine_append_newline (s t : Str) :
    oneLine (s ++ '\n' :: t) =
      oneLine s ++ (t.splitOn '\n').flatMap fun line => ' ' :: trim line := by
  obtain ⟨first, rest, hs⟩ := List.exists_cons_of_ne_nil (List.splitOn_ne_nil '\n' s)
  unfold oneLine
  rw [List.splitOn_append_cons_self, hs]
  simp

/-- **One more line** goes behind the text, trimmed and behind a space. -/
theorem oneLine_append_line (s : Str) {line : Str} (h : '\n' ∉ line) :
    oneLine (s ++ '\n' :: line) = oneLine s ++ ' ' :: trim line := by
  rw [oneLine_append_newline, List.splitOn_eq_singleton h]
  simp

/-- **Only white space changes.** -/
theorem solid_oneLine (s : Str) : solid (oneLine s) = solid s := by
  induction s using lines_induction with
  | line s h => rw [oneLine_line h, solid_trimEnd]
  | more s line h ih =>
    have hspace : solid [' '] = [] := by decide
    have hfeed : solid ['\n'] = [] := by decide
    rw [oneLine_append_line s h, List.append_cons, List.append_cons s, solid_append, solid_append,
      solid_append, solid_append, ih, solid_trim, hspace, hfeed]

/-- What has been put on one line has no line feed. -/
lemma newline_notMem_oneLine (s : Str) : '\n' ∉ oneLine s := by
  induction s using lines_induction with
  | line s h =>
    rw [oneLine_line h]
    exact fun hmem => h ((List.rdropWhile_prefix _ _).mem hmem)
  | more s line h ih =>
    rw [oneLine_append_line s h, List.mem_append, List.mem_cons]
    rintro (hmem | hmem | hmem)
    · exact ih hmem
    · exact absurd hmem (by decide)
    · exact h ((List.dropWhile_suffix _).mem ((List.rdropWhile_prefix _ _).mem hmem))

/-! ## Words and white space -/

/-- White space at the end of a text is behind the last character that is none. -/
lemma trimEnd_append_of_ends {s : Str} (h : ∃ rest c, s = rest ++ [c] ∧ isWhitespace c = false)
    (t : Str) : trimEnd (s ++ t) = s ++ trimEnd t := by
  induction t using List.reverseRecOn with
  | nil =>
    obtain ⟨rest, c, rfl, hc⟩ := h
    unfold trimEnd
    rw [List.append_nil, List.rdropWhile_concat_neg _ _ _ (by simp [hc]), List.rdropWhile_nil,
      List.append_nil]
  | append_singleton t c ih =>
    unfold trimEnd at ih ⊢
    rw [← List.append_assoc]
    by_cases hc : isWhitespace c = true
    · rw [List.rdropWhile_concat_pos _ _ _ hc, List.rdropWhile_concat_pos _ _ _ hc, ih]
    · rw [List.rdropWhile_concat_neg _ _ _ hc, List.rdropWhile_concat_neg _ _ _ hc,
        List.append_assoc]

/-- White space at the start of a text is in front of the first character that is none. -/
lemma trimStart_append_of_starts {w s : Str} (hw : IsSpace w)
    (h : ∃ c rest, s = c :: rest ∧ isWhitespace c = false) (t : Str) :
    trimStart (w ++ s ++ t) = s ++ t := by
  obtain ⟨c, rest, rfl, hc⟩ := h
  unfold trimStart
  rw [List.append_assoc, List.dropWhile_append_of_pos hw, List.cons_append,
    List.dropWhile_cons_of_neg (by simp [hc])]

/-- Text in front of a word is trimmed by itself. -/
lemma trim_append_word (s : Str) {word : Str} (h : IsWord word) (t : Str) :
    trim (s ++ (word ++ t)) = trimStart s ++ word ++ trimEnd t := by
  obtain ⟨c, rest, hword, hc⟩ := h.starts
  have hkeep : trimStart (word ++ t) = word ++ t := by
    rw [hword, List.cons_append, trimStart, List.dropWhile_cons_of_neg (by simp [hc])]
  have hstart : trimStart (s ++ (word ++ t)) = trimStart s ++ word ++ t := by
    unfold trimStart at hkeep ⊢
    rw [List.dropWhile_append]
    cases hs : s.dropWhile isWhitespace with
    | nil => simpa using hkeep
    | cons d s' => simp
  have hends : ∃ rest c, trimStart s ++ word = rest ++ [c] ∧ isWhitespace c = false := by
    obtain ⟨rest, c, rfl, hc⟩ := h.ends
    exact ⟨trimStart s ++ rest, c, by simp, hc⟩
  rw [trim, hstart, trimEnd_append_of_ends hends]

/-- **Text on one line** that does not end with white space stays as it is. -/
theorem oneLine_append {s : Str} (hline : '\n' ∉ s)
    (hends : ∃ rest c, s = rest ++ [c] ∧ isWhitespace c = false) (t : Str) :
    oneLine (s ++ t) = s ++ oneLine t := by
  obtain ⟨first, rest, ht⟩ := List.exists_cons_of_ne_nil (List.splitOn_ne_nil '\n' t)
  unfold oneLine
  rw [splitOn_append hline, ht, List.modifyHead_cons]
  show trimEnd (s ++ first) ++ _ = s ++ (trimEnd first ++ _)
  rw [trimEnd_append_of_ends hends, List.append_assoc]

/-- **White space** in front of a word stays white space. -/
theorem oneLine_space {w s : Str} (hw : IsSpace w) (hs : IsWord s) (t : Str) :
    ∃ w', IsSpace w' ∧ oneLine (w ++ (s ++ t)) = w' ++ (s ++ oneLine t) := by
  by_cases hfeed : '\n' ∈ w
  · obtain ⟨a, b, rfl, hb⟩ := exists_append_cons_notMem hfeed
    have hspace : IsSpace b := fun c hc => hw c (by simp [hc])
    refine ⟨oneLine a ++ [' '], ?_, ?_⟩
    · have ha : solid (oneLine a) = [] := by
        rw [solid_oneLine]
        exact solid_eq_nil_iff.2 fun c hc => hw c (by simp [hc])
      rw [← solid_eq_nil_iff, solid_append, ha]
      decide
    · obtain ⟨first, rest, ht⟩ := List.exists_cons_of_ne_nil (List.splitOn_ne_nil '\n' t)
      have hword : '\n' ∉ b ++ s := by simp [hb, hs.oneLine]
      have hlines : (b ++ s ++ t).splitOn '\n' = (b ++ s ++ first) :: rest := by
        rw [splitOn_append hword, ht, List.modifyHead_cons]
      have hone : oneLine t = trimEnd first ++ rest.flatMap fun line => ' ' :: trim line := by
        rw [oneLine, ht]
      have htrim : trim (b ++ s ++ first) = s ++ trimEnd first := by
        rw [trim, trimStart_append_of_starts hspace hs.starts, trimEnd_append_of_ends hs.ends]
      have happend : a ++ '\n' :: b ++ (s ++ t) = a ++ '\n' :: (b ++ s ++ t) := by simp
      rw [happend, oneLine_append_newline, hlines, List.flatMap_cons, htrim, hone]
      simp
  · refine ⟨w, hw, ?_⟩
    have hline : '\n' ∉ w ++ s := by simp [hfeed, hs.oneLine]
    have hends : ∃ rest c, w ++ s = rest ++ [c] ∧ isWhitespace c = false := by
      obtain ⟨rest, c, rfl, hc⟩ := hs.ends
      exact ⟨w ++ rest, c, by simp, hc⟩
    rw [← List.append_assoc, oneLine_append hline hends, List.append_assoc]

end Layout
