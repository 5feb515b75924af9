import Mathlib.Data.List.DropRight
import Mathlib.Data.Nat.Notation
import Mathlib.Tactic.Common
import Mathlib.Tactic.IntervalCases

set_option relaxedAutoImplicit false
set_option autoImplicit false

/-!
# Rust string operations

The operations of Rust's `str` and of its integer parsers, on lists of Unicode scalar values:
trimming and splitting at Unicode white space, splitting at a character, ASCII case folding
and `from_str_radix` of the unsigned types.

## Main definitions

* `Str.isWhitespace`, `Str.trim`, `Str.splitWhitespace` — Unicode `White_Space`.
* `Str.splitOnce` — the text before and after the first occurrence of a character.
* `Str.lines` — the lines of a text.
* `Str.eqIgnoreAsciiCase` — equality up to the case of ASCII letters.
* `Str.fromStrRadix` — the integer parser, with its optional plus sign and its overflow check.
* `Str.numeral` — the value of a nonempty string of digits.

## Main results

* `Str.splitOnce_eq_some_iff` — `splitOnce` cuts at the first occurrence.
* `Str.fromStrRadix_eq_some_iff` — the parser accepts the numerals within the bound, with or
  without a plus sign.
* `Str.numeral_toDigits` — the decimal digits of a number denote it.
-/

/-- The text of a Rust `str` or `String`. -/
abbrev Str := List Char

namespace Str

/-! ## White space -/

/-- `char::is_whitespace`: the Unicode property `White_Space`. -/
def isWhitespace (c : Char) : Bool :=
  (9 ≤ c.toNat && c.toNat ≤ 13) || c.toNat == 0x20 || c.toNat == 0x85 || c.toNat == 0xA0 ||
    c.toNat == 0x1680 || (0x2000 ≤ c.toNat && c.toNat ≤ 0x200A) || c.toNat == 0x2028 ||
    c.toNat == 0x2029 || c.toNat == 0x202F || c.toNat == 0x205F || c.toNat == 0x3000

/-- A text is checked letter by letter. -/
lemma forall_mem_of_all {p : Char → Prop} [DecidablePred p] {s : Str}
    (h : (s.all fun c => decide (p c)) = true) : ∀ c ∈ s, p c := fun c hc =>
  of_decide_eq_true (List.all_eq_true.1 h c hc)

/-- A text is checked for white space letter by letter. -/
lemma not_isWhitespace_of_all {s : Str} (h : (s.all fun c => !isWhitespace c) = true) :
    ∀ c ∈ s, isWhitespace c = false := by
  intro c hc
  have hall := List.all_eq_true.1 h c hc
  simpa using hall

/-- `str::trim_start`. -/
def trimStart (s : Str) : Str := s.dropWhile isWhitespace

/-- `str::trim_end`. -/
def trimEnd (s : Str) : Str := s.rdropWhile isWhitespace

/-- `str::trim`. -/
def trim (s : Str) : Str := trimEnd (trimStart s)

/-- Trimming at both ends takes a prefix and a suffix off. -/
lemma exists_trim (p : Char → Bool) (s : Str) :
    ∃ a b, s = a ++ (s.dropWhile p).rdropWhile p ++ b ∧ (∀ c ∈ a, p c = true) ∧
      ∀ c ∈ b, p c = true := by
  refine ⟨s.takeWhile p, (s.dropWhile p).rtakeWhile p, ?_, ?_, ?_⟩
  · rw [List.append_assoc, List.rdropWhile_append_rtakeWhile, List.takeWhile_append_dropWhile]
  · intro c hc
    exact List.mem_takeWhile_imp hc
  · intro c hc
    exact List.mem_rtakeWhile_imp hc

/-- `str::split_whitespace`: the maximal nonempty pieces without white space. -/
def splitWhitespace (s : Str) : List Str :=
  (s.splitOnP isWhitespace).filter (· ≠ [])

/-- A word in front of a white space character is the first word. -/
lemma splitWhitespace_append {w : Str} (hne : w ≠ []) (hw : ∀ c ∈ w, isWhitespace c = false)
    {c : Char} (hc : isWhitespace c = true) (s : Str) :
    splitWhitespace (w ++ c :: s) = w :: splitWhitespace s := by
  simp [splitWhitespace, List.splitOnP_append_cons_of_forall_mem hw c hc, hne]

/-- A text without white space stays as it is. -/
lemma trim_of_forall {s : Str} (h : ∀ c ∈ s, isWhitespace c = false) : trim s = s := by
  have hstart : trimStart s = s := by
    cases s with
    | nil => rfl
    | cons c s => exact List.dropWhile_cons_of_neg (by simp [h c (List.mem_cons_self)])
  unfold trim
  rw [hstart]
  refine List.rdropWhile_eq_self_iff.2 fun hne => ?_
  simp [h _ (List.getLast_mem hne)]

/-- A text that trimming leaves as it is has no white space in front. -/
lemma trimStart_of_trim {s : Str} (h : trim s = s) : trimStart s = s := by
  have hsuffix : trimStart s <:+ s := List.dropWhile_suffix _
  have hprefix : trim s <+: trimStart s := List.rdropWhile_prefix _ _
  have hle := hprefix.length_le
  rw [h] at hle
  exact hsuffix.eq_of_length_le hle

/-- Trimming removes the white space around a text that it leaves as it is. -/
lemma trim_append {a m b : Str} (ha : ∀ c ∈ a, isWhitespace c = true) (hm : trim m = m)
    (hb : ∀ c ∈ b, isWhitespace c = true) : trim (a ++ m ++ b) = m := by
  unfold trim trimStart
  rw [List.append_assoc, List.dropWhile_append_of_pos ha]
  cases m with
  | nil =>
    have hnil : b.dropWhile isWhitespace = [] := List.dropWhile_eq_nil_iff.2 hb
    rw [List.nil_append, hnil]
    rfl
  | cons c m =>
    have hstart : (c :: m).dropWhile isWhitespace = c :: m := trimStart_of_trim hm
    have hc : ¬ isWhitespace c = true := List.dropWhile_eq_self_iff.1 hstart (by simp)
    have hstop : (c :: m ++ b).dropWhile isWhitespace = c :: m ++ b :=
      List.dropWhile_cons_of_neg hc
    rw [hstop]
    unfold trimEnd List.rdropWhile
    rw [List.reverse_append, List.dropWhile_append_of_pos (by simpa using hb)]
    unfold trim trimStart trimEnd List.rdropWhile at hm
    rwa [hstart] at hm

/-- Trimming a text again changes nothing. -/
lemma trim_trim (s : Str) : trim (trim s) = trim s := by
  have hstart : trimStart (trim s) = trim s := by
    unfold trimStart
    apply List.dropWhile_eq_self_iff.2
    intro hpos
    -- the first letter of the trimmed text is that of the text without white space in front
    have hfront : trim s <+: trimStart s := List.rdropWhile_prefix _ _
    have hfirst := List.dropWhile_eq_self_iff.1 (List.dropWhile_idempotent isWhitespace s)
      (hpos.trans_le hfront.length_le)
    rw [hfront.getElem hpos]
    exact hfirst
  show trimEnd (trimStart (trim s)) = trim s
  rw [hstart]
  exact List.rdropWhile_idempotent _ _

/-- White space behind a text does not change the trimmed text. -/
lemma trim_append_space {s b : Str} (hb : ∀ c ∈ b, isWhitespace c = true) :
    trim (s ++ b) = trim s := by
  obtain ⟨front, back, hs, hfront, hback⟩ := exists_trim isWhitespace s
  change s = front ++ trim s ++ back at hs
  have hsplit : s ++ b = front ++ trim s ++ (back ++ b) := by
    conv_lhs => rw [hs]
    rw [List.append_assoc]
  rw [hsplit]
  apply trim_append hfront (trim_trim s)
  intro c hc
  rcases List.mem_append.1 hc with hc | hc
  · exact hback c hc
  · exact hb c hc

/-- A text without white space is one word. -/
lemma splitWhitespace_of_forall {w : Str} (hne : w ≠ [])
    (hw : ∀ c ∈ w, isWhitespace c = false) : splitWhitespace w = [w] := by
  simp [splitWhitespace, List.splitOnP_eq_singleton hw, hne]

/-- The words of a text have no white space. -/
lemma isWhitespace_of_mem_splitWhitespace {s word : Str} (h : word ∈ splitWhitespace s) :
    ∀ c ∈ word, isWhitespace c = false := by
  have hpieces : ∀ piece ∈ s.splitOnP isWhitespace, ∀ c ∈ piece, isWhitespace c = false := by
    clear h
    induction s with
    | nil => simp
    | cons d s ih =>
      obtain ⟨first, rest, hsplit⟩ :=
        List.exists_cons_of_ne_nil (List.splitOnP_ne_nil isWhitespace s)
      rw [hsplit] at ih
      obtain ⟨hfirst, hrest⟩ := List.forall_mem_cons.1 ih
      rw [List.splitOnP_cons_eq_if_modifyHead, hsplit]
      split_ifs with hd
      · exact List.forall_mem_cons.2 ⟨nofun, ih⟩
      · exact List.forall_mem_cons.2
          ⟨List.forall_mem_cons.2 ⟨Bool.eq_false_iff.2 hd, hfirst⟩, hrest⟩
  exact hpieces word (List.mem_of_mem_filter h)

/-- What is left of a text that is trimmed is a part of it. -/
lemma infix_trim (s : Str) : trim s <:+: s :=
  (List.rdropWhile_prefix _ _).isInfix.trans (List.dropWhile_suffix _).isInfix

/-! ## Splitting at a character -/

/-- `str::split_once` at a character. -/
def splitOnce (c : Char) : Str → Option (Str × Str)
  | [] => none
  | d :: s => if d = c then some ([], s) else (splitOnce c s).map fun p => (d :: p.1, p.2)

/-- `split_once` cuts at the first occurrence. -/
theorem splitOnce_eq_some_iff {c : Char} {s a b : Str} :
    splitOnce c s = some (a, b) ↔ s = a ++ c :: b ∧ c ∉ a := by
  induction s generalizing a with
  | nil => simp [splitOnce]
  | cons d s ih =>
    by_cases hd : d = c
    · subst hd
      cases a with
      | nil => simp [splitOnce, eq_comm]
      | cons e a =>
        simp only [splitOnce, if_true, Option.some.injEq, Prod.mk.injEq]
        grind
    · cases a with
      | nil => simp [splitOnce, hd]
      | cons e a =>
        simp only [splitOnce, hd, if_false, Option.map_eq_some_iff, Prod.exists, Prod.mk.injEq]
        constructor
        · rintro ⟨a', b', h, he, rfl⟩
          obtain ⟨rfl, rfl⟩ := List.cons.inj he
          obtain ⟨rfl, hc⟩ := ih.1 h
          exact ⟨by simp, by simp [hc, Ne.symm hd]⟩
        · rintro ⟨h, hc⟩
          simp only [List.cons_append, List.cons.injEq] at h
          obtain ⟨rfl, rfl⟩ := h
          exact ⟨a, b, ih.2 ⟨rfl, fun hm => hc (by simp [hm])⟩, rfl, rfl⟩

/-- Two decompositions of a text at a character that the first parts do not contain. -/
lemma append_cons_inj {c : Char} {a a' b b' : Str} (h : a ++ c :: b = a' ++ c :: b') (ha : c ∉ a)
    (ha' : c ∉ a') : a = a' ∧ b = b' := by
  have hsplit : splitOnce c (a ++ c :: b) = some (a, b) :=
    splitOnce_eq_some_iff.2 ⟨rfl, ha⟩
  have hsplit' : splitOnce c (a ++ c :: b) = some (a', b') :=
    splitOnce_eq_some_iff.2 ⟨h, ha'⟩
  exact Prod.mk.inj (Option.some.inj (hsplit.symm.trans hsplit'))

/-- Two decompositions of a text at a character that the second parts do not contain. -/
lemma append_cons_inj_right {c : Char} {a a' b b' : Str} (h : a ++ c :: b = a' ++ c :: b')
    (hb : c ∉ b) (hb' : c ∉ b') : a = a' ∧ b = b' := by
  have hreverse : b.reverse ++ c :: a.reverse = b'.reverse ++ c :: a'.reverse := by
    simpa using congrArg List.reverse h
  obtain ⟨hright, hleft⟩ := append_cons_inj hreverse (by simpa using hb) (by simpa using hb')
  exact ⟨List.reverse_injective hleft, List.reverse_injective hright⟩

/-- There is no split exactly when the character does not occur. -/
lemma splitOnce_eq_none_iff {c : Char} {s : Str} : splitOnce c s = none ↔ c ∉ s := by
  induction s with
  | nil => simp [splitOnce]
  | cons d s ih =>
    by_cases hd : d = c
    · simp [splitOnce, hd]
    · simp [splitOnce, hd, ih, Ne.symm hd]

/-- Text without the separator goes to the first piece. -/
lemma splitOn_append {c : Char} {a : Str} (h : c ∉ a) (s : Str) :
    (a ++ s).splitOn c = (s.splitOn c).modifyHead (a ++ ·) := by
  induction a with
  | nil =>
    obtain ⟨p, ps, hp⟩ := List.exists_cons_of_ne_nil (List.splitOn_ne_nil c s)
    simp [hp]
  | cons d a ih =>
    have hd : d ≠ c := fun e => h (by simp [e])
    obtain ⟨p, ps, hp⟩ := List.exists_cons_of_ne_nil (List.splitOn_ne_nil c s)
    rw [List.cons_append, List.splitOn_cons_eq_if_modifyHead, if_neg (by simpa using hd),
      ih fun hm => h (List.mem_cons_of_mem _ hm), hp]
    rfl

/-- Text without the separator behind a list of pieces goes to the last piece. -/
lemma exists_splitOn_append {c : Char} {b : Str} (h : c ∉ b) (s : Str) :
    ∃ pieces piece, s.splitOn c = pieces ++ [piece] ∧
      (s ++ b).splitOn c = pieces ++ [piece ++ b] := by
  induction s with
  | nil => exact ⟨[], [], by simp, by simp [List.splitOn_eq_singleton h]⟩
  | cons d s ih =>
    obtain ⟨pieces, piece, hs, hsb⟩ := ih
    rw [List.cons_append, List.splitOn_cons_eq_if_modifyHead, List.splitOn_cons_eq_if_modifyHead,
      hs, hsb]
    by_cases hd : (d == c) = true
    · exact ⟨[] :: pieces, piece, by rw [if_pos hd]; rfl, by rw [if_pos hd]; rfl⟩
    · cases pieces with
      | nil => exact ⟨[], d :: piece, by rw [if_neg hd]; rfl, by rw [if_neg hd]; rfl⟩
      | cons p ps => exact ⟨(d :: p) :: ps, piece, by rw [if_neg hd]; rfl, by rw [if_neg hd]; rfl⟩

/-- White space behind a list of pieces does not change the trimmed pieces. -/
lemma map_trim_splitOn_append {c : Char} (hc : isWhitespace c = false) {b : Str}
    (hb : ∀ d ∈ b, isWhitespace d = true) (s : Str) :
    ((s ++ b).splitOn c).map trim = (s.splitOn c).map trim := by
  have hnot : c ∉ b := by
    intro hmem
    rw [hb c hmem] at hc
    cases hc
  obtain ⟨pieces, piece, hs, hsb⟩ := exists_splitOn_append hnot s
  rw [hs, hsb, List.map_append, List.map_append, List.map_singleton, List.map_singleton,
    trim_append_space hb]

/-- The pieces of a split do not contain the separator. -/
lemma notMem_of_mem_splitOn {c : Char} {s piece : Str} (h : piece ∈ s.splitOn c) : c ∉ piece := by
  induction s generalizing piece with
  | nil =>
    obtain rfl : piece = [] := by simpa using h
    exact List.not_mem_nil
  | cons d s ih =>
    rw [List.splitOn_cons_eq_if_modifyHead] at h
    by_cases hd : d = c
    · rw [if_pos (by simpa using hd)] at h
      rcases List.mem_cons.1 h with rfl | hmem
      · exact List.not_mem_nil
      · exact ih hmem
    · rw [if_neg (by simpa using hd)] at h
      obtain ⟨p, ps, hp⟩ := List.exists_cons_of_ne_nil (List.splitOn_ne_nil c s)
      rw [hp, List.modifyHead_cons] at h
      rcases List.mem_cons.1 h with rfl | hmem
      · have hnot : c ∉ p := ih (by rw [hp]; exact List.mem_cons_self)
        simp [hnot, Ne.symm hd]
      · exact ih (by rw [hp]; exact List.mem_cons_of_mem _ hmem)

/-- White space in front of a list of pieces does not change the trimmed pieces. -/
lemma map_trim_splitOn_trimStart {c : Char} (hc : isWhitespace c = false) (s : Str) :
    ((trimStart s).splitOn c).map trim = (s.splitOn c).map trim := by
  have hspace : ∀ d ∈ s.takeWhile isWhitespace, isWhitespace d = true := fun d hd =>
    List.mem_takeWhile_imp hd
  have hnot : c ∉ s.takeWhile isWhitespace := fun hmem => by
    rw [hspace c hmem] at hc
    cases hc
  have hs : s.splitOn c = ((trimStart s).splitOn c).modifyHead (s.takeWhile isWhitespace ++ ·) := by
    rw [← splitOn_append hnot]
    unfold trimStart
    rw [List.takeWhile_append_dropWhile]
  obtain ⟨p, ps, hp⟩ := List.exists_cons_of_ne_nil (List.splitOn_ne_nil c (trimStart s))
  rw [hs, hp, List.modifyHead_cons, List.map_cons, List.map_cons]
  congr 1
  unfold trim trimStart
  rw [List.dropWhile_append_of_pos hspace]

/-- The first piece of a split, and what is behind it. -/
lemma exists_of_splitOn (c : Char) (s : Str) :
    ∃ rest, s = (s.splitOn c).headD [] ++ rest ∧ (rest = [] ∨ ∃ rest', rest = c :: rest') := by
  by_cases hc : c ∈ s
  · obtain ⟨a, b, rfl, ha⟩ := List.eq_append_cons_of_mem hc
    refine ⟨c :: b, ?_, .inr ⟨b, rfl⟩⟩
    rw [List.splitOn_append_cons_self_of_not_mem ha, List.headD_cons]
  · exact ⟨[], by simp [List.splitOn_eq_singleton hc], .inl rfl⟩

/-- A piece of a split stands at the start of the text or behind a separator. -/
lemma exists_of_mem_splitOn {c : Char} {s piece : Str} (h : piece ∈ s.splitOn c) :
    ∃ front back, s = front ++ piece ++ back ∧ (front = [] ∨ ∃ front', front = front' ++ [c]) := by
  induction hn : s.length using Nat.strongRecOn generalizing s with
  | ind n ih =>
    by_cases hc : c ∈ s
    · obtain ⟨a, b, rfl, ha⟩ := List.eq_append_cons_of_mem hc
      rw [List.splitOn_append_cons_self_of_not_mem ha] at h
      rcases List.mem_cons.1 h with rfl | hmem
      · exact ⟨[], c :: b, by simp, .inl rfl⟩
      · obtain ⟨front, back, rfl, hfront⟩ := ih b.length (by rw [← hn]; simp; omega) hmem rfl
        refine ⟨a ++ c :: front, back, by simp, .inr ?_⟩
        rcases hfront with rfl | ⟨front', rfl⟩
        · exact ⟨a, rfl⟩
        · exact ⟨a ++ c :: front', by simp⟩
    · rw [List.splitOn_eq_singleton hc, List.mem_singleton] at h
      exact ⟨[], [], by simp [h], .inl rfl⟩

/-- Text without the separator is within one piece of a split. -/
lemma exists_mem_splitOn {c : Char} {m : Str} (h : c ∉ m) (u v : Str) :
    ∃ u' v', u' <:+ u ∧ u' ++ m ++ v' ∈ (u ++ m ++ v).splitOn c := by
  induction hn : u.length using Nat.strongRecOn generalizing u with
  | ind n ih =>
    by_cases hc : c ∈ u
    · obtain ⟨a, b, rfl, ha⟩ := List.eq_append_cons_of_mem hc
      obtain ⟨u', v', hsuffix, hmem⟩ := ih b.length (by rw [← hn]; simp; omega) b rfl
      refine ⟨u', v', hsuffix.trans ⟨a ++ [c], by simp⟩, ?_⟩
      have hsplit : (a ++ c :: b ++ m ++ v).splitOn c = a :: (b ++ m ++ v).splitOn c := by
        rw [← List.splitOn_append_cons_self_of_not_mem ha]
        simp
      rw [hsplit]
      exact List.mem_cons_of_mem _ hmem
    · have hnot : c ∉ u ++ m := by simp [hc, h]
      obtain ⟨p, ps, hp⟩ := List.exists_cons_of_ne_nil (List.splitOn_ne_nil c v)
      refine ⟨u, p, List.suffix_rfl, ?_⟩
      rw [splitOn_append hnot, hp]
      exact List.mem_cons_self

/-! ## Lines -/

/-- `strip_suffix('\r')`, if the text ends with it. -/
def stripCr (line : Str) : Str := if line.getLast? = some '\r' then line.dropLast else line

/-- `str::lines`: the lines end with a line feed, or with a carriage return and a line feed; the
last one may end with the text instead, and is no line if it is empty. -/
def lines (s : Str) : List Str :=
  let pieces := s.splitOn '\n'
  pieces.dropLast.map stripCr ++ pieces.getLast?.toList.filter (· ≠ [])

/-- A carriage return behind a line is white space. -/
lemma trim_stripCr (line : Str) : trim (stripCr line) = trim line := by
  unfold stripCr
  split_ifs with h
  · obtain ⟨front, rfl⟩ := List.getLast?_eq_some_iff.1 h
    rw [List.dropLast_concat]
    exact (trim_append_space (by simp [isWhitespace])).symm
  · rfl

/-! ## Letter case -/

/-- `str::to_ascii_lowercase`. -/
def toAsciiLowercase (s : Str) : Str := s.map Char.toLower

/-- `str::eq_ignore_ascii_case`. -/
def eqIgnoreAsciiCase (s t : Str) : Bool := toAsciiLowercase s == toAsciiLowercase t

/-- Two texts are equal but for case when their lower-case forms are equal. -/
lemma eqIgnoreAsciiCase_iff {s t : Str} :
    eqIgnoreAsciiCase s t = true ↔ toAsciiLowercase s = toAsciiLowercase t := by
  simp [eqIgnoreAsciiCase]

/-- The letters of a text are in every text that equals it up to letter case, in lower case. -/
lemma toLower_mem_of_eqIgnoreAsciiCase {s t : Str} {c : Char} (h : eqIgnoreAsciiCase s t = true)
    (hc : c ∈ s) : c.toLower ∈ toAsciiLowercase t := by
  rw [← eqIgnoreAsciiCase_iff.1 h]
  exact List.mem_map_of_mem hc

/-- Lower-casing changes capitals only, and to small letters. -/
lemma eq_of_toLower_eq {c d : Char} (hd : d.toNat < 97) (h : c.toLower = d) : c = d := by
  unfold Char.toLower at h
  split_ifs at h with hupper
  · exfalso
    have hlow : 65 ≤ c.toNat := hupper.1
    have hhigh : c.toNat ≤ 90 := hupper.2
    have hval : (c.val + ('a'.val - 'A'.val)).toNat = c.toNat + 32 := by
      rw [UInt32.toNat_add]
      show (c.toNat + 32) % 2 ^ 32 = c.toNat + 32
      omega
    have htoNat : c.toNat + 32 = d.toNat := hval.symm.trans (congrArg Char.toNat h)
    omega
  · exact h

/-- White space has no letter case. -/
lemma isWhitespace_toLower (c : Char) (h : isWhitespace c = true) : c.toLower = c := by
  unfold Char.toLower
  split_ifs with hupper
  · exfalso
    have hlow : 65 ≤ c.toNat := hupper.1
    have hhigh : c.toNat ≤ 90 := hupper.2
    simp only [isWhitespace, Bool.or_eq_true, Bool.and_eq_true, decide_eq_true_eq, beq_iff_eq] at h
    omega
  · rfl

/-- A text that equals one without white space, up to letter case, has no white space either. -/
lemma trim_of_eqIgnoreAsciiCase {s t : Str} (ht : ∀ c ∈ toAsciiLowercase t, isWhitespace c = false)
    (h : eqIgnoreAsciiCase s t = true) : trim s = s := by
  refine trim_of_forall fun c hc => ?_
  by_contra hspace
  have hspace : isWhitespace c = true := by simpa using hspace
  have hmem := toLower_mem_of_eqIgnoreAsciiCase h hc
  rw [isWhitespace_toLower c hspace] at hmem
  simp [ht c hmem] at hspace

/-- Lower-casing a text leaves the white space where it is. -/
lemma isWhitespace_toLower_eq (c : Char) : isWhitespace c.toLower = isWhitespace c := by
  unfold Char.toLower
  split_ifs with hupper
  · have hlow : 65 ≤ c.toNat := hupper.1
    have hhigh : c.toNat ≤ 90 := hupper.2
    have hval : (c.val + ('a'.val - 'A'.val)).toNat = c.toNat + 32 := by
      rw [UInt32.toNat_add]
      show (c.toNat + 32) % 2 ^ 32 = c.toNat + 32
      omega
    have hletter : ∀ d : Char, 65 ≤ d.toNat → d.toNat ≤ 122 → isWhitespace d = false := by
      intro d hd hd'
      rw [Bool.eq_false_iff]
      intro hspace
      simp only [isWhitespace, Bool.or_eq_true, Bool.and_eq_true, decide_eq_true_eq,
        beq_iff_eq] at hspace
      omega
    rw [hletter c hlow (by omega)]
    apply hletter
    · show 65 ≤ (c.val + ('a'.val - 'A'.val)).toNat
      omega
    · show (c.val + ('a'.val - 'A'.val)).toNat ≤ 122
      omega
  · rfl

/-- So trimming commutes with it. -/
lemma trim_toAsciiLowercase (s : Str) : trim (toAsciiLowercase s) = toAsciiLowercase (trim s) := by
  have hcomp : isWhitespace ∘ Char.toLower = isWhitespace := funext isWhitespace_toLower_eq
  unfold trim trimEnd trimStart toAsciiLowercase List.rdropWhile
  rw [List.dropWhile_map, ← List.map_reverse, List.dropWhile_map, hcomp, List.map_reverse]

/-- A text is trimmed when it equals a trimmed one, up to letter case. -/
lemma trim_eq_of_eqIgnoreAsciiCase {s t : Str} (h : eqIgnoreAsciiCase (trim s) t = true) :
    trim t = t := by
  have hlower : toAsciiLowercase (trim t) = toAsciiLowercase t := by
    rw [← trim_toAsciiLowercase, ← eqIgnoreAsciiCase_iff.1 h, trim_toAsciiLowercase, trim_trim]
  have hlength := congrArg List.length hlower
  unfold toAsciiLowercase at hlength
  rw [List.length_map, List.length_map] at hlength
  exact (infix_trim t).eq_of_length hlength

/-! ## Numerals -/

/-- `char::to_digit`, for a radix of at most 36. -/
def toDigit (radix : ℕ) (c : Char) : Option ℕ :=
  let d? : Option ℕ :=
    if '0' ≤ c ∧ c ≤ '9' then some (c.toNat - '0'.toNat)
    else if 'a' ≤ c ∧ c ≤ 'z' then some (c.toNat - 'a'.toNat + 10)
    else if 'A' ≤ c ∧ c ≤ 'Z' then some (c.toNat - 'A'.toNat + 10)
    else none
  d?.filter (· < radix)

/-- The number a string of digits denotes, read on from `acc`. -/
def value (radix acc : ℕ) (ds : List ℕ) : ℕ := ds.foldl (fun a d => a * radix + d) acc

/-- The value of a nonempty string of digits. -/
def numeral (radix : ℕ) (s : Str) : Option ℕ :=
  if s = [] then none else (s.mapM (toDigit radix)).map (value radix 0)

/-- The digit loop of `from_str_radix`: `checked_mul`, then `checked_add`. -/
def fromDigits (radix max : ℕ) : ℕ → Str → Option ℕ
  | acc, [] => some acc
  | acc, c :: s =>
    match toDigit radix c with
    | none => none
    | some d =>
      if acc * radix > max then none
      else if acc * radix + d > max then none
      else fromDigits radix max (acc * radix + d) s

/-- `from_str_radix` of an unsigned type with largest value `max`: one leading plus sign is
dropped, a lone sign and the empty string are rejected. -/
def fromStrRadix (radix max : ℕ) (s : Str) : Option ℕ :=
  match s with
  | [] => none
  | ['+'] => none
  | ['-'] => none
  | '+' :: rest => fromDigits radix max 0 rest
  | rest => fromDigits radix max 0 rest

/-- More digits do not make a number less. -/
lemma le_value {radix : ℕ} (hr : 0 < radix) (acc : ℕ) (ds : List ℕ) :
    acc ≤ value radix acc ds := by
  induction ds generalizing acc with
  | nil => exact Nat.le_refl _
  | cons d ds ih =>
    have hstep : acc ≤ acc * radix + d :=
      Nat.le_add_right_of_le (Nat.le_mul_of_pos_right _ hr)
    exact Nat.le_trans hstep (ih _)

/-- The digit loop returns the value when all characters are digits and the value is within
the bound.

**Proof sketch.** Induction on the digits. The partial values only grow, so a partial value
over the bound makes the whole value exceed it. -/
lemma fromDigits_eq_some_iff {radix max : ℕ} (hr : 0 < radix) {s : Str} {acc n : ℕ}
    (hacc : acc ≤ max) :
    fromDigits radix max acc s = some n ↔
      ∃ ds, s.mapM (toDigit radix) = some ds ∧ value radix acc ds = n ∧ n ≤ max := by
  induction s generalizing acc with
  | nil =>
    simp only [fromDigits, List.mapM_nil, Option.some.injEq, Option.pure_def]
    constructor
    · rintro rfl
      exact ⟨[], rfl, rfl, hacc⟩
    · rintro ⟨ds, rfl, rfl, -⟩
      rfl
  | cons c s ih =>
    simp only [fromDigits, List.mapM_cons, Option.pure_def, Option.bind_eq_bind]
    cases hd : toDigit radix c with
    | none => simp
    | some d =>
      simp only [Option.bind_some, Option.bind_eq_some_iff, Option.some.injEq]
      have hval : ∀ ds, value radix acc (d :: ds) = value radix (acc * radix + d) ds :=
        fun _ => rfl
      split_ifs with h₁ h₂
      · simp only [false_iff, not_exists]
        rintro _ ⟨⟨ds, -, rfl⟩, rfl, hle⟩
        have := le_value hr (acc * radix + d) ds
        rw [hval] at hle
        omega
      · simp only [false_iff, not_exists]
        rintro _ ⟨⟨ds, -, rfl⟩, rfl, hle⟩
        have := le_value hr (acc * radix + d) ds
        rw [hval] at hle
        omega
      · rw [ih (by omega)]
        constructor
        · rintro ⟨ds, hds, hv, hle⟩
          exact ⟨d :: ds, ⟨ds, hds, rfl⟩, hv, hle⟩
        · rintro ⟨_, ⟨ds, hds, rfl⟩, hv, hle⟩
          exact ⟨ds, hds, hv, hle⟩

/-- A numeral is a text of digits, one at least, and its value is theirs. -/
lemma numeral_eq_some_iff {radix : ℕ} {s : Str} {n : ℕ} :
    numeral radix s = some n ↔
      s ≠ [] ∧ ∃ ds, s.mapM (toDigit radix) = some ds ∧ value radix 0 ds = n := by
  unfold numeral
  split_ifs with h <;> simp [h]

/-- The sign `+` is no digit. -/
lemma toDigit_plus (radix : ℕ) : toDigit radix '+' = none := by
  simp [toDigit]

/-- The sign `-` is no digit. -/
lemma toDigit_minus (radix : ℕ) : toDigit radix '-' = none := by
  simp [toDigit]

/-- A numeral does not start with a character that is no digit. -/
lemma numeral_cons_of_none {radix : ℕ} {c : Char} (h : toDigit radix c = none) (s : Str) :
    numeral radix (c :: s) = none := by
  simp [numeral, h]

/-- Digits are no white space. -/
lemma isWhitespace_of_toDigit {radix d : ℕ} {c : Char} (h : toDigit radix c = some d) :
    isWhitespace c = false := by
  by_contra hspace
  have hspace : isWhitespace c = true := by simpa using hspace
  unfold toDigit at h
  simp only [isWhitespace, Bool.or_eq_true, Bool.and_eq_true, decide_eq_true_eq, beq_iff_eq]
    at hspace
  split_ifs at h with h₁ h₂ h₃
  · have hlow : 48 ≤ c.toNat := h₁.1
    have hhigh : c.toNat ≤ 57 := h₁.2
    omega
  · have hlow : 97 ≤ c.toNat := h₂.1
    have hhigh : c.toNat ≤ 122 := h₂.2
    omega
  · have hlow : 65 ≤ c.toNat := h₃.1
    have hhigh : c.toNat ≤ 90 := h₃.2
    omega
  · simp at h

/-- All characters of a numeral are digits. -/
lemma exists_toDigit_of_numeral {radix n : ℕ} {s : Str} (h : numeral radix s = some n) :
    ∀ c ∈ s, ∃ d, toDigit radix c = some d := by
  obtain ⟨-, ds, hds, -⟩ := numeral_eq_some_iff.1 h
  clear h
  induction s generalizing ds with
  | nil => simp
  | cons c s ih =>
    simp only [List.mapM_cons, Option.pure_def, Option.bind_eq_bind, Option.bind_eq_some_iff] at hds
    obtain ⟨d, hd, es, hes, -⟩ := hds
    intro e he
    rcases List.mem_cons.1 he with rfl | he
    · exact ⟨d, hd⟩
    · exact ih es hes e he

/-- A numeral has no white space. -/
lemma isWhitespace_of_numeral {radix n : ℕ} {s : Str} (h : numeral radix s = some n) :
    ∀ c ∈ s, isWhitespace c = false := by
  intro c hc
  obtain ⟨d, hd⟩ := exists_toDigit_of_numeral h c hc
  exact isWhitespace_of_toDigit hd

/-- The parser accepts the numerals within the bound, with or without a plus sign. -/
theorem fromStrRadix_eq_some_iff {radix max : ℕ} (hr : 0 < radix) {s : Str} {n : ℕ} :
    fromStrRadix radix max s = some n ↔
      (numeral radix s = some n ∨ ∃ s', s = '+' :: s' ∧ numeral radix s' = some n) ∧
        n ≤ max := by
  have hloop : ∀ s : Str, s ≠ [] → (fromDigits radix max 0 s = some n ↔
      numeral radix s = some n ∧ n ≤ max) := by
    intro s hs
    rw [fromDigits_eq_some_iff hr (Nat.zero_le _), numeral_eq_some_iff]
    constructor
    · rintro ⟨ds, hds, hv, hle⟩
      exact ⟨⟨hs, ds, hds, hv⟩, hle⟩
    · rintro ⟨⟨-, ds, hds, hv⟩, hle⟩
      exact ⟨ds, hds, hv, hle⟩
  unfold fromStrRadix
  split
  · simp [numeral]
  · rw [numeral_cons_of_none (toDigit_plus radix)]
    simp [numeral]
  · simp [numeral_cons_of_none (toDigit_minus radix)]
  · next rest hne =>
    rw [hloop rest (fun e => hne (by rw [e]))]
    simp [numeral_cons_of_none (toDigit_plus radix)]
  · next hnil _ _ hplus =>
    rw [hloop s hnil]
    constructor
    · rintro ⟨h, hle⟩
      exact ⟨.inl h, hle⟩
    · rintro ⟨h | ⟨s', rfl, -⟩, hle⟩
      · exact ⟨h, hle⟩
      · exact absurd rfl (hplus s')

/-! ### Decimal digits -/

/-- A digit of a decimal number is read as itself. -/
lemma toDigit_digitChar {d : ℕ} (h : d < 10) : toDigit 10 d.digitChar = some d := by
  interval_cases d <;> decide

/-- The digits of a text are those of its parts. -/
lemma mapM_append {radix : ℕ} {s t : Str} {ds es : List ℕ}
    (hs : s.mapM (toDigit radix) = some ds) (ht : t.mapM (toDigit radix) = some es) :
    (s ++ t).mapM (toDigit radix) = some (ds ++ es) := by
  simp [List.mapM_append, hs, ht]

/-- The decimal digits of a number denote it.

**Proof sketch.** Strong induction: the last digit is `n % 10`, the others are the digits of
`n / 10`. -/
theorem numeral_toDigits (n : ℕ) : numeral 10 (Nat.toDigits 10 n) = some n := by
  rw [numeral_eq_some_iff]
  refine ⟨Nat.toDigits_ne_nil, ?_⟩
  induction n using Nat.strong_induction_on with
  | _ n ih =>
    rw [Nat.toDigits_eq_if (by decide)]
    split_ifs with h
    · exact ⟨[n], by simp [toDigit_digitChar h], by simp [value]⟩
    · obtain ⟨ds, hds, hv⟩ := ih (n / 10) (by omega)
      have hlast : [(n % 10).digitChar].mapM (toDigit 10) = some [n % 10] := by
        simp [toDigit_digitChar (Nat.mod_lt n (by decide : 0 < 10))]
      refine ⟨ds ++ [n % 10], mapM_append hds hlast, ?_⟩
      simp only [value, List.foldl_append, List.foldl_cons, List.foldl_nil] at hv ⊢
      rw [hv]
      omega

end Str
