import Mathlib.Algebra.GroupWithZero.Nat
import Mathlib.Data.List.Basic
import Mathlib.Data.Nat.Notation
import Mathlib.Tactic.Common

set_option relaxedAutoImplicit false
set_option autoImplicit false

/-!
# Operations that can fault

Additions on machine words, slices, indices and cuts of texts at byte offsets, each with the
condition it faults on. A program over them is total when it returns a value; the lemmas say when
one operation does.

## Main definitions

* `Checked.Fault`, `Checked.Result` — the faults, and a computation that may end in one.
* `Checked.add`, `Checked.slice`, `Checked.sliceFrom`, `Checked.index`, `Checked.drain`,
  `Checked.extend` — words and vectors.
* `Checked.find`, `Checked.strFrom`, `Checked.truncate` — texts and byte offsets.

## Main results

* `Checked.find_append`, `Checked.cut_append` — the offset of a character lies on a boundary.
-/

namespace Checked

variable {α β : Type}

/-- What can go wrong. -/
inductive Fault where
  | overflow
  | outOfBounds
  | charBoundary
  | capacity
  | fuel
  deriving DecidableEq, Repr

/-- A computation that may end in a fault. -/
abbrev Result (α : Type) := Except Fault α

/-- A computation goes on with what has been computed. -/
@[simp] lemma ok_bind (a : α) (f : α → Result β) : (Except.ok a : Result α) >>= f = f a := rfl

/-! ## Words and vectors -/

/-- An addition of words up to `max`. -/
def add (max a b : ℕ) : Result ℕ := if a + b ≤ max then .ok (a + b) else .error .overflow

/-- `&l[a..b]`. -/
def slice (l : List α) (a b : ℕ) : Result (List α) :=
  if a ≤ b ∧ b ≤ l.length then .ok ((l.take b).drop a) else .error .outOfBounds

/-- `&l[a..]`. -/
def sliceFrom (l : List α) (a : ℕ) : Result (List α) :=
  if a ≤ l.length then .ok (l.drop a) else .error .outOfBounds

/-- `l[i]`. -/
def index (l : List α) (i : ℕ) : Result α :=
  match l[i]? with
  | some a => .ok a
  | none => .error .outOfBounds

/-- `l.drain(..n)`: what is taken off, and what is left. -/
def drain (l : List α) (n : ℕ) : Result (List α × List α) :=
  if n ≤ l.length then .ok (l.take n, l.drop n) else .error .outOfBounds

/-- `l.extend_from_slice(m)` on vectors of at most `max` elements. -/
def extend (max : ℕ) (l m : List α) : Result (List α) :=
  if l.length + m.length ≤ max then .ok (l ++ m) else .error .capacity

/-- An addition within the bound. -/
lemma add_eq {max a b : ℕ} (h : a + b ≤ max) : add max a b = .ok (a + b) := if_pos h

/-- A slice within the list. -/
lemma slice_eq {l : List α} {a b : ℕ} (hab : a ≤ b) (hb : b ≤ l.length) :
    slice l a b = .ok ((l.take b).drop a) := if_pos ⟨hab, hb⟩

/-- The rest from an index within the list. -/
lemma sliceFrom_eq {l : List α} {a : ℕ} (h : a ≤ l.length) : sliceFrom l a = .ok (l.drop a) :=
  if_pos h

/-- An element at an index within the list. -/
lemma index_eq {l : List α} {i : ℕ} {a : α} (h : l[i]? = some a) : index l i = .ok a := by
  rw [index, h]

/-- A front that is not longer than the list. -/
lemma drain_eq {l : List α} {n : ℕ} (h : n ≤ l.length) : drain l n = .ok (l.take n, l.drop n) :=
  if_pos h

/-- An extension within the bound. -/
lemma extend_eq {max : ℕ} {l m : List α} (h : l.length + m.length ≤ max) :
    extend max l m = .ok (l ++ m) := if_pos h

/-- A slice of given length, counted from its start. -/
lemma slice_add {l : List α} {a n : ℕ} (h : a + n ≤ l.length) :
    slice l a (a + n) = .ok ((l.drop a).take n) := by
  rw [slice_eq (Nat.le_add_right a n) h, List.drop_take, Nat.add_sub_cancel_left]

/-! ## Texts -/

/-- The length of a text in bytes. -/
def byteLen (s : List Char) : ℕ := (s.map Char.utf8Size).sum

/-- A text cut at a byte offset, if that lies on a character boundary. -/
def cut : List Char → ℕ → Option (List Char × List Char)
  | s, 0 => some ([], s)
  | [], _ + 1 => none
  | c :: s, p + 1 =>
    if c.utf8Size ≤ p + 1 then (cut s (p + 1 - c.utf8Size)).map fun q => (c :: q.1, q.2)
    else none

/-- `&s[p..]`. -/
def strFrom (s : List Char) (p : ℕ) : Result (List Char) :=
  match cut s p with
  | some (_, rest) => .ok rest
  | none => .error .charBoundary

/-- `s.truncate(p)`: no effect behind the end. -/
def truncate (s : List Char) (p : ℕ) : Result (List Char) :=
  if byteLen s ≤ p then .ok s
  else
    match cut s p with
    | some (front, _) => .ok front
    | none => .error .charBoundary

/-- `s.find(c)`: the byte offset of the first occurrence. -/
def find (c : Char) : List Char → Option ℕ
  | [] => none
  | d :: s => if d = c then some 0 else (find c s).map (d.utf8Size + ·)

/-- The empty text has no bytes. -/
@[simp] lemma byteLen_nil : byteLen [] = 0 := rfl

/-- The bytes of the first character are counted first. -/
@[simp] lemma byteLen_cons (c : Char) (s : List Char) :
    byteLen (c :: s) = c.utf8Size + byteLen s := by
  simp [byteLen]

/-- The bytes of a text are those of its parts. -/
@[simp] lemma byteLen_append (s t : List Char) : byteLen (s ++ t) = byteLen s + byteLen t := by
  simp [byteLen]

/-- A text can be cut between any two characters. -/
theorem cut_append (s t : List Char) : cut (s ++ t) (byteLen s) = some (s, t) := by
  induction s with
  | nil => cases t <;> rfl
  | cons c s ih =>
    obtain ⟨p, hp⟩ : ∃ p, byteLen (c :: s) = p + 1 :=
      Nat.exists_eq_add_one.2 (by rw [byteLen_cons]; exact Nat.add_pos_left c.utf8Size_pos _)
    have hrest : p + 1 - c.utf8Size = byteLen s := by
      rw [← hp, byteLen_cons, Nat.add_sub_cancel_left]
    have hle : c.utf8Size ≤ p + 1 := by
      rw [← hp, byteLen_cons]
      exact Nat.le_add_right _ _
    rw [hp, List.cons_append, cut, if_pos hle, hrest, ih]
    rfl

/-- The first occurrence of a character lies behind the text in front of it. -/
theorem find_append {c : Char} {s : List Char} (h : c ∉ s) (t : List Char) :
    find c (s ++ c :: t) = some (byteLen s) := by
  induction s with
  | nil => exact if_pos rfl
  | cons d s ih =>
    obtain ⟨hd, hs⟩ := not_or.1 (List.mem_cons.not.1 h)
    rw [List.cons_append, find, if_neg (Ne.symm hd), ih hs, Option.map_some, byteLen_cons]

/-- A character that is not in the text is not found. -/
lemma find_of_notMem {c : Char} {s : List Char} (h : c ∉ s) : find c s = none := by
  induction s with
  | nil => rfl
  | cons d s ih =>
    obtain ⟨hd, hs⟩ := not_or.1 (List.mem_cons.not.1 h)
    rw [find, if_neg (Ne.symm hd), ih hs]
    rfl

/-- The text behind the first occurrence of a one-byte character. -/
lemma strFrom_append {c : Char} (hc : c.utf8Size = 1) (s t : List Char) :
    strFrom (s ++ c :: t) (byteLen s + 1) = .ok t := by
  have hcut := cut_append (s ++ [c]) t
  rw [List.append_assoc, List.singleton_append, byteLen_append, byteLen_cons, byteLen_nil, hc]
    at hcut
  rw [strFrom, hcut]

/-- The text in front of an occurrence of a character. -/
lemma truncate_append (c : Char) (s t : List Char) :
    truncate (s ++ c :: t) (byteLen s) = .ok s := by
  have hlong : ¬ byteLen (s ++ c :: t) ≤ byteLen s := by
    have hpos := c.utf8Size_pos
    rw [byteLen_append, byteLen_cons]
    omega
  rw [truncate, if_neg hlong, cut_append]

end Checked
