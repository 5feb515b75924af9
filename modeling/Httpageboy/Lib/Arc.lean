import Mathlib.Data.Nat.Notation
import Mathlib.Tactic.Common

set_option relaxedAutoImplicit false
set_option autoImplicit false

/-!
# Shared allocations

An allocation with counted owners, none of whom may write to it while another one is there. One
of the owners is the one who wants to write; the others come and go.

## Main definitions

* `Arc` — an allocation: its value, and how many pointers to it there are.
* `Arc.getMut` — a write by an owner, which needs the allocation for itself.
* `Arc.SharedWith` — how many owners there are beside one.

## Main results

* `Arc.SharedWith.getMut_eq` — a write succeeds exactly when nobody else is there.
-/

/-- An allocation. Its owners all point to the same value. -/
structure Arc (α : Type) where
  value : α
  strong : ℕ

namespace Arc

variable {α : Type}

/-- An allocation with one owner. -/
def new (value : α) : Arc α := ⟨value, 1⟩

/-- One more owner. -/
def clone (arc : Arc α) : Arc α := { arc with strong := arc.strong + 1 }

/-- One owner less. -/
def drop (arc : Arc α) : Arc α := { arc with strong := arc.strong - 1 }

/-- A write through the exclusive reference that an owner gets to the value, `none` when the
allocation has more than one. -/
def getMut (arc : Arc α) (write : α → α) : Option (Arc α) :=
  if arc.strong = 1 then some { arc with value := write arc.value } else none

/-- A new reference has its value. -/
@[simp] lemma value_new (value : α) : (new value).value = value := rfl

/-- An owner shares the allocation with `n` others. -/
def SharedWith (arc : Arc α) (n : ℕ) : Prop := arc.strong = n + 1

namespace SharedWith

variable {arc : Arc α} {n : ℕ}

/-- The owner of a new allocation is alone. -/
lemma new (value : α) : (Arc.new value).SharedWith 0 := rfl

/-- Another one comes. -/
lemma clone (h : arc.SharedWith n) : arc.clone.SharedWith (n + 1) := congrArg (· + 1) h

/-- Another one goes. -/
lemma drop (h : arc.SharedWith (n + 1)) : arc.drop.SharedWith n := congrArg (· - 1) h

/-- **A write succeeds exactly when the owner is alone**, and leaves it alone. -/
theorem getMut_eq (h : arc.SharedWith n) (write : α → α) :
    arc.getMut write = if n = 0 then some (Arc.new (write arc.value)) else none := by
  unfold SharedWith at h
  unfold getMut
  by_cases hn : n = 0
  · have hone : arc.strong = 1 := by rw [h, hn]
    rw [if_pos hn, if_pos hone, Arc.new, hone]
  · have hmore : arc.strong ≠ 1 := by omega
    rw [if_neg hn, if_neg hmore]

end SharedWith

end Arc
