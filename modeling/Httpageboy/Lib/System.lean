import Mathlib.Algebra.BigOperators.Fin
import Mathlib.Logic.Relation

set_option relaxedAutoImplicit false
set_option autoImplicit false

/-!
# Transition systems

Invariants and termination of a system whose parties take their steps in any order, and the
simulation of an abstract machine by one whose operations can fail.

## Main definitions

* `System.Reachable` — a state that some run comes to.
* `System.Inevitable` — a property that every run comes to, without getting stuck before.
* `System.InevitableAmid` — the same with events around the system.
* `System.exec` — a list of operations that can fail.
* `System.Along` — a condition on each operation of a list, and on the state it is applied in.

## Main results

* `System.Reachable.invariant` — the invariant rule.
* `System.inevitable_of_rank`, `System.inevitable_of_measure` — a measure that every step
  decreases, and a step that is possible as long as the property does not hold.
* `System.sum_update` — how a sum over the parties changes with one of them.
* `System.exec_simulates`, `System.safe_of_exec` — which lists of operations a machine that can
  fail carries out as the abstract one does.
-/

namespace System

variable {σ : Type} {step : σ → σ → Prop}

/-- Some run from `s` comes to `t`. -/
def Reachable (step : σ → σ → Prop) (s t : σ) : Prop :=
  Relation.ReflTransGen step s t

/-- The state a run starts in. -/
lemma Reachable.refl (s : σ) : Reachable step s s :=
  Relation.ReflTransGen.refl

/-- A run, and one more step. -/
lemma Reachable.next {s t u : σ} (h : Reachable step s t) (hstep : step t u) :
    Reachable step s u :=
  Relation.ReflTransGen.tail h hstep

/-- A run behind a run. -/
lemma Reachable.trans {s t u : σ} (h : Reachable step s t) (h' : Reachable step t u) :
    Reachable step s u :=
  Relation.ReflTransGen.trans h h'

/-- **The invariant rule.** -/
theorem Reachable.invariant {I : σ → Prop} {s t : σ} (h : Reachable step s t) (hs : I s)
    (hstep : ∀ t u, I t → step t u → I u) : I t := by
  induction h with
  | refl => exact hs
  | tail _ hlast ih => exact hstep _ _ ih hlast

/-- Every run comes to a state with the property: as long as it does not hold, some step is
possible, and every possible step leads to a state of which the same is true. The definition is
inductive, so that no run goes on for ever without the property. -/
inductive Inevitable (step : σ → σ → Prop) (P : σ → Prop) : σ → Prop
  | now {s : σ} (h : P s) : Inevitable step P s
  | later {s : σ} (hgo : ∃ t, step s t) (hall : ∀ t, step s t → Inevitable step P t) :
      Inevitable step P s

/-- **Termination by a measure.** When an invariant leaves a step possible as long as the property
does not hold, and every step from a state with the invariant decreases the measure, the property
is inevitable. -/
theorem inevitable_of_rank {P I : σ → Prop} (measure : σ → ℕ)
    (hstep : ∀ s t, I s → step s t → I t)
    (hgo : ∀ s, I s → P s ∨ ∃ t, step s t)
    (hdecreases : ∀ s t, I s → step s t → measure t < measure s) {s : σ} (hs : I s) :
    Inevitable step P s := by
  induction hrank : measure s using Nat.strong_induction_on generalizing s with
  | _ rank ih =>
    rcases hgo s hs with hnow | hpossible
    · exact .now hnow
    · refine .later hpossible fun t ht => ?_
      exact ih (measure t) (hrank ▸ hdecreases s t hs ht) (hstep s t hs ht) rfl

/-- The same with a measure that every step decreases. -/
theorem inevitable_of_measure {P I : σ → Prop} (measure : σ → ℕ)
    (hstep : ∀ s t, I s → step s t → I t)
    (hgo : ∀ s, I s → P s ∨ ∃ t, step s t)
    (hdecreases : ∀ s t, step s t → measure t < measure s) {s : σ} (hs : I s) :
    Inevitable step P s :=
  inevitable_of_rank measure hstep hgo (fun s t _ => hdecreases s t) hs

/-- Every run comes to a state with the property, whatever happens around the system: after any
events the property holds or a step is possible, and every step without it leads to a state of
which the same is true. The definition is inductive, so that no run takes steps for ever without
the property, with events in between. -/
inductive InevitableAmid (step event : σ → σ → Prop) (P : σ → Prop) : σ → Prop
  | later {s : σ} (hgo : ∀ t, Reachable event s t → P t ∨ ∃ u, step t u)
      (hall : ∀ t u, Reachable event s t → ¬ P t → step t u → InevitableAmid step event P u) :
      InevitableAmid step event P s

/-- **Termination amid events.** The rule of `inevitable_of_rank`, with events that keep the
invariant and do not increase the measure. Steps from states with the property need not
decrease it. -/
theorem inevitableAmid_of_rank {event : σ → σ → Prop} {P I : σ → Prop} (measure : σ → ℕ)
    (hstep : ∀ s t, I s → step s t → I t) (hevent : ∀ s t, I s → event s t → I t)
    (hgo : ∀ s, I s → P s ∨ ∃ t, step s t)
    (hdecreases : ∀ s t, I s → ¬ P s → step s t → measure t < measure s)
    (hkeeps : ∀ s t, I s → event s t → measure t ≤ measure s) {s : σ} (hs : I s) :
    InevitableAmid step event P s := by
  induction hrank : measure s using Nat.strong_induction_on generalizing s with
  | _ rank ih =>
    have hamid : ∀ t, Reachable event s t → I t ∧ measure t ≤ measure s := by
      intro t ht
      refine ht.invariant (I := fun t => I t ∧ measure t ≤ measure s) ⟨hs, le_rfl⟩ ?_
      rintro t u ⟨hI, hle⟩ hnext
      exact ⟨hevent t u hI hnext, (hkeeps t u hI hnext).trans hle⟩
    refine .later (fun t ht => hgo t (hamid t ht).1) fun t u ht hnot hu => ?_
    obtain ⟨hI, hle⟩ := hamid t ht
    have hlt := hdecreases t u hI hnot hu
    exact ih (measure u) (hrank ▸ hlt.trans_le hle) (hstep t u hI hu) rfl

/-! ## Sums over the parties -/

section Parties

variable {ι α M : Type} [Fintype ι] [DecidableEq ι] [AddCommMonoid M]

/-- When one party changes its state, what it had leaves the sum, and what it has comes in. -/
theorem sum_update (f : α → M) (party : ι → α) (i : ι) (x : α) :
    ∑ j, f (Function.update party i x j) + f (party i) = ∑ j, f (party j) + f x := by
  have hcomp : (fun j => f (Function.update party i x j)) =
      Function.update (fun j => f (party j)) i (f x) := by
    funext j
    exact Function.apply_update (fun _ => f) party i x j
  have hsplit : ∑ j, f (party j) = f (party i) + ∑ j ∈ Finset.univ \ {i}, f (party j) :=
    Finset.sum_eq_add_sum_sdiff_singleton_of_mem (Finset.mem_univ i) _
  rw [hcomp, Finset.sum_update_of_mem (Finset.mem_univ i), hsplit, add_right_comm, add_assoc,
    add_comm]

end Parties

/-! ## Operations that can fail -/

section Simulation

variable {α ε : Type}

/-- The operations of a list, one after the other; `none` when one of them fails. -/
def exec (op : σ → ε → Option σ) (s : σ) (ops : List ε) : Option σ := ops.foldlM op s

/-- The first operation, and the others behind it. -/
lemma exec_cons (op : σ → ε → Option σ) (s : σ) (e : ε) (ops : List ε) :
    exec op s (e :: ops) = (op s e).bind fun t => exec op t ops := rfl

/-- Two lists of operations. -/
lemma exec_append (op : σ → ε → Option σ) (s : σ) (ops ops' : List ε) :
    exec op s (ops ++ ops') = (exec op s ops).bind fun t => exec op t ops' :=
  List.foldlM_append

/-- Every operation of a list satisfies a condition in the state of the abstract machine it is
applied in. -/
def Along (next : α → ε → α) (P : α → ε → Prop) : α → List ε → Prop
  | _, [] => True
  | a, e :: ops => P a e ∧ Along next P (next a e) ops

variable {op : σ → ε → Option σ} {next : α → ε → α} {Enabled Safe : α → ε → Prop}
  {R : α → σ → Prop} {a : α} {s : σ} {ops : List ε}

/-- **Simulation.** When every operation that is enabled and safe succeeds, and keeps the state
related to that of the abstract machine, the operations of a list that are enabled and safe succeed
one after the other, with related states all along.

**Proof sketch.** Induction on the operations: each step is simulated, and the relation holds behind
it. -/
theorem exec_simulates
    (hsafe : ∀ a s e, R a s → Enabled a e → Safe a e → ∃ t, op s e = some t ∧ R (next a e) t)
    (hs : R a s) (henabled : Along next Enabled a ops) (hops : Along next Safe a ops)
    {before : List ε} (hbefore : before <+: ops) :
    ∃ t, exec op s before = some t ∧ R (before.foldl next a) t := by
  induction ops generalizing a s before with
  | nil =>
    rw [List.prefix_nil.1 hbefore]
    exact ⟨s, rfl, hs⟩
  | cons e ops ih =>
    cases before with
    | nil => exact ⟨s, rfl, hs⟩
    | cons e' before =>
      obtain ⟨rfl, hrest⟩ := List.cons_prefix_cons.1 hbefore
      obtain ⟨t, ht, hR⟩ := hsafe a s e' hs henabled.1 hops.1
      rw [exec_cons, ht, Option.bind_some]
      exact ih hR henabled.2 hops.2 hrest

/-- When moreover every operation that is not safe fails, a list of enabled operations that
succeeds is safe.

**Proof sketch.** Induction on the list. Its first operation has succeeded, so it is safe, and the
states behind it are related. -/
theorem safe_of_exec
    (hsafe : ∀ a s e, R a s → Enabled a e → Safe a e → ∃ t, op s e = some t ∧ R (next a e) t)
    (hfails : ∀ a s e, R a s → ¬ Safe a e → op s e = none)
    (hs : R a s) (henabled : Along next Enabled a ops) {t : σ} (ht : exec op s ops = some t) :
    Along next Safe a ops := by
  induction ops generalizing a s with
  | nil => trivial
  | cons e ops ih =>
    have hfirst : Safe a e := by
      by_contra hnot
      rw [exec_cons, hfails a s e hs hnot] at ht
      exact Option.some_ne_none t ht.symm
    obtain ⟨u, hu, hR⟩ := hsafe a s e hs henabled.1 hfirst
    rw [exec_cons, hu, Option.bind_some] at ht
    exact ⟨hfirst, ih hR henabled.2 ht⟩

end Simulation

end System
