import Mathlib.Data.Nat.Notation
import Mathlib.Tactic.Common

set_option relaxedAutoImplicit false
set_option autoImplicit false

/-!
# Loops with an early exit

A loop whose body returns a result in each turn and goes on or not, depending on the result.
The body may also block for good, which is how a run ends that waits for its environment.

## Main definitions

* `Loop.run` — at most `n` turns of a loop, and the state it would go on in.
* `Loop.Reaches` — a loop comes back to its head in some state.

## Main results

* `Loop.run_history` — the invariant rule.
* `Loop.Reaches.invariant` — the invariant rule for the head of the loop.
* `Loop.reaches_of_next` — a run that has not left the loop is at its head.
* `Loop.run_spec` — the loop goes on behind a turn exactly when its result says so.
* `Loop.run_consecutive` — a turn starts where the one before it has ended.
* `Loop.run_length` — a bound on the turns from a rank that going on decreases.
* `Loop.run_extend` — one more turn of a run.
* `Loop.run_simulates` — loops that take the same turns have the same runs.
-/

namespace Loop

variable {σ β : Type}

/-- A run: the results of the turns, each with the state it leaves, and the state in which the
loop takes its next turn, if it has not been left. -/
structure Trace (σ β : Type) where
  turns : List (β × σ)
  next : Option σ

/-- A turn in front of a run. -/
def Trace.cons (turn : β × σ) (trace : Trace σ β) : Trace σ β :=
  ⟨turn :: trace.turns, trace.next⟩

/-- At most `n` turns of the loop with the given body. The loop goes on behind the results that
satisfy `continues`; it stays where it is when the body blocks. -/
def run (body : σ → Option (β × σ)) (continues : β → Bool) : ℕ → σ → Trace σ β
  | 0, s => ⟨[], some s⟩
  | n + 1, s =>
    match body s with
    | none => ⟨[], some s⟩
    | some (b, s') =>
      if continues b then .cons (b, s') (run body continues n s') else ⟨[(b, s')], none⟩

variable {body : σ → Option (β × σ)} {continues : β → Bool}

/-- **The invariant rule.** The invariant may speak of the turns taken so far. When every turn
that the loop goes on behind preserves it, each turn of a run starts from a state that satisfies
it with the turns in front. -/
theorem run_history {I : List (β × σ) → σ → Prop}
    (hbody : ∀ past s b s', I past s → body s = some (b, s') → continues b = true →
      I (past ++ [(b, s')]) s')
    {n : ℕ} {past : List (β × σ)} {s : σ} (hs : I past s) {before after : List (β × σ)} {b : β}
    {s' : σ} (h : (run body continues n s).turns = before ++ (b, s') :: after) :
    ∃ t, I (past ++ before) t ∧ body t = some (b, s') := by
  induction n generalizing s past before with
  | zero => simp [run] at h
  | succ n ih =>
    unfold run at h
    rcases hcall : body s with _ | ⟨c, t⟩
    · simp [hcall] at h
    simp only [hcall] at h
    cases before with
    | nil =>
      have hturn : (c, t) = (b, s') := by
        by_cases hcont : continues c = true
        · rw [if_pos hcont] at h
          exact (List.cons.inj h).1
        · rw [if_neg hcont] at h
          exact (List.cons.inj h).1
      cases hturn
      exact ⟨s, by rwa [List.append_nil], hcall⟩
    | cons turn before =>
      by_cases hcont : continues c = true
      · rw [if_pos hcont] at h
        obtain ⟨rfl, hrest⟩ := List.cons.inj h
        have hnext := ih (hbody past s c t hs hcall hcont) hrest
        rwa [List.append_assoc, List.singleton_append] at hnext
      · rw [if_neg hcont] at h
        simp at h

/-- A result that ends the loop is the last one, and the loop is left; otherwise the loop takes
its next turn from the state the turn leaves.

**Proof sketch.** Induction on the bound, along the turns in front of the one in question. -/
theorem run_spec {n : ℕ} {s : σ} {before after : List (β × σ)} {b : β} {s' : σ}
    (h : (run body continues n s).turns = before ++ (b, s') :: after) :
    (continues b = false → after = [] ∧ (run body continues n s).next = none) ∧
      (continues b = true → after = [] → (run body continues n s).next = some s') := by
  induction n generalizing s before with
  | zero => simp [run] at h
  | succ n ih =>
    unfold run at h ⊢
    rcases hcall : body s with _ | ⟨c, t⟩
    · simp [hcall] at h
    simp only [hcall] at h ⊢
    by_cases hcont : continues c = true
    · simp only [if_pos hcont, Trace.cons] at h ⊢
      cases before with
      | nil =>
        obtain ⟨hturn, hafter⟩ := List.cons.inj h
        cases hturn
        refine ⟨fun hstop => by simp [hcont] at hstop, fun _ hnil => ?_⟩
        rw [hnil] at hafter
        cases n with
        | zero => rfl
        | succ n =>
          unfold run at hafter ⊢
          rcases hcall' : body s' with _ | ⟨c, t⟩
          · rfl
          · simp only [hcall'] at hafter
            by_cases hcont' : continues c = true
            · simp [if_pos hcont', Trace.cons] at hafter
            · simp [if_neg hcont'] at hafter
      | cons turn before =>
        obtain ⟨-, hrest⟩ := List.cons.inj h
        exact ih hrest
    · simp only [if_neg hcont] at h ⊢
      cases before with
      | nil =>
        obtain ⟨hturn, hafter⟩ := List.cons.inj h
        cases hturn
        exact ⟨fun _ => ⟨hafter.symm, trivial⟩, fun hgo => absurd hgo hcont⟩
      | cons turn before => simp at h

/-- A turn starts in the state that the turn before it leaves. -/
theorem run_consecutive {n : ℕ} {s : σ} {before after : List (β × σ)} {b c : β} {s' t : σ}
    (h : (run body continues n s).turns = before ++ (b, s') :: (c, t) :: after) :
    body s' = some (c, t) := by
  have hlast : ∀ (past : List (β × σ)) (s : σ) b s',
      (past = [] ∨ past.getLast?.map Prod.snd = some s) → body s = some (b, s') →
      continues b = true →
      past ++ [(b, s')] = [] ∨ (past ++ [(b, s')]).getLast?.map Prod.snd = some s' := by
    intro past s b s' _ _ _
    right
    rw [List.getLast?_concat, Option.map_some]
  have hsplit : (run body continues n s).turns = (before ++ [(b, s')]) ++ (c, t) :: after := by
    rw [h, List.append_assoc, List.singleton_append]
  obtain ⟨u, hu, hturn⟩ := run_history hlast (.inl rfl) hsplit
  rw [List.nil_append, List.getLast?_concat, Option.map_some] at hu
  rcases hu with hu | hu
  · cases List.append_ne_nil_of_right_ne_nil before (List.cons_ne_nil _ _) hu
  · obtain rfl : s' = u := Option.some.inj hu
    exact hturn

/-- A loop that goes on only while a rank decreases and stays positive takes no more turns than
the rank it starts with, and one in any case. -/
theorem run_length {rank : σ → ℕ}
    (hbody : ∀ s b s', body s = some (b, s') → continues b = true →
      rank s' < rank s ∧ 0 < rank s') (n : ℕ) (s : σ) :
    (run body continues n s).turns.length ≤ max 1 (rank s) := by
  induction n generalizing s with
  | zero => simp [run]
  | succ n ih =>
    unfold run
    rcases hcall : body s with _ | ⟨b, s'⟩
    · simp
    simp only
    by_cases hcont : continues b = true
    · obtain ⟨hlt, hpos⟩ := hbody s b s' hcall hcont
      have hrest := ih s'
      simp only [if_pos hcont, Trace.cons, List.length_cons]
      omega
    · simp only [if_neg hcont, List.length_singleton]
      exact Nat.le_max_left 1 (rank s)

/-- **One more turn of a run** that is still at the head of the loop, and took all the turns it
might. -/
theorem run_extend {turns : List (β × σ)} {s t t' : σ} {b : β}
    (hrun : run body continues turns.length s = ⟨turns, some t⟩) (hbody : body t = some (b, t')) :
    run body continues (turns.length + 1) s =
      ⟨turns ++ [(b, t')], if continues b then some t' else none⟩ := by
  induction turns generalizing s with
  | nil =>
    obtain rfl : s = t := Option.some.inj (congrArg Trace.next hrun)
    rw [List.length_nil, run, hbody]
    simp only
    cases continues b <;> rfl
  | cons turn turns ih =>
    rw [List.length_cons, run] at hrun
    rw [List.length_cons, run]
    rcases hcall : body s with _ | ⟨c, u⟩
    · rw [hcall] at hrun
      cases congrArg Trace.turns hrun
    · rw [hcall] at hrun
      simp only at hrun ⊢
      cases hcont : continues c with
      | false =>
        rw [hcont] at hrun
        cases congrArg Trace.next hrun
      | true =>
        simp only [hcont, if_true, Trace.cons, Trace.mk.injEq, List.cons.injEq] at hrun ⊢
        obtain ⟨⟨rfl, hturns⟩, hnext⟩ := hrun
        have hrest : run body continues turns.length u =
            ⟨(run body continues turns.length u).turns, (run body continues turns.length u).next⟩ :=
          rfl
        rw [hturns, hnext] at hrest
        rw [ih hrest]
        exact ⟨rfl, rfl⟩

/-- **Simulation of loops.** When the turns of a loop are those of another one, up to a relation,
from states that are related, so are its runs. The turns need to agree only for the results that
the first run comes to.

**Proof sketch.** Induction on the number of turns. The first turns agree, so both loops are left
or both go on, in related states. -/
theorem run_simulates {σ' β' : Type} {body' : σ' → Option (β' × σ')} {continues' : β' → Bool}
    {R : σ → σ' → Prop} {Q : β → β' → Prop} {Good : β → Prop}
    (hbody : ∀ s s' b t, R s s' → body s = some (b, t) → Good b →
      ∃ b' t', body' s' = some (b', t') ∧ Q b b' ∧ R t t')
    (hblocks : ∀ s s', R s s' → body s = none → body' s' = none)
    (hcont : ∀ b b', Q b b' → continues b = continues' b') {n : ℕ} {s : σ} {s' : σ'}
    (hs : R s s') (hgood : ∀ turn ∈ (run body continues n s).turns, Good turn.1) :
    List.Forall₂ (fun turn turn' => Q turn.1 turn'.1 ∧ R turn.2 turn'.2)
        (run body continues n s).turns (run body' continues' n s').turns ∧
      Option.Rel R (run body continues n s).next (run body' continues' n s').next := by
  induction n generalizing s s' with
  | zero => exact ⟨.nil, .some hs⟩
  | succ n ih =>
    unfold run at hgood ⊢
    rcases hcall : body s with _ | ⟨b, t⟩
    · rw [hblocks s s' hs hcall]
      exact ⟨.nil, .some hs⟩
    · simp only [hcall] at hgood
      have hfirst : Good b := by
        cases hgo : continues b with
        | false => exact hgood (b, t) (by simp [hgo])
        | true => exact hgood (b, t) (by simp [hgo, Trace.cons])
      obtain ⟨b', t', hcall', hQ, hR⟩ := hbody s s' b t hs hcall hfirst
      simp only [hcall', ← hcont b b' hQ]
      cases hgo : continues b with
      | false => exact ⟨.cons ⟨hQ, hR⟩ .nil, .none⟩
      | true =>
        have hrest := ih hR fun turn hturn => hgood turn (by simp [hgo, Trace.cons, hturn])
        exact ⟨.cons ⟨hQ, hR⟩ hrest.1, hrest.2⟩

/-! ## The head of the loop -/

/-- After any number of turns that the loop goes on behind, it is in a given state. -/
inductive Reaches (body : σ → Option (β × σ)) (continues : β → Bool) (s : σ) : σ → Prop
  | start : Reaches body continues s s
  | turn {t t' : σ} {b : β} (h : Reaches body continues s t) (hbody : body t = some (b, t'))
      (hcont : continues b = true) : Reaches body continues s t'

/-- **The invariant rule for the head of the loop.** -/
theorem Reaches.invariant {I : σ → Prop} {s t : σ} (h : Reaches body continues s t) (hs : I s)
    (hstep : ∀ t b t', I t → body t = some (b, t') → continues b = true → I t') : I t := by
  induction h with
  | start => exact hs
  | turn _ hbody hcont ih => exact hstep _ _ _ ih hbody hcont

/-- One more turn in front. -/
lemma Reaches.cons {s t u : σ} {b : β} (hbody : body s = some (b, t)) (hcont : continues b = true)
    (h : Reaches body continues t u) : Reaches body continues s u := by
  induction h with
  | start => exact .turn .start hbody hcont
  | turn _ hlast hgo ih => exact .turn ih hlast hgo

/-- A run that has not left the loop is at its head. -/
theorem reaches_of_next {n : ℕ} {s t : σ} (h : (run body continues n s).next = some t) :
    Reaches body continues s t := by
  induction n generalizing s with
  | zero =>
    obtain rfl : s = t := Option.some.inj h
    exact .start
  | succ n ih =>
    unfold run at h
    rcases hcall : body s with _ | ⟨b, u⟩
    · rw [hcall] at h
      obtain rfl : s = t := Option.some.inj h
      exact .start
    · simp only [hcall] at h
      cases hcont : continues b with
      | false =>
        rw [hcont] at h
        cases h
      | true =>
        rw [hcont] at h
        exact (ih h).cons hcall hcont

end Loop
