import Httpageboy.Lib.Loop
import Mathlib.Data.List.TakeWhile

set_option relaxedAutoImplicit false
set_option autoImplicit false

/-!
# The accept loops

`Server::run` of the four runtimes. What the listener does is a schedule: the list of the
outcomes of `accept` to come. A finite schedule describes a prefix of a run: when it is used up, a
loop that has not been left waits in its next `accept`. The loops differ in what they do behind
an error.

## Main definitions

* `Httpageboy.acceptLoop` — a loop over the outcomes of `accept`.
* `Httpageboy.Runtime.run` — the loop of each runtime.
* `Httpageboy.Runtime.Survives` — every accepted stream is served, and the loop goes on.

## Main results

* `Httpageboy.Runtime.served_asyncStd` — what the loop of `async_std` serves.
* `Httpageboy.Runtime.survives_iff` — which loops survive which outcomes.
-/

namespace Httpageboy

variable {E S : Type}

/-- An outcome of `accept`: an I/O error, or a stream. -/
abbrev Accepted (E S : Type) := Except E S

/-- One turn of an accept loop: the next outcome of `accept`, `none` while it waits for one. -/
def accept : List (Accepted E S) → Option (Accepted E S × List (Accepted E S))
  | [] => none
  | outcome :: outcomes => some (outcome, outcomes)

/-- What an accept loop has come to: the streams passed to `handle_stream`, in order, and whether
the loop is still there, waiting in `accept`. -/
structure Serving (S : Type) where
  served : List S
  accepting : Bool
  deriving DecidableEq

/-- The loop over the outcomes of `accept` that goes on behind the outcomes that satisfy
`continues` and passes every stream to `handle_stream`. -/
def acceptLoop (continues : Accepted E S → Bool) (outcomes : List (Accepted E S)) : Serving S :=
  let trace := Loop.run accept continues outcomes.length outcomes
  { served := trace.turns.filterMap fun turn => turn.1.toOption
    accepting := trace.next.isSome }

/-- `Server::run` of the synchronous server: `for stream in self.listener.incoming()`, an
iterator without an end, with a `match` that ignores errors. -/
def Sync.run (outcomes : List (Accepted E S)) : Serving S := acceptLoop (fun _ => true) outcomes

/-- `Server::run` on `tokio`: `loop` around `if let Ok(..) = accept()`. -/
def Tokio.run (outcomes : List (Accepted E S)) : Serving S := acceptLoop (fun _ => true) outcomes

/-- `Server::run` on `smol`: `loop` around `if let Ok(..) = accept()`. -/
def Smol.run (outcomes : List (Accepted E S)) : Serving S := acceptLoop (fun _ => true) outcomes

/-- `Server::run` on `async_std`: `while let Ok(..) = accept()`. -/
def AsyncStd.run (outcomes : List (Accepted E S)) : Serving S :=
  acceptLoop (fun outcome => outcome.toOption.isSome) outcomes

/-- The four runtimes. -/
inductive Runtime where
  | sync
  | tokio
  | smol
  | asyncStd
  deriving DecidableEq, Repr

namespace Runtime

/-- `Server::run` of a runtime. -/
def run : Runtime → List (Accepted E S) → Serving S
  | .sync => Sync.run
  | .tokio => Tokio.run
  | .smol => Smol.run
  | .asyncStd => AsyncStd.run

/-- The loop has served exactly the accepted streams, in order, and is still accepting. -/
def Survives (runtime : Runtime) (outcomes : List (Accepted E S)) : Prop :=
  (runtime.run outcomes).served = outcomes.filterMap Except.toOption ∧
    (runtime.run outcomes).accepting = true

end Runtime

/-- What an accept loop does with the next outcome. -/
lemma acceptLoop_cons (continues : Accepted E S → Bool) (outcome : Accepted E S)
    (outcomes : List (Accepted E S)) :
    acceptLoop continues (outcome :: outcomes) =
      { served := outcome.toOption.toList ++
          if continues outcome then (acceptLoop continues outcomes).served else []
        accepting := continues outcome && (acceptLoop continues outcomes).accepting } := by
  have hrun : Loop.run accept continues (outcomes.length + 1) (outcome :: outcomes) =
      if continues outcome then
        .cons (outcome, outcomes) (Loop.run accept continues outcomes.length outcomes)
      else ⟨[(outcome, outcomes)], none⟩ := rfl
  unfold acceptLoop
  rw [List.length_cons, hrun]
  cases continues outcome with
  | false => cases outcome <;> rfl
  | true => cases outcome <;> rfl

/-- A loop that goes on behind every outcome serves all streams. -/
lemma acceptLoop_always (outcomes : List (Accepted E S)) :
    acceptLoop (fun _ => true) outcomes =
      { served := outcomes.filterMap Except.toOption, accepting := true } := by
  induction outcomes with
  | nil => rfl
  | cons outcome outcomes ih =>
    rw [acceptLoop_cons, ih]
    cases outcome <;> rfl

namespace Runtime

/-- **The loop of `async_std` ends at the first error**: it serves the streams in front of it, and
is still accepting only when there is none. -/
theorem served_asyncStd (outcomes : List (Accepted E S)) :
    asyncStd.run outcomes =
      { served := (outcomes.takeWhile fun outcome => outcome.toOption.isSome).filterMap
          Except.toOption
        accepting := outcomes.all fun outcome => outcome.toOption.isSome } := by
  show acceptLoop _ outcomes = _
  induction outcomes with
  | nil => rfl
  | cons outcome outcomes ih =>
    rw [acceptLoop_cons, ih]
    cases outcome <;> rfl

/-- **Which loops survive which outcomes.** The loops of the synchronous server, of `tokio` and of
`smol` survive every sequence of outcomes of `accept`; the loop of `async_std` survives those
without an error.

**Proof sketch.** A loop with a pattern in its condition ends at the first error; the other three go
on behind it. So they differ exactly when there is one in front of a connection. -/
theorem survives_iff (runtime : Runtime) (outcomes : List (Accepted E S)) :
    runtime.Survives outcomes ↔
      (runtime = .asyncStd → ∀ outcome ∈ outcomes, ∃ stream, outcome = .ok stream) := by
  have halways : ∀ other : Runtime, other ≠ .asyncStd → other.Survives outcomes := by
    intro other hother
    have hrun : other.run outcomes = acceptLoop (fun _ => true) outcomes := by
      cases other with
      | asyncStd => exact absurd rfl hother
      | _ => rfl
    unfold Survives
    rw [hrun, acceptLoop_always]
    exact ⟨rfl, rfl⟩
  by_cases hruntime : runtime = .asyncStd
  · subst hruntime
    have hok : (outcomes.all fun outcome => outcome.toOption.isSome) = true ↔
        ∀ outcome ∈ outcomes, ∃ stream, outcome = .ok stream := by
      rw [List.all_eq_true]
      refine forall₂_congr fun outcome _ => ?_
      cases outcome <;> simp [Except.toOption]
    unfold Survives
    rw [served_asyncStd, hok]
    constructor
    · rintro ⟨-, hall⟩ -
      exact hall
    · intro hall
      refine ⟨?_, hall rfl⟩
      rw [List.takeWhile_eq_self_iff.2 fun outcome hmem =>
        List.all_eq_true.1 (hok.2 (hall rfl)) outcome hmem]
  · exact ⟨fun _ heq => absurd heq hruntime, fun _ => halways runtime hruntime⟩

/-- One failed `accept` ends the loop of `async_std`, and the others serve the next client. -/
theorem asyncStd_not_survives :
    ¬ asyncStd.Survives [(.error () : Accepted Unit ℕ), .ok 7] ∧
    asyncStd.run [(.error () : Accepted Unit ℕ), .ok 7] = ⟨[], false⟩ ∧
    sync.run [(.error () : Accepted Unit ℕ), .ok 7] = ⟨[7], true⟩ ∧
    tokio.run [(.error () : Accepted Unit ℕ), .ok 7] = ⟨[7], true⟩ ∧
    smol.run [(.error () : Accepted Unit ℕ), .ok 7] = ⟨[7], true⟩ := by
  refine ⟨fun h => ?_, rfl, rfl, rfl, rfl⟩
  cases h.2

end Runtime

end Httpageboy
