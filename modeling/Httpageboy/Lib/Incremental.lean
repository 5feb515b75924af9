import Mathlib.Data.Nat.Notation
import Mathlib.Tactic.Common

set_option relaxedAutoImplicit false
set_option autoImplicit false

/-!
# Incremental decoding

A decoder looks at the bytes received so far and takes one value off the front, fails, or asks
for more. It is stable when what it decides does not change as more bytes arrive. Feeding a
stable decoder with the pieces of a string, however it is cut, is decoding the whole string.

## Main definitions

* `Incremental.Decoder` — a decoder over an alphabet.
* `Incremental.StableOn` — its decisions are final, on the strings of a set.
* `Incremental.feed` — decode as the pieces of the input arrive.

## Main results

* `Incremental.feed_eq` — feeding a stable decoder does not depend on the pieces.
-/

namespace Incremental

variable {α β ε : Type}

/-- A value and the rest of the input, a failure, or `.ok none` when more input is needed. -/
abbrev Decoder (α β ε : Type) := List α → Except ε (Option (β × List α))

/-- A decision on a string, as a decision on a longer one: the new input is left. -/
def extend (t : List α) : Except ε (Option (β × List α)) → Except ε (Option (β × List α))
  | .error e => .error e
  | .ok none => .ok none
  | .ok (some (b, rest)) => .ok (some (b, rest ++ t))

/-- The decisions of a decoder are final within the strings of a set. -/
def StableOn (S : List α → Prop) (dec : Decoder α β ε) : Prop :=
  ∀ l t, S (l ++ t) → dec l ≠ .ok none → dec (l ++ t) = extend t (dec l)

/-- Decode one value as the pieces of the input arrive: the pieces that are still to come stay
behind the rest. -/
def feed (dec : Decoder α β ε) :
    List (List α) → List α → Except ε (Option (β × List α × List (List α)))
  | pieces, buffer =>
    match dec buffer with
    | .error e => .error e
    | .ok (some (b, rest)) => .ok (some (b, rest, pieces))
    | .ok none =>
      match pieces with
      | [] => .ok none
      | piece :: pieces => feed dec pieces (buffer ++ piece)

/-- The rest of the input behind a value, with the pieces that are still to come. -/
def joined : Except ε (Option (β × List α × List (List α))) → Except ε (Option (β × List α))
  | .error e => .error e
  | .ok none => .ok none
  | .ok (some (b, rest, pieces)) => .ok (some (b, rest ++ pieces.flatten))

/-- **Feeding a stable decoder does not depend on the pieces.**

**Proof sketch.** Induction on the pieces. Once the decoder decides, the pieces to come only
make the rest longer; until then nothing is lost by waiting. -/
theorem feed_eq {S : List α → Prop} {dec : Decoder α β ε} (hdec : StableOn S dec)
    (pieces : List (List α)) (buffer : List α) (hS : S (buffer ++ pieces.flatten)) :
    joined (feed dec pieces buffer) = dec (buffer ++ pieces.flatten) := by
  induction pieces generalizing buffer with
  | nil =>
    unfold feed
    rw [List.flatten_nil, List.append_nil]
    rcases dec buffer with e | _ | ⟨b, rest⟩
    · rfl
    · rfl
    · simp [joined]
  | cons piece pieces ih =>
    have hstable := hdec buffer (piece :: pieces).flatten hS
    unfold feed
    rcases h : dec buffer with e | _ | ⟨b, rest⟩
    · rw [hstable (by simp [h]), h]
      rfl
    · have hassoc : buffer ++ (piece :: pieces).flatten = buffer ++ piece ++ pieces.flatten := by
        simp
      rw [hassoc] at hS ⊢
      exact ih _ hS
    · rw [hstable (by simp [h]), h]
      rfl

end Incremental
