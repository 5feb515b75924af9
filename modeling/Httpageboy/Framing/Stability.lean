import Httpageboy.Framing.Conservation
import Httpageboy.Lib.Incremental

set_option relaxedAutoImplicit false
set_option autoImplicit false

/-!
# Stability of the framer

The framer runs on a growing prefix of what the client sends. Its decisions do not change as
more bytes arrive: a request stays the request that is taken, and an error stays the error.

## Main definitions

* `Httpageboy.FitsWord` — the lengths the framer compares fit a machine word.
* `Httpageboy.frame` — the framer as a decoder.

## Main results

* `Httpageboy.chunkLoop_append` — the chunk loop is stable.
* `Httpageboy.takeFramedRequest_append`, `Httpageboy.frame_stable` — the framer is stable.
-/

namespace Httpageboy

open Search Incremental

/-- The lengths the framer compares fit a machine word: the header limit is below the largest
word, or the buffer is no longer than that. -/
def FitsWord (limits : RequestLimits) (bytes : Bytes) : Prop :=
  limits.headerBytes < usizeMax ∨ bytes.length ≤ usizeMax

/-- Shorter buffers fit too. -/
lemma FitsWord.mono {limits : RequestLimits} {bytes bytes' : Bytes} (h : FitsWord limits bytes)
    (hle : bytes'.length ≤ bytes.length) : FitsWord limits bytes' := by
  rcases h with h | h
  · exact .inl h
  · exact .inr (Nat.le_trans hle h)

/-! ## The chunk loop -/

/-- A complete trailer section stays complete, and a wrong one stays wrong.

**Proof sketch.** A blank line stays the first one when more bytes arrive. If there was none, the
section was too long already, and the first blank line of the longer buffer ends behind the limit,
too. -/
lemma takeTrailer_append {limits : RequestLimits} {rest : Bytes} (t : Bytes)
    (h : takeTrailer limits rest ≠ .ok none) :
    takeTrailer limits (rest ++ t) = (takeTrailer limits rest).map (Option.map (· ++ t)) := by
  unfold takeTrailer at h ⊢
  by_cases hlen : rest.length < 2
  · rw [if_pos hlen] at h
    exact absurd rfl h
  have hlen' : ¬ (rest ++ t).length < 2 := by
    rw [List.length_append]
    omega
  have htake : (rest ++ t).take 2 = rest.take 2 :=
    List.take_append_of_le_length (by omega)
  rw [if_neg hlen] at h ⊢
  rw [if_neg hlen', htake]
  by_cases hempty : rest.take 2 = crlf
  · rw [if_pos hempty, if_pos hempty, List.drop_append_of_le_length (by omega)]
    rfl
  rw [if_neg hempty] at h ⊢
  rw [if_neg hempty]
  cases hpos : position crlfcrlf rest with
  | none =>
    simp only [hpos] at h ⊢
    by_cases hlong : rest.length > limits.headerBytes
    · rw [if_pos hlong]
      cases hpos' : position crlfcrlf (rest ++ t) with
      | none =>
        have hlong' : (rest ++ t).length > limits.headerBytes := by
          rw [List.length_append]
          omega
        simp only [if_pos hlong']
        rfl
      | some i =>
        -- the blank line ends behind what was there, which is too long already
        have hend : rest.length < i + 4 := length_lt_of_position_append hpos hpos'
        have hlong' : i + 4 > limits.headerBytes := by omega
        simp only [if_pos hlong']
        rfl
    · rw [if_neg hlong] at h
      exact absurd rfl h
  | some i =>
    have hle : i + 4 ≤ rest.length := length_of_position hpos
    have htake : (rest ++ t).take i = rest.take i :=
      List.take_append_of_le_length (by omega)
    have hdrop : (rest ++ t).drop (i + 4) = rest.drop (i + 4) ++ t :=
      List.drop_append_of_le_length hle
    simp only [position_append hpos t, htake, hdrop]
    by_cases hlong : i + 4 > limits.headerBytes
    · simp only [if_pos hlong]
      rfl
    simp only [if_neg hlong]
    cases Utf8.decode (rest.take i) with
    | none => rfl
    | some trailer =>
      simp only
      split <;> rfl

/-- What a turn of the chunk loop comes to when more bytes follow. -/
def ChunkStep.append (t : Bytes) : ChunkStep → ChunkStep
  | .wait => .wait
  | .last rest => .last (rest ++ t)
  | .chunk data rest cursor metadataBytes => .chunk data (rest ++ t) cursor metadataBytes

/-- A turn that does not wait for more bytes does not change when they arrive.

**Proof sketch.** Follow the branches of the turn. The line, the data and the terminator were
there, so they are found again. A line that is missing in a suffix longer than the limit ends
behind that suffix when it arrives, so it is over the limit, too. -/
lemma chunkStep_append {limits : RequestLimits} {cursor decodedLen metadataBytes : ℕ}
    {rest : Bytes} (t : Bytes) (hword : FitsWord limits (rest ++ t))
    (h : chunkStep limits cursor rest decodedLen metadataBytes ≠ .ok .wait) :
    chunkStep limits cursor (rest ++ t) decodedLen metadataBytes =
      (chunkStep limits cursor rest decodedLen metadataBytes).map (ChunkStep.append t) := by
  unfold chunkStep at h ⊢
  cases hpos : findCrlf rest with
  | none =>
    simp only [hpos] at h ⊢
    by_cases hlong : rest.length > limits.headerBytes
    · rw [if_pos hlong]
      cases hpos' : findCrlf (rest ++ t) with
      | none =>
        have hlong' : (rest ++ t).length > limits.headerBytes := by
          rw [List.length_append]
          omega
        simp only [if_pos hlong']
        rfl
      | some lineLen =>
        have hend : rest.length < lineLen + 2 := length_lt_of_position_append hpos hpos'
        have hlen : lineLen + 2 ≤ (rest ++ t).length := length_of_position hpos'
        have hlong' : saturatingAdd metadataBytes (lineLen + 2) > limits.headerBytes := by
          unfold saturatingAdd
          rcases hword with hword | hword
          · omega
          · omega
        simp only [if_pos hlong']
        rfl
    · rw [if_neg hlong] at h
      exact absurd rfl h
  | some lineLen =>
    have hle : lineLen + 2 ≤ rest.length := length_of_position hpos
    have hpos' : findCrlf (rest ++ t) = some lineLen := position_append hpos t
    have htake : (rest ++ t).take lineLen = rest.take lineLen :=
      List.take_append_of_le_length (by omega)
    have hdrop : (rest ++ t).drop (lineLen + 2) = rest.drop (lineLen + 2) ++ t :=
      List.drop_append_of_le_length hle
    simp only [hpos, hpos', htake, hdrop] at h ⊢
    generalize rest.drop (lineLen + 2) = tail at h ⊢
    by_cases hmeta : saturatingAdd metadataBytes (lineLen + 2) > limits.headerBytes
    · simp only [if_pos hmeta]
      rfl
    simp only [if_neg hmeta] at h ⊢
    cases hsize : chunkSize (rest.take lineLen) with
    | error status => rfl
    | ok size =>
      simp only [hsize] at h ⊢
      by_cases hzero : size = 0
      · simp only [if_pos hzero] at h ⊢
        cases htrailer : takeTrailer limits tail with
        | error status =>
          rw [takeTrailer_append t (by simp [htrailer]), htrailer]
          rfl
        | ok result =>
          cases result with
          | none => simp [htrailer] at h
          | some rest' =>
            rw [takeTrailer_append t (by simp [htrailer]), htrailer]
            rfl
      simp only [if_neg hzero] at h ⊢
      by_cases hbody : saturatingAdd decodedLen size > limits.bodyBytes
      · simp only [if_pos hbody]
        rfl
      simp only [if_neg hbody] at h ⊢
      cases hdata : checkedAdd (cursor + lineLen + 2) size with
      | none => rfl
      | some dataEnd =>
        simp only [hdata] at h ⊢
        cases hend : checkedAdd dataEnd 2 with
        | none => rfl
        | some chunkEnd =>
          simp only [hend] at h ⊢
          by_cases hshort : tail.length < size + 2
          · rw [if_pos hshort] at h
            exact absurd rfl h
          have hshort' : ¬ (tail ++ t).length < size + 2 := by
            rw [List.length_append]
            omega
          have hterminator : ((tail ++ t).drop size).take 2 = (tail.drop size).take 2 := by
            rw [List.drop_append_of_le_length (by omega)]
            refine List.take_append_of_le_length ?_
            rw [List.length_drop]
            omega
          have hdataEq : (tail ++ t).take size = tail.take size :=
            List.take_append_of_le_length (by omega)
          have hrest : (tail ++ t).drop (size + 2) = tail.drop (size + 2) ++ t :=
            List.drop_append_of_le_length (by omega)
          rw [if_neg hshort, if_neg hshort', hterminator, hdataEq, hrest]
          by_cases hcrlf : (tail.drop size).take 2 ≠ crlf
          · rw [if_pos hcrlf, if_pos hcrlf]
            rfl
          · rw [if_neg hcrlf, if_neg hcrlf]
            rfl

/-- One turn of the chunk loop and what follows it. -/
lemma chunkLoop_eq (limits : RequestLimits) (cursor : ℕ) (rest decoded : Bytes)
    (metadataBytes : ℕ) :
    chunkLoop limits cursor rest decoded metadataBytes =
      match chunkStep limits cursor rest decoded.length metadataBytes with
      | .error status => .error status
      | .ok .wait => .ok none
      | .ok (.last rest) => .ok (some (decoded, rest))
      | .ok (.chunk data rest cursor metadataBytes) =>
        chunkLoop limits cursor rest (decoded ++ data) metadataBytes := by
  rw [chunkLoop]
  split <;> simp_all

/-- The chunk loop does not change its mind when more bytes arrive.

**Proof sketch.** Induction along the loop: every turn but the one that waits is the same when
more bytes follow. -/
theorem chunkLoop_append {limits : RequestLimits} {cursor metadataBytes : ℕ} {rest decoded : Bytes}
    (t : Bytes) (hword : FitsWord limits (rest ++ t))
    (h : chunkLoop limits cursor rest decoded metadataBytes ≠ .ok none) :
    chunkLoop limits cursor (rest ++ t) decoded metadataBytes =
      extend t (chunkLoop limits cursor rest decoded metadataBytes) := by
  fun_induction chunkLoop limits cursor rest decoded metadataBytes with
  | case1 cursor rest decoded metadataBytes status hstep =>
    rw [chunkLoop_eq, chunkStep_append t hword (by simp [hstep]), hstep]
    rfl
  | case2 => simp at h
  | case3 cursor rest decoded metadataBytes tail hstep =>
    rw [chunkLoop_eq, chunkStep_append t hword (by simp [hstep]), hstep]
    rfl
  | case4 cursor rest decoded metadataBytes data after cursor' metadataBytes' hstep ih =>
    have hlen := length_of_chunkStep hstep
    have hword' : FitsWord limits (after ++ t) := by
      refine hword.mono ?_
      rw [List.length_append, List.length_append]
      omega
    rw [chunkLoop_eq, chunkStep_append t hword (by simp [hstep]), hstep]
    exact ih hword' h

/-! ## The framer -/

/-- The body stage does not change its mind when more bytes arrive.

**Proof sketch.** By the framing. A declared body that is there stays there, and one that is too
long stays too long; the chunks are read on in the same way (`chunkLoop_append`). -/
lemma takeBody_append {buffer : Bytes} {limits : RequestLimits} {headEnd : ℕ} {head : Str}
    {framing : BodyFraming} (t : Bytes) (hword : FitsWord limits (buffer ++ t))
    (hle : headEnd ≤ buffer.length)
    (h : (takeBody buffer limits false headEnd head framing).1 ≠ .ok none) :
    takeBody (buffer ++ t) limits false headEnd head framing =
      ((takeBody buffer limits false headEnd head framing).1,
        (takeBody buffer limits false headEnd head framing).2 ++ t) := by
  have hlen : (buffer ++ t).length = buffer.length + t.length := List.length_append
  have hdrop : (buffer ++ t).drop headEnd = buffer.drop headEnd ++ t :=
    List.drop_append_of_le_length hle
  have htake : (buffer ++ t).take headEnd = buffer.take headEnd :=
    List.take_append_of_le_length hle
  cases framing with
  | none =>
    simp only [takeBody, hlen, hdrop, htake] at h ⊢
    by_cases hmethod : unframedBody (methodToken head) = true
    · rw [if_pos hmethod] at h ⊢
      rw [if_pos hmethod]
      by_cases hbody : buffer.length - headEnd > limits.bodyBytes
      · have hbody' : buffer.length + t.length - headEnd > limits.bodyBytes := by omega
        rw [if_pos hbody, if_pos hbody']
      · rw [if_neg hbody] at h
        exact absurd rfl h
    · rw [if_neg hmethod, if_neg hmethod]
  | length n =>
    simp only [takeBody, hlen] at h ⊢
    by_cases hbody : n > limits.bodyBytes
    · rw [if_pos hbody, if_pos hbody]
    rw [if_neg hbody] at h ⊢
    rw [if_neg hbody]
    cases hend : checkedAdd headEnd n with
    | none => rfl
    | some fin =>
      simp only [hend] at h ⊢
      by_cases hshort : buffer.length < fin
      · rw [if_pos hshort] at h
        exact absurd rfl h
      have hshort' : ¬ buffer.length + t.length < fin := by omega
      rw [if_neg hshort, if_neg hshort', List.take_append_of_le_length (by omega),
        List.drop_append_of_le_length (by omega)]
  | chunked =>
    simp only [takeBody, hdrop, htake] at h ⊢
    have hword' : FitsWord limits (buffer.drop headEnd ++ t) := by
      refine hword.mono ?_
      rw [List.length_append, List.length_append, List.length_drop]
      omega
    rcases hloop : chunkLoop limits headEnd (buffer.drop headEnd) [] 0 with
      status | _ | ⟨decoded, rest⟩
    · rw [chunkLoop_append t hword' (by simp [hloop]), hloop]
      rfl
    · simp [hloop] at h
    · rw [chunkLoop_append t hword' (by simp [hloop]), hloop]
      rfl

/-- **The framer does not change its mind**: what it decides on a buffer it decides on every
longer one, and the new bytes stay behind the rest.

**Proof sketch.** The first blank line stays where it is, so that the head is the same and the body
is taken as before (`takeBody_append`); without one the buffer was over the limit for heads, and
stays so. -/
theorem takeFramedRequest_append {buffer : Bytes} {limits : RequestLimits} (t : Bytes)
    (hword : FitsWord limits (buffer ++ t))
    (h : (takeFramedRequest buffer limits false).1 ≠ .ok none) :
    takeFramedRequest (buffer ++ t) limits false =
      ((takeFramedRequest buffer limits false).1,
        (takeFramedRequest buffer limits false).2 ++ t) := by
  unfold takeFramedRequest at h ⊢
  cases hpos : position crlfcrlf buffer with
  | none =>
    simp only [hpos] at h ⊢
    by_cases hlong : buffer.length > limits.headerBytes
    · rw [if_pos hlong]
      cases hpos' : position crlfcrlf (buffer ++ t) with
      | none =>
        have hlong' : (buffer ++ t).length > limits.headerBytes := by
          rw [List.length_append]
          omega
        simp only [if_pos hlong']
      | some i =>
        have hend : buffer.length < i + 4 := length_lt_of_position_append hpos hpos'
        have hlong' : i + 4 > limits.headerBytes := by omega
        simp only [if_pos hlong']
    · rw [if_neg hlong] at h
      exact absurd rfl h
  | some i =>
    have hle : i + 4 ≤ buffer.length := length_of_position hpos
    have htake : (buffer ++ t).take i = buffer.take i :=
      List.take_append_of_le_length (by omega)
    simp only [hpos, position_append hpos t, htake] at h ⊢
    by_cases hlong : i + 4 > limits.headerBytes
    · simp only [if_pos hlong]
    simp only [if_neg hlong] at h ⊢
    cases hhead : Utf8.decode (buffer.take i) with
    | none => rfl
    | some head =>
      simp only [hhead] at h ⊢
      cases hframing : extractBodyHeaders head with
      | error status => rfl
      | ok framing =>
        simp only [hframing] at h ⊢
        exact takeBody_append t hword hle h

/-- The framer as a decoder. -/
def frame (limits : RequestLimits) (idleEnd : Bool) : Decoder UInt8 Bytes StatusCode :=
  fun buffer =>
    match takeFramedRequest buffer limits idleEnd with
    | (.error status, _) => .error status
    | (.ok none, _) => .ok none
    | (.ok (some raw), rest) => .ok (some (raw, rest))

/-- The framer is a stable decoder. -/
theorem frame_stable (limits : RequestLimits) :
    StableOn (FitsWord limits) (frame limits false) := by
  intro buffer t hword h
  have happend := takeFramedRequest_append t hword
  unfold frame at h ⊢
  rcases hcall : takeFramedRequest buffer limits false with ⟨status | _ | raw, rest⟩
  · rw [happend (by simp [hcall]), hcall]
    rfl
  · simp [hcall] at h
  · rw [happend (by simp [hcall]), hcall]
    rfl

end Httpageboy
