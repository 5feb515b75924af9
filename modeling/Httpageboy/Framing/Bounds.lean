import Httpageboy.Framing.Conservation

set_option relaxedAutoImplicit false
set_option autoImplicit false

/-!
# How long the framer lets a buffer grow

The chunk loop counts the bytes of the size lines and the decoded bytes, and stops when one of the
two is over its limit. The terminators behind the data are not counted, but there is one size line
for each of them; the size line or the trailer section it still waits for is bounded apart.

## Main definitions

* `Httpageboy.WordSized` — the machine words of the framer do not saturate on this buffer.

## Main results

* `Httpageboy.chunkLoop_wait_length` — how long an unfinished chunked body is.
* `Httpageboy.length_of_incomplete` — how long an incomplete request is.
* `Httpageboy.length_of_complete` — how long the head and the body of a request are.
-/

namespace Httpageboy

open Search

/-- The buffer, or both limits, are below the largest machine word: a vector always is. -/
def WordSized (limits : RequestLimits) (buffer : Bytes) : Prop :=
  buffer.length ≤ usizeMax ∨ (limits.headerBytes < usizeMax ∧ limits.bodyBytes < usizeMax)

/-- A saturating sum below the largest word is the sum. -/
lemma le_of_saturatingAdd_le {a b c : ℕ} (h : saturatingAdd a b ≤ c) (hc : c < usizeMax) :
    a + b ≤ c := by
  unfold saturatingAdd at h
  rcases Nat.le_total (a + b) usizeMax with hle | hle
  · rwa [Nat.min_eq_left hle] at h
  · rw [Nat.min_eq_right hle] at h
    omega

/-! ## Chunked bodies -/

/-- A size line is not empty. -/
lemma ne_nil_of_chunkSize {line : Bytes} {size : ℕ} (h : chunkSize line = .ok size) :
    line ≠ [] := by
  rintro rfl
  have hempty : chunkSize [] = .error .badRequest := by decide
  rw [hempty] at h
  cases h

/-- A trailer section that is not complete yet is short. -/
lemma length_of_takeTrailer_none {limits : RequestLimits} {rest : Bytes}
    (h : takeTrailer limits rest = .ok none) : rest.length ≤ max 1 limits.headerBytes := by
  unfold takeTrailer at h
  by_cases hshort : rest.length < 2
  · exact le_trans (by omega) (Nat.le_max_left 1 limits.headerBytes)
  rw [if_neg hshort] at h
  by_cases hempty : rest.take 2 = crlf
  · rw [if_pos hempty] at h
    cases h
  rw [if_neg hempty] at h
  cases hpos : position crlfcrlf rest with
  | none =>
    simp only [hpos] at h
    by_cases hmax : rest.length > limits.headerBytes
    · rw [if_pos hmax] at h
      cases h
    · exact le_trans (by omega) (Nat.le_max_right 1 limits.headerBytes)
  | some trailerLen =>
    simp only [hpos] at h
    repeat' split at h
    all_goals cases h

/-- What a turn that waits can do: the size line is not complete; or it announces the last chunk,
and the trailer section is not complete; or it announces data within the limit that have not all
arrived. -/
lemma chunkStep_wait {limits : RequestLimits} {cursor decodedLen metadataBytes : ℕ} {rest : Bytes}
    (h : chunkStep limits cursor rest decodedLen metadataBytes = .ok .wait) :
    rest.length ≤ limits.headerBytes ∨
    ∃ line tail size, rest = line ++ crlf ++ tail ∧ line ≠ [] ∧
      saturatingAdd metadataBytes (line.length + 2) ≤ limits.headerBytes ∧
      ((size = 0 ∧ tail.length ≤ max 1 limits.headerBytes) ∨
        (saturatingAdd decodedLen size ≤ limits.bodyBytes ∧ tail.length < size + 2)) := by
  obtain ⟨hmax, -⟩ | ⟨line, tail, size, hrest, hline, hmeta, hsize, hbehind⟩ := chunkStep_cases h
  · exact .inl hmax
  refine .inr ⟨line, tail, size, hrest, ne_nil_of_chunkSize hsize, hmeta, ?_⟩
  obtain ⟨hzero, ⟨htrailer, -⟩ | ⟨_, -, hstep⟩⟩ |
    ⟨-, hbody, -, ⟨hshort, -⟩ | ⟨_, _, -, -, hstep⟩⟩ := hbehind
  · exact .inl ⟨hzero, length_of_takeTrailer_none htrailer⟩
  · cases hstep
  · exact .inr ⟨hbody, hshort⟩
  · cases hstep

/-- **How long an unfinished chunked body is.** With `count` chunks read, the bytes read so far are
the counted ones and two for each chunk; a size line takes three bytes at least, so these are few.

**Proof sketch.** Induction along the loop: a turn with a chunk moves its bytes from the suffix to
the counters. The turn that waits leaves a suffix that `chunkStep_wait` bounds. -/
theorem chunkLoop_wait_length {limits : RequestLimits} {cursor metadataBytes : ℕ}
    {rest decoded : Bytes} (count : ℕ) (hheader : limits.headerBytes < usizeMax)
    (hbody : limits.bodyBytes < usizeMax) (hcount : 3 * count ≤ metadataBytes)
    (hmetadata : metadataBytes ≤ limits.headerBytes) (hdecoded : decoded.length ≤ limits.bodyBytes)
    (h : chunkLoop limits cursor rest decoded metadataBytes = .ok none) :
    metadataBytes + decoded.length + 2 * count + rest.length ≤
      3 * limits.headerBytes + limits.bodyBytes := by
  fun_induction chunkLoop limits cursor rest decoded metadataBytes generalizing count with
  | case1 => simp at h
  | case2 cursor rest decoded metadataBytes hstep =>
    rcases chunkStep_wait hstep with hrest | ⟨line, tail, size, rfl, hline, hmeta, htail⟩
    · omega
    · have hpos := List.length_pos_of_ne_nil hline
      have hmeta' := le_of_saturatingAdd_le hmeta hheader
      simp only [crlf, List.length_append, List.length_cons, List.length_nil]
      rcases htail with ⟨-, htail⟩ | ⟨hsize, htail⟩
      · rw [Nat.max_eq_right (by omega)] at htail
        omega
      · have hsize' := le_of_saturatingAdd_le hsize hbody
        omega
  | case3 => simp at h
  | case4 cursor rest decoded metadataBytes data after cursor' metadataBytes' hstep ih =>
    obtain ⟨line, rfl, -, hline, -, rfl, hmeta, hsize, -⟩ := chunkStep_chunk hstep
    have hpos := List.length_pos_of_ne_nil (ne_nil_of_chunkSize hline)
    have hmeta' := le_of_saturatingAdd_le hmeta hheader
    have hsize' := le_of_saturatingAdd_le hsize hbody
    have hsum : saturatingAdd metadataBytes (line.length + 2) =
        metadataBytes + (line.length + 2) := Nat.min_eq_left (by omega)
    rw [hsum] at ih hmeta h
    have hnext := ih (count + 1) (by omega) hmeta (by rw [List.length_append]; exact hsize') h
    simp only [crlf, List.length_append, List.length_cons, List.length_nil] at hnext ⊢
    omega

/-- The data of a chunked body are part of it. -/
lemma ChunkedBody.length_le {wire body : Bytes} (h : ChunkedBody wire body) :
    body.length ≤ wire.length := by
  induction h with
  | last => exact Nat.zero_le _
  | chunk hline hdata hwire ih =>
    simp only [List.length_append]
    omega

/-- The decoded body stays within the limit. -/
lemma length_of_chunkLoop {limits : RequestLimits} {cursor metadataBytes : ℕ}
    {rest decoded body rest' : Bytes} (hbody : limits.bodyBytes < usizeMax)
    (hdecoded : decoded.length ≤ limits.bodyBytes)
    (h : chunkLoop limits cursor rest decoded metadataBytes = .ok (some (body, rest'))) :
    body.length ≤ limits.bodyBytes := by
  fun_induction chunkLoop limits cursor rest decoded metadataBytes with
  | case1 => simp at h
  | case2 => simp at h
  | case3 cursor rest decoded metadataBytes tail hstep =>
    simp only [Except.ok.injEq, Option.some.injEq, Prod.mk.injEq] at h
    obtain ⟨rfl, -⟩ := h
    exact hdecoded
  | case4 cursor rest decoded metadataBytes data after cursor' metadataBytes' hstep ih =>
    obtain ⟨line, -, -, -, -, -, -, hsize, -⟩ := chunkStep_chunk hstep
    apply ih _ h
    rw [List.length_append]
    exact le_of_saturatingAdd_le hsize hbody

/-! ## Requests -/

/-- The body stage that waits: behind a head within the limit, a body without a length and one with
a length are within the body limit, and a chunked one leads to the loop. -/
lemma length_of_takeBody_wait {limits : RequestLimits} {buffer rest : Bytes} {idleEnd : Bool}
    {headEnd : ℕ} {head : Str} {framing : BodyFraming} (hheader : limits.headerBytes < usizeMax)
    (hbody : limits.bodyBytes < usizeMax) (hfits : headEnd ≤ buffer.length)
    (hmax : headEnd ≤ limits.headerBytes)
    (h : takeBody buffer limits idleEnd headEnd head framing = (.ok none, rest)) :
    buffer.length ≤ 4 * limits.headerBytes + limits.bodyBytes := by
  unfold takeBody at h
  cases framing with
  | none =>
    simp only at h
    by_cases hmethod : unframedBody (methodToken head) = true
    · rw [if_pos hmethod] at h
      by_cases hlong : buffer.length - headEnd > limits.bodyBytes
      · rw [if_pos hlong] at h
        cases h
      · omega
    · rw [if_neg hmethod] at h
      cases h
  | length length =>
    simp only at h
    by_cases hlong : length > limits.bodyBytes
    · rw [if_pos hlong] at h
      cases h
    rw [if_neg hlong] at h
    cases hfin : checkedAdd headEnd length with
    | none => simp [hfin] at h
    | some fin =>
      obtain ⟨rfl, -⟩ := checkedAdd_eq_some_iff.1 hfin
      simp only [hfin] at h
      by_cases hshort : buffer.length < headEnd + length
      · omega
      · rw [if_neg hshort] at h
        cases h
  | chunked =>
    simp only at h
    cases hloop : chunkLoop limits headEnd (buffer.drop headEnd) [] 0 with
    | error status => simp [hloop] at h
    | ok result =>
      cases result with
      | some taken => simp [hloop] at h
      | none =>
        have hwait := chunkLoop_wait_length 0 hheader hbody (by omega) (by omega)
          (Nat.zero_le _) hloop
        rw [List.length_nil, List.length_drop] at hwait
        omega

/-- **How long an incomplete request is.**

**Proof sketch.** A buffer in which no request is complete has no blank line yet, or has one within
the limit for heads and waits for a body whose size is within the other limit. -/
theorem length_of_incomplete {limits : RequestLimits} {buffer rest : Bytes} {idleEnd : Bool}
    (hword : WordSized limits buffer)
    (h : takeFramedRequest buffer limits idleEnd = (.ok none, rest)) :
    buffer.length ≤ 4 * limits.headerBytes + limits.bodyBytes := by
  by_cases hlimits : limits.headerBytes < usizeMax ∧ limits.bodyBytes < usizeMax
  swap
  · -- a limit that no vector reaches
    rcases hword with hbuffer | hboth
    · omega
    · exact absurd hboth hlimits
  obtain ⟨hheader, hbody⟩ := hlimits
  unfold takeFramedRequest at h
  cases hpos : position crlfcrlf buffer with
  | none =>
    simp only [hpos] at h
    by_cases hmax : buffer.length > limits.headerBytes
    · rw [if_pos hmax] at h
      cases h
    · omega
  | some separator =>
    have hfits : separator + 4 ≤ buffer.length := length_of_position hpos
    simp only [hpos] at h
    by_cases hmax : separator + 4 > limits.headerBytes
    · rw [if_pos hmax] at h
      cases h
    rw [if_neg hmax] at h
    cases htext : Utf8.decode (buffer.take separator) with
    | none => simp [htext] at h
    | some head =>
      simp only [htext] at h
      cases hframing : extractBodyHeaders head with
      | error status => simp [hframing] at h
      | ok framing =>
        simp only [hframing] at h
        exact length_of_takeBody_wait hheader hbody hfits (Nat.not_lt.1 hmax) h

/-- **How long the head and the body of a request are.**

**Proof sketch.** The head ends within its limit, and the body is as long as its framing says,
within the other one. -/
theorem length_of_complete {limits : RequestLimits} {buffer raw rest : Bytes} {idleEnd : Bool}
    (hword : WordSized limits buffer)
    (h : takeFramedRequest buffer limits idleEnd = (.ok (some raw), rest)) :
    ∃ head body, BlankSplit raw head body ∧
      (Utf8.encode head ++ crlfcrlf).length ≤ limits.headerBytes ∧
      body.length ≤ limits.bodyBytes := by
  obtain ⟨head, tail, framing, body, hsplit, hmax, -, rfl, htaken⟩ :=
    takeFramedRequest_eq_some_iff.1 h
  refine ⟨head, body, hsplit.replace body, ?_, ?_⟩
  · rw [List.length_append]
    exact hmax
  cases framing with
  | none =>
    rcases htaken with ⟨-, -, hle, rfl, -⟩ | ⟨-, rfl, -⟩
    · exact hle
    · exact Nat.zero_le _
  | length length =>
    obtain ⟨-, rfl, hle, -⟩ := htaken
    exact hle
  | chunked =>
    by_cases hbody : limits.bodyBytes < usizeMax
    · exact length_of_chunkLoop hbody (Nat.zero_le _) htaken
    · have hbuffer : buffer.length ≤ usizeMax := by
        rcases hword with hbuffer | ⟨-, hboth⟩
        · exact hbuffer
        · exact absurd hboth hbody
      obtain ⟨wire, data, rfl, rfl, hwire⟩ := chunkLoop_sound htaken
      have hlength := hsplit.length_eq
      have hdata := hwire.length_le
      simp only [List.length_append] at hlength
      omega

end Httpageboy
