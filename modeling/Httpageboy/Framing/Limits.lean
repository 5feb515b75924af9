import Httpageboy.Framing.Stability

set_option relaxedAutoImplicit false
set_option autoImplicit false

/-!
# What the limits do to the framer

The limits are compared in many places of `take_framed_request`: with the head, with each chunk
line and the sum of them, with the trailer section, with a declared length and with the decoded
body. All of these comparisons only reject. So a framer with tighter limits does on every buffer
what one with looser limits does, or it answers `413` or `431` and leaves the buffer as it is.

## Main definitions

* `Httpageboy.RequestLimits.Tighter` — tighter limits for sizes.
* `Httpageboy.Limited` — the same outcome, or a rejection because of a limit.

## Main results

* `Httpageboy.chunkLoop_limited` — the chunk loop under tighter limits.
* `Httpageboy.takeFramedRequest_limited` — the framer under tighter limits.
-/

namespace Httpageboy

open Search

/-- The sizes that are allowed are smaller, and the other limits are the same. -/
structure RequestLimits.Tighter (limits limits' : RequestLimits) : Prop where
  headerBytes : limits.headerBytes ≤ limits'.headerBytes
  bodyBytes : limits.bodyBytes ≤ limits'.bodyBytes
  idleTimeout : limits.idleTimeout = limits'.idleTimeout
  requestTimeout : limits.requestTimeout = limits'.requestTimeout
  keepAliveTimeout : limits.keepAliveTimeout = limits'.keepAliveTimeout
  maxRequests : limits.maxRequests = limits'.maxRequests

/-- The statuses that say that something is too large. -/
def OverLimit (status : StatusCode) : Prop :=
  status = .payloadTooLarge ∨ status = .requestHeaderFieldsTooLarge

/-- The same outcome, or a rejection because something is too large. -/
def Limited {α : Type} (outcome outcome' : Except StatusCode α) : Prop :=
  outcome = outcome' ∨ ∃ status, OverLimit status ∧ outcome = .error status

namespace Limited

variable {α β : Type} {outcome outcome' : Except StatusCode α}

/-- The limits make no difference. -/
lemma refl (outcome : Except StatusCode α) : Limited outcome outcome := .inl rfl

/-- The body is too large. -/
lemma payload : Limited (.error .payloadTooLarge) outcome' := .inr ⟨_, .inl rfl, rfl⟩

/-- The head, the chunk lines or the trailer section are too large. -/
lemma headers : Limited (.error .requestHeaderFieldsTooLarge) outcome' := .inr ⟨_, .inr rfl, rfl⟩

/-- A comparison with a limit, in front of what follows. -/
lemma ite {size limit limit' : ℕ} (hle : limit ≤ limit') {rejected : Except StatusCode α}
    (hrejected : Limited rejected outcome') (hrejected' : Limited rejected rejected)
    (hnext : Limited outcome outcome') :
    Limited (if size > limit then rejected else outcome)
      (if size > limit' then rejected else outcome') := by
  by_cases hover : size > limit
  · rw [if_pos hover]
    by_cases hover' : size > limit'
    · rw [if_pos hover']
      exact hrejected'
    · rw [if_neg hover']
      exact hrejected
  · rw [if_neg hover, if_neg (by omega)]
    exact hnext

end Limited

variable {limits limits' : RequestLimits}

/-- The trailer section under tighter limits. -/
lemma takeTrailer_limited (h : limits.Tighter limits') (rest : Bytes) :
    Limited (takeTrailer limits rest) (takeTrailer limits' rest) := by
  unfold takeTrailer
  by_cases hshort : rest.length < 2
  · rw [if_pos hshort, if_pos hshort]
    exact .refl _
  rw [if_neg hshort, if_neg hshort]
  by_cases hempty : rest.take 2 = crlf
  · rw [if_pos hempty, if_pos hempty]
    exact .refl _
  rw [if_neg hempty, if_neg hempty]
  cases position crlfcrlf rest with
  | none => exact .ite h.headerBytes .headers (.refl _) (.refl _)
  | some trailerLen => exact .ite h.headerBytes .headers (.refl _) (.refl _)

/-- A turn of the chunk loop under tighter limits.

**Proof sketch.** Follow the branches: they differ in the comparisons only. -/
lemma chunkStep_limited (h : limits.Tighter limits') (cursor : ℕ) (rest : Bytes)
    (decodedLen metadataBytes : ℕ) :
    Limited (chunkStep limits cursor rest decodedLen metadataBytes)
      (chunkStep limits' cursor rest decodedLen metadataBytes) := by
  unfold chunkStep
  cases findCrlf rest with
  | none => exact .ite h.headerBytes .headers (.refl _) (.refl _)
  | some lineLen =>
    refine .ite h.headerBytes .headers (.refl _) ?_
    cases chunkSize (rest.take lineLen) with
    | error status => exact .refl _
    | ok size =>
      simp only
      by_cases hzero : size = 0
      · rw [if_pos hzero, if_pos hzero]
        rcases takeTrailer_limited h (rest.drop (lineLen + 2)) with hsame | ⟨status, hover, herror⟩
        · rw [hsame]
          exact .refl _
        · rw [herror]
          exact .inr ⟨status, hover, rfl⟩
      · rw [if_neg hzero, if_neg hzero]
        exact .ite h.bodyBytes .payload (.refl _) (.refl _)

/-- **The chunk loop under tighter limits.**

**Proof sketch.** Induction on the length of the suffix: every turn does the same, or rejects. -/
theorem chunkLoop_limited (h : limits.Tighter limits') (cursor : ℕ) (rest decoded : Bytes)
    (metadataBytes : ℕ) :
    Limited (chunkLoop limits cursor rest decoded metadataBytes)
      (chunkLoop limits' cursor rest decoded metadataBytes) := by
  induction hlength : rest.length using Nat.strong_induction_on
    generalizing cursor rest decoded metadataBytes with
  | _ length ih =>
    rcases chunkStep_limited h cursor rest decoded.length metadataBytes with
      hsame | ⟨status, hover, herror⟩
    · rw [chunkLoop_eq, chunkLoop_eq limits', hsame]
      rcases hstep : chunkStep limits' cursor rest decoded.length metadataBytes with
        status | (_ | tail | ⟨data, tail, cursor', metadataBytes'⟩)
      · exact .refl _
      · exact .refl _
      · exact .refl _
      · exact ih tail.length (hlength ▸ length_of_chunkStep hstep) cursor' tail (decoded ++ data)
          metadataBytes' rfl
    · exact .inr ⟨status, hover, by rw [chunkLoop_eq, herror]⟩

/-- The body stage under tighter limits. -/
lemma takeBody_limited (h : limits.Tighter limits') (buffer : Bytes) (idleEnd : Bool)
    (headEnd : ℕ) (head : Str) (framing : BodyFraming) :
    takeBody buffer limits idleEnd headEnd head framing =
        takeBody buffer limits' idleEnd headEnd head framing ∨
      ∃ status, OverLimit status ∧
        takeBody buffer limits idleEnd headEnd head framing = (.error status, buffer) := by
  unfold takeBody
  cases framing with
  | none =>
    simp only
    by_cases hmethod : unframedBody (methodToken head) = true
    · rw [if_pos hmethod, if_pos hmethod]
      by_cases hover : buffer.length - headEnd > limits.bodyBytes
      · exact .inr ⟨_, .inl rfl, if_pos hover⟩
      · have hover' : ¬ buffer.length - headEnd > limits'.bodyBytes := by
          have hle := h.bodyBytes
          omega
        exact .inl (by rw [if_neg hover, if_neg hover'])
    · exact .inl (by rw [if_neg hmethod, if_neg hmethod])
  | length length =>
    simp only
    by_cases hover : length > limits.bodyBytes
    · exact .inr ⟨_, .inl rfl, if_pos hover⟩
    · have hover' : ¬ length > limits'.bodyBytes := by
        have hle := h.bodyBytes
        omega
      exact .inl (by rw [if_neg hover, if_neg hover'])
  | chunked =>
    simp only
    rcases chunkLoop_limited h headEnd (buffer.drop headEnd) [] 0 with
      hsame | ⟨status, hover, herror⟩
    · exact .inl (by rw [hsame])
    · exact .inr ⟨status, hover, by rw [herror]⟩

/-- **The framer under tighter limits** does what it does under looser ones, or rejects because
something is too large, with the buffer as it was.

**Proof sketch.** Stage by stage: where the tighter limit is passed, the request is rejected with
the status of that limit, and elsewhere both framers go on alike. -/
theorem takeFramedRequest_limited (h : limits.Tighter limits') (buffer : Bytes) (idleEnd : Bool) :
    takeFramedRequest buffer limits idleEnd = takeFramedRequest buffer limits' idleEnd ∨
      ∃ status, OverLimit status ∧
        takeFramedRequest buffer limits idleEnd = (.error status, buffer) := by
  have hheader := h.headerBytes
  unfold takeFramedRequest
  cases position crlfcrlf buffer with
  | none =>
    simp only
    by_cases hover : buffer.length > limits.headerBytes
    · exact .inr ⟨_, .inr rfl, if_pos hover⟩
    · have hover' : ¬ buffer.length > limits'.headerBytes := by omega
      exact .inl (by rw [if_neg hover, if_neg hover'])
  | some separator =>
    simp only
    by_cases hover : separator + 4 > limits.headerBytes
    · exact .inr ⟨_, .inr rfl, if_pos hover⟩
    · have hover' : ¬ separator + 4 > limits'.headerBytes := by omega
      rw [if_neg hover, if_neg hover']
      cases Utf8.decode (buffer.take separator) with
      | none => exact .inl rfl
      | some head =>
        cases hframing : extractBodyHeaders head with
        | error status => exact .inl (by simp only [hframing])
        | ok framing =>
          simp only [hframing]
          exact takeBody_limited h buffer idleEnd (separator + 4) head framing

end Httpageboy
