import Httpageboy.Core.Framing

set_option relaxedAutoImplicit false
set_option autoImplicit false

/-!
# What the framer takes

Every accepted request splits the receive buffer into a head, the bytes its body travels in
and a rest. This file states that split and proves that `takeFramedRequest` accepts exactly
the buffers that have one; the later files argue about the split only.

## Main definitions

* `Httpageboy.BlankSplit` — a buffer cut at its first blank line.
* `Httpageboy.ChunkedBody` — a chunked body on the wire and the data it carries.
* `Httpageboy.BodyTaken` — what the body stage takes, for each framing.

## Main results

* `Httpageboy.takeTrailer_eq_some_iff` — when a trailer section is complete.
* `Httpageboy.chunkLoop_sound` — an accepted chunked body is a `ChunkedBody`.
* `Httpageboy.takeFramedRequest_eq_some_iff` — when a request is taken, and what it is.
* `Httpageboy.BlankSplit.ne_nil_of_mem` — no header line in front of the first blank line is
  empty.
-/

namespace Httpageboy

open Search

/-! ## Heads -/

/-- The buffer is the head, the first blank line and the tail. -/
structure BlankSplit (buffer : Bytes) (head : Str) (tail : Bytes) : Prop where
  eq : buffer = Utf8.encode head ++ crlfcrlf ++ tail
  first : position crlfcrlf buffer = some (Utf8.encode head).length

/-- The header lines of a head: everything after the request line. -/
def headerLines (head : Str) : List Str := (splitPair '\r' '\n' head).drop 1

namespace BlankSplit

variable {buffer tail : Bytes} {head : Str}

/-- A first blank line behind well-formed UTF-8 cuts the buffer. -/
lemma of_position {separator : ℕ} (hpos : position crlfcrlf buffer = some separator)
    (hhead : Utf8.decode (buffer.take separator) = some head) :
    BlankSplit buffer head (buffer.drop (separator + 4)) := by
  obtain ⟨bytes, tail, rfl, rfl⟩ := exists_of_position hpos
  have htake : (bytes ++ crlfcrlf ++ tail).take bytes.length = bytes := by simp
  rw [htake, Utf8.decode_eq_some_iff] at hhead
  subst hhead
  exact ⟨by simp [crlfcrlf], hpos⟩

/-- In front of the blank line there is the head. -/
lemma take_eq (h : BlankSplit buffer head tail) :
    buffer.take (Utf8.encode head).length = Utf8.encode head := by
  rw [h.eq]
  simp

/-- Behind the blank line there is the rest. -/
lemma drop_eq (h : BlankSplit buffer head tail) :
    buffer.drop ((Utf8.encode head).length + 4) = tail := by
  rw [h.eq]
  simp [crlfcrlf]

/-- The head with its blank line. -/
lemma take_headEnd (h : BlankSplit buffer head tail) :
    buffer.take ((Utf8.encode head).length + 4) = Utf8.encode head ++ crlfcrlf := by
  rw [h.eq]
  exact List.take_left' (by simp [crlfcrlf])

/-- The blank line has four bytes. -/
lemma length_eq (h : BlankSplit buffer head tail) :
    buffer.length = (Utf8.encode head).length + 4 + tail.length := by
  rw [h.eq]
  simp only [crlfcrlf, List.length_append, List.length_cons, List.length_nil]

/-- A buffer is cut in one way only. -/
lemma unique {head' : Str} {tail' : Bytes} (h : BlankSplit buffer head tail)
    (h' : BlankSplit buffer head' tail') : head = head' ∧ tail = tail' := by
  have hlen : (Utf8.encode head).length = (Utf8.encode head').length := by
    simpa [h.first] using h'.first
  refine ⟨Utf8.encode_injective ?_, ?_⟩
  · rw [← h.take_eq, hlen, h'.take_eq]
  · rw [← h.drop_eq, hlen, h'.drop_eq]

/-- The cut stays where it is when the tail changes. -/
lemma replace (h : BlankSplit buffer head tail) (tail' : Bytes) :
    BlankSplit (Utf8.encode head ++ crlfcrlf ++ tail') head tail' := by
  refine ⟨rfl, position_replace (v := tail) ?_ tail'⟩
  rw [← h.eq]
  exact h.first

/-- More bytes behind the buffer belong to the tail. -/
lemma append (h : BlankSplit buffer head tail) (t : Bytes) :
    BlankSplit (buffer ++ t) head (tail ++ t) := by
  refine ⟨?_, position_append h.first t⟩
  rw [h.eq]
  simp only [List.append_assoc]

/-- No header line in front of the first blank line is empty.

**Proof sketch.** An empty line would be a blank line that ends before the head does. -/
lemma ne_nil_of_mem (h : BlankSplit buffer head tail) {line : Str}
    (hline : line ∈ headerLines head) :
    line ≠ [] := by
  rintro rfl
  obtain ⟨p, ps, hp⟩ := List.exists_cons_of_ne_nil (splitPair_ne_nil '\r' '\n' head)
  have hmem : [] ∈ ps := by simpa [headerLines, hp] using hline
  obtain ⟨u, v, huv⟩ := exists_of_nil_mem_splitPair hp hmem
  have hbytes : Utf8.encode head ++ crlf = Utf8.encode u ++ crlfcrlf ++ Utf8.encode v := by
    have := congrArg Utf8.encode huv
    simp only [Utf8.encode_append] at this
    exact this
  have hbuffer : buffer = Utf8.encode u ++ crlfcrlf ++ (Utf8.encode v ++ crlf ++ tail) := by
    rw [h.eq]
    have : crlfcrlf = crlf ++ crlf := rfl
    rw [this, ← List.append_assoc, hbytes]
    simp only [List.append_assoc]
    rfl
  have hmin := (position_eq_some_iff.1 h.first).2 _ _ hbuffer
  have hlen := congrArg List.length hbytes
  simp only [List.length_append, crlf, crlfcrlf, List.length_cons, List.length_nil] at hlen
  omega

end BlankSplit

/-! ## Chunked bodies -/

/-- A chunk-size line, up to its terminator, that announces `size` bytes. -/
structure SizeLine (line : Bytes) (size : ℕ) : Prop where
  crlf : findCrlf (line ++ crlf) = some line.length
  size : chunkSize line = .ok size

/-- A trailer section, the blank line that ends it included: nothing, or lines with a colon. -/
def TrailerSection (bytes : Bytes) : Prop :=
  bytes = crlf ∨
    ∃ trailer : Str, bytes = Utf8.encode trailer ++ crlfcrlf ∧
      ∀ line ∈ splitPair '\r' '\n' trailer, line ≠ [] ∧ ':' ∈ line

/-- A chunked body on the wire, and the data it carries: blocks of a size line, data of that
size and a terminator, then a last chunk of size zero and the trailer section. -/
inductive ChunkedBody : Bytes → Bytes → Prop
  | last {line trailer : Bytes} (hline : SizeLine line 0) (htrailer : TrailerSection trailer) :
      ChunkedBody (line ++ crlf ++ trailer) []
  | chunk {line data wire body : Bytes} (hline : SizeLine line data.length) (hdata : data ≠ [])
      (hwire : ChunkedBody wire body) :
      ChunkedBody (line ++ crlf ++ data ++ crlf ++ wire) (data ++ body)

/-- The terminator of a line is found without what follows it. -/
lemma findCrlf_line {line tail : Bytes} (h : findCrlf (line ++ crlf ++ tail) = some line.length) :
    findCrlf (line ++ crlf) = some line.length := by
  have := position_replace h []
  rwa [List.append_nil] at this

/-- No line of a text in front of its first blank line is empty, when the text does not start
with a line break. -/
lemma ne_nil_of_mem_splitPair {bytes tail : Bytes} {text line : Str}
    (h : BlankSplit bytes text tail) (hstart : bytes.take 2 ≠ crlf)
    (hline : line ∈ splitPair '\r' '\n' text) : line ≠ [] := by
  obtain ⟨p, ps, hp⟩ := List.exists_cons_of_ne_nil (splitPair_ne_nil '\r' '\n' text)
  rw [hp, List.mem_cons] at hline
  rcases hline with rfl | hline
  · rintro rfl
    -- an empty first line puts a line break at the start
    have htext := unlines_splitPair '\r' '\n' text
    rw [hp, unlines_cons, List.nil_append] at htext
    have hbytes := congrArg Utf8.encode htext
    simp only [Utf8.encode_append] at hbytes
    apply hstart
    have hsplit : bytes = Utf8.encode text ++ crlf ++ (crlf ++ tail) := by
      rw [h.eq]
      simp [crlf, crlfcrlf]
    change crlf ++ _ = Utf8.encode text ++ crlf at hbytes
    rw [hsplit, ← hbytes]
    rfl
  · exact h.ne_nil_of_mem (by simpa [headerLines, hp] using hline)

/-- **When a trailer section is complete**: it is a single line terminator, or it ends at the first
blank line, within the limit, and every line of it has a colon.

**Proof sketch.** Along the branches of the code in one direction, and back through them with what
is known of the section in the other. -/
theorem takeTrailer_eq_some_iff {limits : RequestLimits} {rest rest' : Bytes} :
    takeTrailer limits rest = .ok (some rest') ↔
      rest = crlf ++ rest' ∨
        ∃ trailer : Str, BlankSplit rest trailer rest' ∧ rest.take 2 ≠ crlf ∧
          (Utf8.encode trailer).length + 4 ≤ limits.headerBytes ∧
          ∀ line ∈ splitPair '\r' '\n' trailer, line ≠ [] → ':' ∈ line := by
  unfold takeTrailer
  constructor
  · intro h
    by_cases hlen : rest.length < 2
    · rw [if_pos hlen] at h
      simp at h
    rw [if_neg hlen] at h
    by_cases hempty : rest.take 2 = crlf
    · rw [if_pos hempty] at h
      obtain rfl : rest.drop 2 = rest' := by simpa using h
      left
      rw [← hempty, List.take_append_drop]
    rw [if_neg hempty] at h
    right
    cases hpos : position crlfcrlf rest with
    | none => simp only [hpos] at h; split_ifs at h; simp at h
    | some trailerLen =>
      simp only [hpos] at h
      by_cases hmax : trailerLen + 4 > limits.headerBytes
      · rw [if_pos hmax] at h
        simp at h
      rw [if_neg hmax] at h
      cases htext : Utf8.decode (rest.take trailerLen) with
      | none => simp [htext] at h
      | some trailer =>
        simp only [htext] at h
        have hsplit := BlankSplit.of_position hpos htext
        obtain rfl : (Utf8.encode trailer).length = trailerLen := by
          have hfirst := hsplit.first
          rw [hpos] at hfirst
          simpa using hfirst.symm
        split_ifs at h with hcolon
        obtain rfl : rest.drop ((Utf8.encode trailer).length + 4) = rest' := by simpa using h
        refine ⟨trailer, hsplit, hempty, by omega, ?_⟩
        simpa using hcolon
  · intro h
    rcases h with rfl | ⟨trailer, hsplit, hempty, hmax, hcolon⟩
    · simp [crlf]
    · have hlen : ¬ rest.length < 2 := by
        rw [hsplit.length_eq]
        omega
      have hcolon' : ¬ ((splitPair '\r' '\n' trailer).any
          fun line => line ≠ [] ∧ ':' ∉ line) = true := by
        simpa using hcolon
      rw [if_neg hlen, if_neg hempty]
      simp only [hsplit.first, if_neg (Nat.not_lt.2 hmax), hsplit.take_eq, Utf8.decode_encode,
        if_neg hcolon', hsplit.drop_eq]

/-- An accepted trailer section is one, and it is taken off whole. -/
lemma takeTrailer_some {limits : RequestLimits} {rest rest' : Bytes}
    (h : takeTrailer limits rest = .ok (some rest')) :
    ∃ bytes, rest = bytes ++ rest' ∧ TrailerSection bytes := by
  rcases takeTrailer_eq_some_iff.1 h with rfl | ⟨trailer, hsplit, hempty, -, hcolon⟩
  · exact ⟨crlf, rfl, .inl rfl⟩
  · refine ⟨Utf8.encode trailer ++ crlfcrlf, hsplit.eq, .inr ⟨trailer, rfl, ?_⟩⟩
    intro line hline
    have hne := ne_nil_of_mem_splitPair hsplit hempty hline
    exact ⟨hne, hcolon line hline hne⟩

/-- An accepted chunked body is one, it is taken off whole, and its data follow what was
decoded before.

**Proof sketch.** Induction along the loop: a turn with a chunk puts one block in front of
what the remaining turns take, the last turn is the last chunk with its trailer section. -/
theorem chunkLoop_sound {limits : RequestLimits} {cursor metadataBytes : ℕ}
    {rest decoded body rest' : Bytes}
    (h : chunkLoop limits cursor rest decoded metadataBytes = .ok (some (body, rest'))) :
    ∃ wire data, rest = wire ++ rest' ∧ body = decoded ++ data ∧ ChunkedBody wire data := by
  fun_induction chunkLoop limits cursor rest decoded metadataBytes with
  | case1 => simp at h
  | case2 => simp at h
  | case3 cursor rest decoded metadataBytes tail hstep =>
    simp only [Except.ok.injEq, Option.some.injEq, Prod.mk.injEq] at h
    obtain ⟨rfl, rfl⟩ := h
    obtain ⟨line, after, rfl, hcrlf, hsize, -, htrailer⟩ := chunkStep_last hstep
    obtain ⟨trailer, rfl, hsection⟩ := takeTrailer_some htrailer
    refine ⟨line ++ crlf ++ trailer, [], by simp only [List.append_assoc], by simp, ?_⟩
    exact .last ⟨findCrlf_line hcrlf, hsize⟩ hsection
  | case4 cursor rest decoded metadataBytes data after cursor' metadataBytes' hstep ih =>
    obtain ⟨line, rfl, hcrlf, hsize, hne, -⟩ := chunkStep_chunk hstep
    obtain ⟨wire, more, rfl, rfl, hwire⟩ := ih h
    refine ⟨line ++ crlf ++ data ++ crlf ++ wire, data ++ more, ?_, ?_, ?_⟩
    · simp only [List.append_assoc]
    · simp only [List.append_assoc]
    · refine .chunk ⟨?_, hsize⟩ hne hwire
      have htail : line ++ crlf ++ data ++ crlf ++ (wire ++ rest') =
          line ++ crlf ++ (data ++ crlf ++ (wire ++ rest')) := by simp only [List.append_assoc]
      rw [htail] at hcrlf
      exact findCrlf_line hcrlf

/-! ## Requests -/

/-- What the body stage takes from the tail behind a head, for each framing: the decoded body
and the bytes left. -/
def BodyTaken (limits : RequestLimits) (idleEnd : Bool) (head : Str) (tail body rest : Bytes) :
    BodyFraming → Prop
  | .none =>
    (unframedBody (methodToken head) = true ∧ idleEnd = true ∧ tail.length ≤ limits.bodyBytes ∧
        body = tail ∧ rest = []) ∨
      (unframedBody (methodToken head) = false ∧ body = [] ∧ rest = tail)
  | .length length =>
    tail = body ++ rest ∧ body.length = length ∧ length ≤ limits.bodyBytes ∧
      (Utf8.encode head).length + 4 + length ≤ usizeMax
  | .chunked =>
    chunkLoop limits ((Utf8.encode head).length + 4) tail [] 0 = .ok (some (body, rest))

/-- The body stage without a declared body. -/
lemma takeBody_none_iff {buffer tail rest raw : Bytes} {head : Str} {limits : RequestLimits}
    {idleEnd : Bool} (h : BlankSplit buffer head tail) :
    takeBody buffer limits idleEnd ((Utf8.encode head).length + 4) head .none =
        (.ok (some raw), rest) ↔
      ∃ body, raw = Utf8.encode head ++ crlfcrlf ++ body ∧
        BodyTaken limits idleEnd head tail body rest .none := by
  have htail : buffer.length - ((Utf8.encode head).length + 4) = tail.length := by
    have hlen := h.length_eq
    omega
  simp only [takeBody, BodyTaken, h.take_headEnd, h.drop_eq, htail]
  by_cases hmethod : unframedBody (methodToken head) = true
  · rw [if_pos hmethod]
    by_cases hbody : tail.length > limits.bodyBytes
    · rw [if_pos hbody]
      constructor
      · intro e
        simp at e
      · rintro ⟨body, -, ⟨-, -, hle, -⟩ | ⟨hf, -⟩⟩
        · omega
        · simp [hmethod] at hf
    · rw [if_neg hbody]
      cases idleEnd with
      | false => simp [hmethod]
      | true =>
        simp only [Bool.not_true, Bool.false_eq_true, if_false, Prod.mk.injEq, Except.ok.injEq,
          Option.some.injEq]
        constructor
        · rintro ⟨rfl, rfl⟩
          exact ⟨tail, h.eq, .inl ⟨hmethod, trivial, by omega, rfl, rfl⟩⟩
        · rintro ⟨body, rfl, ⟨-, -, -, rfl, rfl⟩ | ⟨hf, -⟩⟩
          · exact ⟨h.eq, rfl⟩
          · simp [hmethod] at hf
  · rw [if_neg hmethod]
    have hmethod' : unframedBody (methodToken head) = false := by simpa using hmethod
    simp only [Prod.mk.injEq, Except.ok.injEq, Option.some.injEq]
    constructor
    · rintro ⟨rfl, rfl⟩
      exact ⟨[], by simp, .inr ⟨hmethod', rfl, rfl⟩⟩
    · rintro ⟨body, rfl, ⟨ht, -⟩ | ⟨-, rfl, rfl⟩⟩
      · exact absurd ht hmethod
      · simp

/-- The body stage with a declared length. -/
lemma takeBody_length_iff {buffer tail rest raw : Bytes} {head : Str} {limits : RequestLimits}
    {idleEnd : Bool} {length : ℕ} (h : BlankSplit buffer head tail) :
    takeBody buffer limits idleEnd ((Utf8.encode head).length + 4) head (.length length) =
        (.ok (some raw), rest) ↔
      ∃ body, raw = Utf8.encode head ++ crlfcrlf ++ body ∧
        BodyTaken limits idleEnd head tail body rest (.length length) := by
  have hlen := h.length_eq
  simp only [takeBody, BodyTaken]
  by_cases hbody : length > limits.bodyBytes
  · rw [if_pos hbody]
    constructor
    · intro e
      simp at e
    · rintro ⟨body, -, -, -, hle, -⟩
      omega
  rw [if_neg hbody]
  cases hfin : checkedAdd ((Utf8.encode head).length + 4) length with
  | none =>
    constructor
    · intro e
      simp at e
    · rintro ⟨body, -, -, -, -, hmax⟩
      rw [checkedAdd, if_pos hmax] at hfin
      cases hfin
  | some fin =>
    obtain ⟨rfl, hmax⟩ := checkedAdd_eq_some_iff.1 hfin
    simp only
    by_cases hshort : buffer.length < (Utf8.encode head).length + 4 + length
    · rw [if_pos hshort]
      constructor
      · intro e
        simp at e
      · rintro ⟨body, -, rfl, rfl, -⟩
        rw [hlen, List.length_append] at hshort
        omega
    · rw [if_neg hshort]
      have hheadLen : (Utf8.encode head ++ crlfcrlf).length = (Utf8.encode head).length + 4 := by
        simp [crlfcrlf]
      have htake : buffer.take ((Utf8.encode head).length + 4 + length) =
          Utf8.encode head ++ crlfcrlf ++ tail.take length := by
        rw [h.eq, ← hheadLen, List.take_length_add_append]
      have hdrop : buffer.drop ((Utf8.encode head).length + 4 + length) = tail.drop length := by
        rw [h.eq, ← hheadLen, List.drop_length_add_append]
      rw [htake, hdrop]
      simp only [Prod.mk.injEq, Except.ok.injEq, Option.some.injEq]
      constructor
      · rintro ⟨rfl, rfl⟩
        refine ⟨tail.take length, rfl, (List.take_append_drop _ _).symm, ?_, by omega, hmax⟩
        rw [List.length_take]
        omega
      · rintro ⟨body, rfl, rfl, rfl, -⟩
        simp

/-- The body stage with a chunked body. -/
lemma takeBody_chunked_iff {buffer tail rest raw : Bytes} {head : Str} {limits : RequestLimits}
    {idleEnd : Bool} (h : BlankSplit buffer head tail) :
    takeBody buffer limits idleEnd ((Utf8.encode head).length + 4) head .chunked =
        (.ok (some raw), rest) ↔
      ∃ body, raw = Utf8.encode head ++ crlfcrlf ++ body ∧
        BodyTaken limits idleEnd head tail body rest .chunked := by
  simp only [takeBody, BodyTaken, h.take_headEnd, h.drop_eq]
  rcases chunkLoop limits ((Utf8.encode head).length + 4) tail [] 0 with
    status | _ | ⟨decoded, after⟩
  · simp
  · simp
  · simp only [Prod.mk.injEq, Except.ok.injEq, Option.some.injEq]
    constructor
    · rintro ⟨rfl, rfl⟩
      exact ⟨decoded, rfl, rfl, rfl⟩
    · rintro ⟨body, rfl, rfl, rfl⟩
      exact ⟨rfl, rfl⟩

/-- The body stage takes what `BodyTaken` says, behind the head. -/
lemma takeBody_eq_some_iff {buffer tail rest raw : Bytes} {head : Str} {limits : RequestLimits}
    {idleEnd : Bool} {framing : BodyFraming} (h : BlankSplit buffer head tail) :
    takeBody buffer limits idleEnd ((Utf8.encode head).length + 4) head framing =
        (.ok (some raw), rest) ↔
      ∃ body, raw = Utf8.encode head ++ crlfcrlf ++ body ∧
        BodyTaken limits idleEnd head tail body rest framing := by
  cases framing with
  | none => exact takeBody_none_iff h
  | length length => exact takeBody_length_iff h
  | chunked => exact takeBody_chunked_iff h

/-- The head stage of `takeFramedRequest`, on a buffer that is cut at its first blank line. -/
lemma takeFramedRequest_of_split {buffer tail : Bytes} {head : Str} (limits : RequestLimits)
    (idleEnd : Bool) (h : BlankSplit buffer head tail) :
    takeFramedRequest buffer limits idleEnd =
      if (Utf8.encode head).length + 4 > limits.headerBytes then
        (.error .requestHeaderFieldsTooLarge, buffer)
      else
        match extractBodyHeaders head with
        | .error status => (.error status, buffer)
        | .ok framing =>
          takeBody buffer limits idleEnd ((Utf8.encode head).length + 4) head framing := by
  unfold takeFramedRequest
  by_cases hmax : (Utf8.encode head).length + 4 > limits.headerBytes
  · simp only [h.first, if_pos hmax]
  · cases hframing : extractBodyHeaders head with
    | error status =>
      simp only [h.first, if_neg hmax, h.take_eq, Utf8.decode_encode, hframing]
    | ok framing => simp only [h.first, if_neg hmax, h.take_eq, Utf8.decode_encode, hframing]

/-- **When a request is taken, and what it is**: the buffer is a head within the limit that
declares its body consistently, the blank line and a tail that starts with that body.

**Proof sketch.** A head is found at the first blank line; behind it, the body is taken by the rule
of its framing. -/
theorem takeFramedRequest_eq_some_iff {buffer raw rest : Bytes} {limits : RequestLimits}
    {idleEnd : Bool} :
    takeFramedRequest buffer limits idleEnd = (.ok (some raw), rest) ↔
      ∃ head tail framing body, BlankSplit buffer head tail ∧
        (Utf8.encode head).length + 4 ≤ limits.headerBytes ∧
        extractBodyHeaders head = .ok framing ∧
        raw = Utf8.encode head ++ crlfcrlf ++ body ∧
        BodyTaken limits idleEnd head tail body rest framing := by
  constructor
  · intro h
    cases hpos : position crlfcrlf buffer with
    | none => simp only [takeFramedRequest, hpos] at h; split_ifs at h <;> simp at h
    | some separator =>
      cases hhead : Utf8.decode (buffer.take separator) with
      | none => simp only [takeFramedRequest, hpos, hhead] at h; split_ifs at h <;> simp at h
      | some head =>
        have hsplit := BlankSplit.of_position hpos hhead
        rw [takeFramedRequest_of_split limits idleEnd hsplit] at h
        by_cases hmax : (Utf8.encode head).length + 4 > limits.headerBytes
        · rw [if_pos hmax] at h
          simp at h
        rw [if_neg hmax] at h
        cases hframing : extractBodyHeaders head with
        | error status => simp [hframing] at h
        | ok framing =>
          simp only [hframing] at h
          obtain ⟨body, hraw, hbody⟩ := (takeBody_eq_some_iff hsplit).1 h
          exact ⟨head, _, framing, body, hsplit, by omega, hframing, hraw, hbody⟩
  · rintro ⟨head, tail, framing, body, hsplit, hmax, hframing, hraw, hbody⟩
    rw [takeFramedRequest_of_split limits idleEnd hsplit, if_neg (by omega)]
    simp only [hframing]
    exact (takeBody_eq_some_iff hsplit).2 ⟨body, hraw, hbody⟩

end Httpageboy
