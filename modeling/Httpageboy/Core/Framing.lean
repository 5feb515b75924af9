import Httpageboy.Core.Message
import Httpageboy.Lib.Search

set_option relaxedAutoImplicit false
set_option autoImplicit false

/-!
# The request framer

`extract_body_headers` and `take_framed_request` of `request.rs`: where one request ends in
the receive buffer of a connection. The chunk loop runs on the suffix `buffer[cursor..]`, so
`buffer.len() - cursor` is the length of the suffix.

## Main definitions

* `Httpageboy.extractBodyHeaders` — how a head declares its body.
* `Httpageboy.chunkStep`, `Httpageboy.chunkLoop` — the loop over the chunks of a chunked body.
* `Httpageboy.takeFramedRequest` — one request taken off the buffer, and the buffer left.

## Main results

* `Httpageboy.chunkStep_chunk` — everything a turn of the chunk loop can do.
-/

namespace Httpageboy

open Search

/-! ## Framing headers -/

/-- `BodyFraming`. -/
inductive BodyFraming where
  | none
  | length (n : ℕ)
  | chunked
  deriving DecidableEq, Repr

/-- The inner loop of `extract_body_headers`, over the codings of one transfer-encoding line. -/
def pushCodings : List Str → List Str → Except StatusCode (List Str)
  | [], transferCodings => .ok transferCodings
  | coding :: codings, transferCodings =>
    let coding := Str.trim coding
    if coding = [] then .error .badRequest
    else pushCodings codings (transferCodings ++ [Str.toAsciiLowercase coding])

/-- The loop of `extract_body_headers` over the header lines, up to the first empty line. -/
def headerLoop : List Str → Option ℕ → List Str → Except StatusCode (Option ℕ × List Str)
  | [], contentLength, transferCodings => .ok (contentLength, transferCodings)
  | line :: lines, contentLength, transferCodings =>
    if line = [] then .ok (contentLength, transferCodings)
    else
      match Str.splitOnce ':' line with
      | none => .error .badRequest
      | some (name, value) =>
        if Str.eqIgnoreAsciiCase name "content-length".toList then
          if contentLength.isSome then .error .badRequest
          else
            match Str.fromStrRadix 10 usizeMax (Str.trim value) with
            | none => .error .badRequest
            | some length => headerLoop lines (some length) transferCodings
        else if Str.eqIgnoreAsciiCase name "transfer-encoding".toList then
          match pushCodings (value.splitOn ',') transferCodings with
          | .error status => .error status
          | .ok transferCodings => headerLoop lines contentLength transferCodings
        else headerLoop lines contentLength transferCodings

/-- `extract_body_headers` on the lines behind the request line. -/
def bodyFraming (lines : List Str) : Except StatusCode BodyFraming :=
  match headerLoop lines none [] with
  | .error status => .error status
  | .ok (contentLength, transferCodings) =>
    if contentLength.isSome ∧ transferCodings ≠ [] then .error .badRequest
    else if transferCodings ≠ [] then
      if transferCodings ≠ ["chunked".toList] then .error .notImplemented
      else .ok .chunked
    else
      match contentLength with
      | some length => .ok (.length length)
      | none => .ok .none

/-- `extract_body_headers`. -/
def extractBodyHeaders (raw : Str) : Except StatusCode BodyFraming :=
  bodyFraming ((splitPair '\r' '\n' raw).drop 1)

/-! ## Chunks -/

/-- `find_crlf`. -/
def findCrlf (bytes : Bytes) : Option ℕ := position crlf bytes

/-- The size a chunk-size line announces: the text before the first semicolon. -/
def chunkSize (line : Bytes) : Except StatusCode ℕ :=
  match Utf8.decode line with
  | none => .error .badRequest
  | some line =>
    let sizeText := Str.trim ((line.splitOn ';').headD [])
    if sizeText = [] then .error .badRequest
    else
      match Str.fromStrRadix 16 u64Max sizeText with
      | none => .error .badRequest
      | some size => if size ≤ usizeMax then .ok size else .error .payloadTooLarge

/-- What follows the last chunk line: the suffix after the trailer section and the empty line
that ends it, or `none` when it is not complete yet. -/
def takeTrailer (limits : RequestLimits) (rest : Bytes) : Except StatusCode (Option Bytes) :=
  if rest.length < 2 then .ok none
  else if rest.take 2 = crlf then .ok (some (rest.drop 2))
  else
    match position crlfcrlf rest with
    | none =>
      if rest.length > limits.headerBytes then .error .requestHeaderFieldsTooLarge
      else .ok none
    | some trailerLen =>
      if trailerLen + 4 > limits.headerBytes then .error .requestHeaderFieldsTooLarge
      else
        match Utf8.decode (rest.take trailerLen) with
        | none => .error .badRequest
        | some trailer =>
          if (splitPair '\r' '\n' trailer).any fun line => line ≠ [] ∧ ':' ∉ line then
            .error .badRequest
          else .ok (some (rest.drop (trailerLen + 4)))

/-- What one turn of the chunk loop comes to. -/
inductive ChunkStep where
  /-- The buffer ends inside the chunk: `return Ok(None)`. -/
  | wait
  /-- The last chunk and its trailer section are complete; `rest` follows them. -/
  | last (rest : Bytes)
  /-- One chunk with its data, and the loop variables for the next turn. -/
  | chunk (data rest : Bytes) (cursor metadataBytes : ℕ)

/-- One turn of the chunk loop of `take_framed_request`, at `cursor` with
`rest = buffer[cursor..]`, when `decodedLen` bytes have been decoded. -/
def chunkStep (limits : RequestLimits) (cursor : ℕ) (rest : Bytes) (decodedLen metadataBytes : ℕ) :
    Except StatusCode ChunkStep :=
  match findCrlf rest with
  | none =>
    if rest.length > limits.headerBytes then .error .requestHeaderFieldsTooLarge
    else .ok .wait
  | some lineLen =>
    let metadataBytes := saturatingAdd metadataBytes (lineLen + 2)
    if metadataBytes > limits.headerBytes then .error .requestHeaderFieldsTooLarge
    else
      match chunkSize (rest.take lineLen) with
      | .error status => .error status
      | .ok size =>
        let cursor := cursor + lineLen + 2
        let rest := rest.drop (lineLen + 2)
        if size = 0 then
          match takeTrailer limits rest with
          | .error status => .error status
          | .ok none => .ok .wait
          | .ok (some rest) => .ok (.last rest)
        else if saturatingAdd decodedLen size > limits.bodyBytes then .error .payloadTooLarge
        else
          match checkedAdd cursor size with
          | none => .error .payloadTooLarge
          | some dataEnd =>
            match checkedAdd dataEnd 2 with
            | none => .error .payloadTooLarge
            | some chunkEnd =>
              -- `buffer.len() < chunk_end`, counted from the cursor
              if rest.length < size + 2 then .ok .wait
              else if (rest.drop size).take 2 ≠ crlf then .error .badRequest
              else .ok (.chunk (rest.take size) (rest.drop (size + 2)) chunkEnd metadataBytes)

/-- Everything a turn behind a size line can do: the last chunk with its trailer section, or the
data that the line announces. -/
def BehindLine (limits : RequestLimits) (cursor decodedLen metadataBytes size : ℕ) (tail : Bytes)
    (step : ChunkStep) : Prop :=
  (size = 0 ∧ ((takeTrailer limits tail = .ok none ∧ step = .wait) ∨
    ∃ rest, takeTrailer limits tail = .ok (some rest) ∧ step = .last rest)) ∨
  (size ≠ 0 ∧ saturatingAdd decodedLen size ≤ limits.bodyBytes ∧ cursor + size + 2 ≤ usizeMax ∧
    ((tail.length < size + 2 ∧ step = .wait) ∨
      ∃ data rest, tail = data ++ crlf ++ rest ∧ data.length = size ∧
        step = .chunk data rest (cursor + size + 2) metadataBytes))

/-- Everything a turn of the chunk loop can do, but for the errors.

**Proof sketch.** Follow the branches of the turn. -/
lemma chunkStep_cases {limits : RequestLimits} {cursor decodedLen metadataBytes : ℕ} {rest : Bytes}
    {step : ChunkStep} (h : chunkStep limits cursor rest decodedLen metadataBytes = .ok step) :
    (rest.length ≤ limits.headerBytes ∧ step = .wait) ∨
    ∃ line tail size, rest = line ++ crlf ++ tail ∧ findCrlf rest = some line.length ∧
      saturatingAdd metadataBytes (line.length + 2) ≤ limits.headerBytes ∧
      chunkSize line = .ok size ∧
      BehindLine limits (cursor + line.length + 2) decodedLen
        (saturatingAdd metadataBytes (line.length + 2)) size tail step := by
  unfold chunkStep at h
  cases hpos : findCrlf rest with
  | none =>
    simp only [hpos] at h
    by_cases hmax : rest.length > limits.headerBytes
    · rw [if_pos hmax] at h
      cases h
    · rw [if_neg hmax] at h
      exact .inl ⟨Nat.not_lt.1 hmax, (Except.ok.inj h).symm⟩
  | some lineLen =>
    simp only [hpos] at h
    obtain ⟨line, tail, hrest, rfl⟩ := exists_of_position hpos
    have htake : rest.take line.length = line := by simp [hrest]
    have hdrop : rest.drop (line.length + 2) = tail := by simp [hrest, crlf]
    rw [htake, hdrop] at h
    by_cases hmeta : saturatingAdd metadataBytes (line.length + 2) > limits.headerBytes
    · rw [if_pos hmeta] at h
      cases h
    rw [if_neg hmeta] at h
    cases hsize : chunkSize line with
    | error status => simp [hsize] at h
    | ok size =>
      refine .inr ⟨line, tail, size, hrest, rfl, Nat.not_lt.1 hmeta, hsize, ?_⟩
      simp only [hsize] at h
      by_cases hzero : size = 0
      · rw [if_pos hzero] at h
        refine .inl ⟨hzero, ?_⟩
        cases htrailer : takeTrailer limits tail with
        | error status => simp [htrailer] at h
        | ok result =>
          cases result with
          | none => exact .inl ⟨rfl, by simpa [htrailer] using h.symm⟩
          | some rest' => exact .inr ⟨rest', rfl, by simpa [htrailer] using h.symm⟩
      rw [if_neg hzero] at h
      by_cases hbody : saturatingAdd decodedLen size > limits.bodyBytes
      · rw [if_pos hbody] at h
        cases h
      rw [if_neg hbody] at h
      cases hdata : checkedAdd (cursor + line.length + 2) size with
      | none => simp [hdata] at h
      | some dataEnd =>
        obtain ⟨rfl, -⟩ := checkedAdd_eq_some_iff.1 hdata
        cases hend : checkedAdd (cursor + line.length + 2 + size) 2 with
        | none => simp [hdata, hend] at h
        | some chunkEnd =>
          obtain ⟨rfl, hword⟩ := checkedAdd_eq_some_iff.1 hend
          simp only [hdata, hend] at h
          refine .inr ⟨hzero, Nat.not_lt.1 hbody, hword, ?_⟩
          by_cases hshort : tail.length < size + 2
          · rw [if_pos hshort] at h
            exact .inl ⟨hshort, (Except.ok.inj h).symm⟩
          rw [if_neg hshort] at h
          by_cases hcrlf : (tail.drop size).take 2 ≠ crlf
          · rw [if_pos hcrlf] at h
            cases h
          rw [if_neg hcrlf] at h
          refine .inr ⟨tail.take size, tail.drop (size + 2), ?_, ?_, (Except.ok.inj h).symm⟩
          · rw [← not_not.1 hcrlf, List.append_assoc, ← List.drop_drop, List.take_append_drop,
              List.take_append_drop]
          · rw [List.length_take]
            omega

/-- What a turn that reads a chunk can do: the line, the data of the announced length and its
terminator come off the suffix, and the counters move along. -/
lemma chunkStep_chunk {limits : RequestLimits} {cursor decodedLen metadataBytes : ℕ}
    {rest data rest' : Bytes} {cursor' metadataBytes' : ℕ}
    (h : chunkStep limits cursor rest decodedLen metadataBytes =
      .ok (.chunk data rest' cursor' metadataBytes')) :
    ∃ line, rest = line ++ crlf ++ data ++ crlf ++ rest' ∧
      findCrlf rest = some line.length ∧
      chunkSize line = .ok data.length ∧ data ≠ [] ∧
      metadataBytes' = saturatingAdd metadataBytes (line.length + 2) ∧
      metadataBytes' ≤ limits.headerBytes ∧
      saturatingAdd decodedLen data.length ≤ limits.bodyBytes ∧
      cursor' = cursor + line.length + 2 + data.length + 2 ∧ cursor' ≤ usizeMax := by
  obtain ⟨-, hstep⟩ | ⟨line, tail, size, hrest, hline, hmeta, hsize, hbehind⟩ := chunkStep_cases h
  · cases hstep
  obtain ⟨-, ⟨-, hstep⟩ | ⟨_, -, hstep⟩⟩ |
    ⟨hne, hbody, hword, ⟨-, hstep⟩ | ⟨_, _, htail, hlength, hstep⟩⟩ := hbehind
  · cases hstep
  · cases hstep
  · cases hstep
  · cases hstep
    subst htail hlength
    refine ⟨line, ?_, hline, hsize, List.ne_nil_of_length_pos (Nat.pos_of_ne_zero hne), rfl, hmeta,
      hbody, rfl, hword⟩
    rw [hrest]
    simp only [List.append_assoc]

/-- What the turn at the last chunk can do: a line that announces no data, and a complete trailer
section behind it. -/
lemma chunkStep_last {limits : RequestLimits} {cursor decodedLen metadataBytes : ℕ}
    {rest rest' : Bytes}
    (h : chunkStep limits cursor rest decodedLen metadataBytes = .ok (.last rest')) :
    ∃ line tail, rest = line ++ crlf ++ tail ∧ findCrlf rest = some line.length ∧
      chunkSize line = .ok 0 ∧ saturatingAdd metadataBytes (line.length + 2) ≤ limits.headerBytes ∧
      takeTrailer limits tail = .ok (some rest') := by
  obtain ⟨-, hstep⟩ | ⟨line, tail, size, hrest, hline, hmeta, hsize, hbehind⟩ := chunkStep_cases h
  · cases hstep
  obtain ⟨rfl, ⟨-, hstep⟩ | ⟨_, htrailer, hstep⟩⟩ | ⟨-, -, -, ⟨-, hstep⟩ | ⟨_, _, -, -, hstep⟩⟩ :=
    hbehind
  · cases hstep
  · cases hstep
    exact ⟨line, tail, hrest, hline, hsize, hmeta, htrailer⟩
  · cases hstep
  · cases hstep

/-- Every turn that reads a chunk shortens the suffix. -/
lemma length_of_chunkStep {limits : RequestLimits} {cursor decodedLen metadataBytes : ℕ}
    {rest data rest' : Bytes} {cursor' metadataBytes' : ℕ}
    (h : chunkStep limits cursor rest decodedLen metadataBytes =
      .ok (.chunk data rest' cursor' metadataBytes')) : rest'.length < rest.length := by
  obtain ⟨line, rfl, -⟩ := chunkStep_chunk h
  simp only [crlf, List.length_append, List.length_cons, List.length_nil]
  omega

/-- The chunk loop of `take_framed_request`. It returns the decoded body and the suffix after
the chunked body. -/
def chunkLoop (limits : RequestLimits) (cursor : ℕ) (rest decoded : Bytes) (metadataBytes : ℕ) :
    Except StatusCode (Option (Bytes × Bytes)) :=
  match _h : chunkStep limits cursor rest decoded.length metadataBytes with
  | .error status => .error status
  | .ok .wait => .ok none
  | .ok (.last rest) => .ok (some (decoded, rest))
  | .ok (.chunk data rest cursor metadataBytes) =>
    chunkLoop limits cursor rest (decoded ++ data) metadataBytes
termination_by rest.length
decreasing_by exact length_of_chunkStep _h

/-! ## One request -/

/-- The first word of the request line, the empty text when there is none. -/
def methodToken (head : Str) : Str :=
  (((splitPair '\r' '\n' head).head?.bind fun line => (Str.splitWhitespace line).head?)).getD []

/-- The methods whose body may come without a declared length. -/
def unframedBody (method : Str) : Bool :=
  ["POST".toList, "PUT".toList, "DELETE".toList, "PATCH".toList, "QUERY".toList].contains method

/-- The body stage of `take_framed_request`, `match framing`, behind a head that ends at
`headEnd`. -/
def takeBody (buffer : Bytes) (limits : RequestLimits) (idleEnd : Bool) (headEnd : ℕ)
    (head : Str) : BodyFraming → Except StatusCode (Option Bytes) × Bytes
  | .none =>
    if unframedBody (methodToken head) then
      if buffer.length - headEnd > limits.bodyBytes then (.error .payloadTooLarge, buffer)
      else if !idleEnd then (.ok none, buffer)
      else (.ok (some buffer), [])
    else (.ok (some (buffer.take headEnd)), buffer.drop headEnd)
  | .length length =>
    if length > limits.bodyBytes then (.error .payloadTooLarge, buffer)
    else
      match checkedAdd headEnd length with
      | none => (.error .payloadTooLarge, buffer)
      | some fin =>
        if buffer.length < fin then (.ok none, buffer)
        else (.ok (some (buffer.take fin)), buffer.drop fin)
  | .chunked =>
    match chunkLoop limits headEnd (buffer.drop headEnd) [] 0 with
    | .error status => (.error status, buffer)
    | .ok none => (.ok none, buffer)
    | .ok (some (decoded, rest)) => (.ok (some (buffer.take headEnd ++ decoded)), rest)

/-- `take_framed_request`: the request taken off the buffer, together with the buffer the call
leaves behind. -/
def takeFramedRequest (buffer : Bytes) (limits : RequestLimits) (idleEnd : Bool) :
    Except StatusCode (Option Bytes) × Bytes :=
  match position crlfcrlf buffer with
  | none =>
    if buffer.length > limits.headerBytes then (.error .requestHeaderFieldsTooLarge, buffer)
    else (.ok none, buffer)
  | some separator =>
    let headEnd := separator + 4
    if headEnd > limits.headerBytes then (.error .requestHeaderFieldsTooLarge, buffer)
    else
      match Utf8.decode (buffer.take separator) with
      | none => (.error .badRequest, buffer)
      | some head =>
        match extractBodyHeaders head with
        | .error status => (.error status, buffer)
        | .ok framing => takeBody buffer limits idleEnd headEnd head framing

end Httpageboy
