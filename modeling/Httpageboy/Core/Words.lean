import Httpageboy.Core.Request
import Httpageboy.Lib.Checked

set_option relaxedAutoImplicit false
set_option autoImplicit false

/-!
# The framer and the parser, with their slices and words

`take_framed_request` and `parse_raw_only` once more, operation by operation: positions in the
buffer are words, and every slice, index, unchecked addition and cut of a text can fault. The
operations that the source guards itself (`checked_add`, `saturating_add`, `saturating_sub`) are
those of the model without faults. The loop over the chunks has fuel, and faults without it.

## Main definitions

* `Httpageboy.Words.takeFramedRequest`, `Httpageboy.Words.parseRawOnly`.
-/

namespace Httpageboy.Words

open Search Checked

variable {H U : Type}

/-- `isize::MAX`, the largest length of a vector. -/
def isizeMax : ℕ := 2 ^ 63 - 1

/-- An addition of two `usize`. -/
def addWord (a b : ℕ) : Result ℕ := Checked.add usizeMax a b

/-- `extend_from_slice` on a vector of bytes. -/
def extendVec (l m : Bytes) : Result Bytes := Checked.extend isizeMax l m

/-! ## `take_framed_request` -/

/-- `extract_body_headers` behind its loop, with `transfer_codings[0]`. -/
def extractBodyHeaders (raw : Str) : Result (Except StatusCode BodyFraming) :=
  match headerLoop ((splitPair '\r' '\n' raw).drop 1) none [] with
  | .error status => .ok (.error status)
  | .ok (contentLength, transferCodings) =>
    if contentLength.isSome ∧ transferCodings ≠ [] then .ok (.error .badRequest)
    else if transferCodings ≠ [] then
      if transferCodings.length ≠ 1 then .ok (.error .notImplemented)
      else do
        let coding ← index transferCodings 0
        if coding ≠ "chunked".toList then .ok (.error .notImplemented)
        else .ok (.ok .chunked)
    else
      match contentLength with
      | some length => .ok (.ok (.length length))
      | none => .ok (.ok .none)

/-- The trailer section behind the last chunk line: `consumed`, the end of the request, or `none`
when it is not complete yet. -/
def trailerEnd (limits : RequestLimits) (buffer : Bytes) (cursor : ℕ) :
    Result (Except StatusCode (Option ℕ)) := do
  let needed ← addWord cursor 2
  if buffer.length < needed then .ok (.ok none)
  else do
    let fin ← addWord cursor 2
    let start ← slice buffer cursor fin
    if start = crlf then do
      let consumed ← addWord cursor 2
      .ok (.ok (some consumed))
    else do
      let rest ← sliceFrom buffer cursor
      match position crlfcrlf rest with
      | none =>
        if buffer.length - cursor > limits.headerBytes then
          .ok (.error .requestHeaderFieldsTooLarge)
        else .ok (.ok none)
      | some trailerLen => do
        let sectionLen ← addWord trailerLen 4
        if sectionLen > limits.headerBytes then .ok (.error .requestHeaderFieldsTooLarge)
        else do
          let trailerFin ← addWord cursor trailerLen
          let bytes ← slice buffer cursor trailerFin
          match Utf8.decode bytes with
          | none => .ok (.error .badRequest)
          | some trailer =>
            if (splitPair '\r' '\n' trailer).any fun line => line ≠ [] ∧ ':' ∉ line then
              .ok (.error .badRequest)
            else do
              let trailerFin ← addWord cursor trailerLen
              let consumed ← addWord trailerFin 4
              .ok (.ok (some consumed))

/-- What one turn of the chunk loop comes to. -/
inductive ChunkStep where
  /-- `return Ok(None)`. -/
  | wait
  /-- The request ends at `consumed`. -/
  | last (consumed : ℕ)
  /-- One chunk with its data, and the loop variables for the next turn. -/
  | chunk (data : Bytes) (cursor metadataBytes : ℕ)

/-- One turn of the chunk loop. -/
def chunkStep (limits : RequestLimits) (buffer : Bytes) (cursor decodedLen metadataBytes : ℕ) :
    Result (Except StatusCode ChunkStep) := do
  let rest ← sliceFrom buffer cursor
  match findCrlf rest with
  | none =>
    if buffer.length - cursor > limits.headerBytes then .ok (.error .requestHeaderFieldsTooLarge)
    else .ok (.ok .wait)
  | some lineLen => do
    let lineBytes ← addWord lineLen 2
    let metadataBytes := saturatingAdd metadataBytes lineBytes
    if metadataBytes > limits.headerBytes then .ok (.error .requestHeaderFieldsTooLarge)
    else do
      let lineEnd ← addWord cursor lineLen
      let line ← slice buffer cursor lineEnd
      match chunkSize line with
      | .error status => .ok (.error status)
      | .ok size => do
        let cursor ← addWord lineEnd 2
        if size = 0 then do
          let trailer ← trailerEnd limits buffer cursor
          match trailer with
          | .error status => .ok (.error status)
          | .ok none => .ok (.ok .wait)
          | .ok (some consumed) => .ok (.ok (.last consumed))
        else if saturatingAdd decodedLen size > limits.bodyBytes then
          .ok (.error .payloadTooLarge)
        else
          match checkedAdd cursor size with
          | none => .ok (.error .payloadTooLarge)
          | some dataEnd =>
            match checkedAdd dataEnd 2 with
            | none => .ok (.error .payloadTooLarge)
            | some chunkEnd =>
              if buffer.length < chunkEnd then .ok (.ok .wait)
              else do
                let terminator ← slice buffer dataEnd chunkEnd
                if terminator ≠ crlf then .ok (.error .badRequest)
                else do
                  let data ← slice buffer cursor dataEnd
                  .ok (.ok (.chunk data chunkEnd metadataBytes))

/-- The chunk loop, and the request it returns with the buffer it leaves. -/
def chunkLoop (limits : RequestLimits) (buffer : Bytes) (headEnd : ℕ) :
    ℕ → ℕ → Bytes → ℕ → Result (Except StatusCode (Option Bytes) × Bytes)
  | 0, _, _, _ => .error .fuel
  | fuel + 1, cursor, decoded, metadataBytes => do
    let step ← chunkStep limits buffer cursor decoded.length metadataBytes
    match step with
    | .error status => .ok (.error status, buffer)
    | .ok .wait => .ok (.ok none, buffer)
    | .ok (.last consumed) => do
      let head ← slice buffer 0 headEnd
      let raw ← extendVec head decoded
      let drained ← drain buffer consumed
      .ok (.ok (some raw), drained.2)
    | .ok (.chunk data cursor metadataBytes) => do
      let decoded ← extendVec decoded data
      chunkLoop limits buffer headEnd fuel cursor decoded metadataBytes

/-- The body stage, `match framing`. -/
def takeBody (fuel : ℕ) (buffer : Bytes) (limits : RequestLimits) (idleEnd : Bool) (headEnd : ℕ)
    (head : Str) : BodyFraming → Result (Except StatusCode (Option Bytes) × Bytes)
  | .none =>
    if unframedBody (methodToken head) then
      if buffer.length - headEnd > limits.bodyBytes then .ok (.error .payloadTooLarge, buffer)
      else if !idleEnd then .ok (.ok none, buffer)
      else do
        let drained ← drain buffer buffer.length
        .ok (.ok (some drained.1), drained.2)
    else do
      let drained ← drain buffer headEnd
      .ok (.ok (some drained.1), drained.2)
  | .length length =>
    if length > limits.bodyBytes then .ok (.error .payloadTooLarge, buffer)
    else
      match checkedAdd headEnd length with
      | none => .ok (.error .payloadTooLarge, buffer)
      | some fin =>
        if buffer.length < fin then .ok (.ok none, buffer)
        else do
          let drained ← drain buffer fin
          .ok (.ok (some drained.1), drained.2)
  | .chunked => chunkLoop limits buffer headEnd fuel headEnd [] 0

/-- `take_framed_request`. -/
def takeFramedRequest (fuel : ℕ) (buffer : Bytes) (limits : RequestLimits) (idleEnd : Bool) :
    Result (Except StatusCode (Option Bytes) × Bytes) :=
  match position crlfcrlf buffer with
  | none =>
    if buffer.length > limits.headerBytes then .ok (.error .requestHeaderFieldsTooLarge, buffer)
    else .ok (.ok none, buffer)
  | some separator => do
    let headEnd ← addWord separator 4
    if headEnd > limits.headerBytes then .ok (.error .requestHeaderFieldsTooLarge, buffer)
    else do
      let bytes ← slice buffer 0 separator
      match Utf8.decode bytes with
      | none => .ok (.error .badRequest, buffer)
      | some head => do
        let framing ← extractBodyHeaders head
        match framing with
        | .error status => .ok (.error status, buffer)
        | .ok framing => takeBody fuel buffer limits idleEnd headEnd head framing

/-! ## `parse_raw_only` -/

/-- The loop of `extract_params`, with `path_parts[i]`. -/
def extractLoop (pathParts : List Str) :
    ℕ → List Str → HashMap Str Str → Result (Option (HashMap Str Str))
  | _, [], sorted => .ok (some sorted)
  | i, part :: parts, sorted =>
    if isPlaceholder part then do
      let pathPart ← index pathParts i
      extractLoop pathParts (i + 1) parts (sorted.insert (trimBraces part) pathPart)
    else do
      let pathPart ← index pathParts i
      if part ≠ pathPart then .ok none
      else extractLoop pathParts (i + 1) parts sorted

/-- `extract_params`. -/
def extractParams (route path : Str) : Result (HashMap Str Str) :=
  let routeParts := route.splitOn '/'
  let pathParts := path.splitOn '/'
  if routeParts.length ≠ pathParts.length then .ok ∅
  else do
    let result ← extractLoop pathParts 0 routeParts ∅
    .ok (result.getD ∅)

/-- The loop of `parse_raw_only` over the keys of the table. -/
def firstParams (method : RequestType) (path : Str) :
    List (RequestType × Str) → Result (HashMap Str Str)
  | [] => .ok ∅
  | (m, routePath) :: keys =>
    if m = method then do
      let pathParams ← extractParams routePath path
      if pathParams.entries ≠ [] then .ok pathParams
      else firstParams method path keys
    else firstParams method path keys

/-- The path of a request target, and its query: `find`, a slice and `truncate`. -/
def splitTarget (target : Str) : Result (Str × Option Str) :=
  match find '?' target with
  | some offset => do
    let behind ← addWord offset 1
    let query ← strFrom target behind
    let path ← truncate target offset
    .ok (path, some query)
  | none => .ok (target, none)

/-- `parse_raw_only` behind the separator, with `parts[0]`, `parts[1]` and `parts[2]`. -/
def parseHead (head : Str) (body : Bytes) (routes : Routes H U) :
    Result (Except Response Request) :=
  match splitPair '\r' '\n' head with
  | [] => .ok (.error (errorResponse .badRequest))
  | requestLine :: lines =>
    let parts := Str.splitWhitespace requestLine
    if parts.length ≠ 3 then .ok (.error (errorResponse .badRequest))
    else do
      let method ← index parts 0
      let target ← index parts 1
      let version ← index parts 2
      if !allowed.contains method then .ok (.error (errorResponse .methodNotAllowed))
      else if version ≠ httpVersion then .ok (.error (errorResponse .httpVersionNotSupported))
      else if (Utf8.encode target).length > maxUri then .ok (.error (errorResponse .uriTooLong))
      else do
        let split ← splitTarget target
        let params ← firstParams (RequestType.fromStr method) split.1 routes.keys
        .ok (.ok
          { method := RequestType.fromStr method
            path := split.1
            version := version
            headers := parseHeaders lines
            body := body
            params := match split.2 with
              | some query => insertQuery query params
              | none => params })

/-- `parse_raw_only`. -/
def parseRawOnly (raw : Bytes) (routes : Routes H U) : Result (Except Response Request) :=
  match position crlfcrlf raw with
  | none => .ok (.error (errorResponse .badRequest))
  | some separator => do
    let bytes ← slice raw 0 separator
    match Utf8.decode bytes with
    | none => .ok (.error (errorResponse .badRequest))
    | some head => do
      let bodyStart ← addWord separator 4
      let body ← sliceFrom raw bodyStart
      parseHead head body routes

end Httpageboy.Words
