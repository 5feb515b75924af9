import Httpageboy.Core.Words
import Httpageboy.Framing.Conservation
import Httpageboy.Framing.Stability

set_option relaxedAutoImplicit false
set_option autoImplicit false

/-!
# No input makes the framer or the parser fault

The operations of `take_framed_request` and `parse_raw_only` stay within the buffer and the
machine words, whatever the client sends and whatever the limits are. Both functions with their
slices and words return what the model without faults returns, so that every other result about
that model is one about them.

## Main results

* `Httpageboy.Words.chunkStep_refines` — a turn of the chunk loop stays in the buffer and moves the
  cursor forward.
* `Httpageboy.Words.takeFramedRequest_eq`, `Httpageboy.Words.parseRawOnly_eq` — no fault.
* `Httpageboy.Words.faultless` — both together.
-/

namespace Httpageboy.Words

open Search Checked

variable {H U : Type}

/-! ## Words -/

/-- An addition that fits a word does not fault. -/
lemma addWord_eq {a b : ℕ} (h : a + b ≤ usizeMax) : addWord a b = .ok (a + b) := add_eq h

/-- A vector may grow up to the greatest size of an allocation. -/
lemma extendVec_eq {l m : Bytes} (h : l.length + m.length ≤ isizeMax) :
    extendVec l m = .ok (l ++ m) := extend_eq h

/-- Two lengths of vectors can be added. -/
lemma isizeMax_add_le : isizeMax + isizeMax ≤ usizeMax := by decide

/-- A small constant can be added to a position in a vector. -/
lemma add_le_usizeMax {n k : ℕ} (hn : n ≤ isizeMax) (hk : k ≤ 4) : n + k ≤ usizeMax := by
  have hfour : 4 ≤ isizeMax := by decide
  have htwo := isizeMax_add_le
  omega

/-! ## Framing headers -/

/-- Reading the headers that frame the body does not fault. -/
lemma extractBodyHeaders_eq (raw : Str) :
    Words.extractBodyHeaders raw = .ok (Httpageboy.extractBodyHeaders raw) := by
  unfold Words.extractBodyHeaders Httpageboy.extractBodyHeaders bodyFraming
  rcases headerLoop ((splitPair '\r' '\n' raw).drop 1) none [] with
    status | ⟨contentLength, transferCodings⟩
  · rfl
  simp only
  by_cases hmixed : contentLength.isSome ∧ transferCodings ≠ []
  · rw [if_pos hmixed, if_pos hmixed]
  rw [if_neg hmixed, if_neg hmixed]
  cases transferCodings with
  | nil => cases contentLength <;> rfl
  | cons coding codings =>
    rw [if_pos (List.cons_ne_nil _ _), if_pos (List.cons_ne_nil _ _)]
    cases codings with
    | nil =>
      have hone : ¬ [coding].length ≠ 1 := fun h => h rfl
      rw [if_neg hone, index_eq rfl, ok_bind]
      by_cases hchunked : coding = "chunked".toList
      · rw [if_neg (not_not.2 hchunked), if_neg (not_not.2 (by rw [hchunked]))]
      · rw [if_pos hchunked, if_pos fun h => hchunked (List.cons.inj h).1]
    | cons coding' codings =>
      have htwo : (coding :: coding' :: codings).length ≠ 1 := by simp
      rw [if_pos htwo, if_pos fun h => List.cons_ne_nil _ _ (List.cons.inj h).2]

/-! ## Chunks -/

/-- The trailer section ends within the buffer.

**Proof sketch.** Along the branches of the code: each sum is one of positions within the buffer, so
that it fits a word, and each slice ends within the buffer. -/
lemma trailerEnd_refines (limits : RequestLimits) {buffer : Bytes} {cursor : ℕ}
    (hbuffer : buffer.length ≤ isizeMax) (hcursor : cursor ≤ buffer.length) :
    ∃ result, trailerEnd limits buffer cursor = .ok result ∧
      takeTrailer limits (buffer.drop cursor) = result.map (Option.map (buffer.drop ·)) ∧
      ∀ consumed, result = .ok (some consumed) → cursor ≤ consumed ∧ consumed ≤ buffer.length := by
  have hrest : (buffer.drop cursor).length = buffer.length - cursor := List.length_drop
  have htwo : cursor + 2 ≤ usizeMax := add_le_usizeMax (hcursor.trans hbuffer) (by omega)
  unfold trailerEnd takeTrailer
  rw [addWord_eq htwo, ok_bind, ok_bind]
  by_cases hshort : buffer.length < cursor + 2
  · rw [if_pos hshort, if_pos (show (buffer.drop cursor).length < 2 by omega)]
    exact ⟨.ok none, rfl, rfl, fun _ h => by cases h⟩
  rw [if_neg hshort, if_neg (show ¬ (buffer.drop cursor).length < 2 by omega),
    slice_add (by omega), ok_bind]
  by_cases hempty : (buffer.drop cursor).take 2 = crlf
  · rw [if_pos hempty, if_pos hempty, ok_bind]
    refine ⟨.ok (some (cursor + 2)), rfl, ?_, ?_⟩
    · rw [List.drop_drop]
      rfl
    · intro consumed h
      cases h
      exact ⟨by omega, by omega⟩
  rw [if_neg hempty, if_neg hempty, sliceFrom_eq hcursor, ok_bind]
  cases hpos : position crlfcrlf (buffer.drop cursor) with
  | none =>
    simp only
    by_cases hmax : buffer.length - cursor > limits.headerBytes
    · rw [if_pos hmax, if_pos (show (buffer.drop cursor).length > _ by omega)]
      exact ⟨.error .requestHeaderFieldsTooLarge, rfl, rfl, fun _ h => by cases h⟩
    · rw [if_neg hmax, if_neg (show ¬ (buffer.drop cursor).length > _ by omega)]
      exact ⟨.ok none, rfl, rfl, fun _ h => by cases h⟩
  | some trailerLen =>
    have hfits := length_of_position hpos
    rw [hrest, show crlfcrlf.length = 4 from rfl] at hfits
    have hfour : trailerLen + 4 ≤ usizeMax := add_le_usizeMax (by omega) le_rfl
    have hend : cursor + trailerLen + 4 ≤ usizeMax := add_le_usizeMax (by omega) le_rfl
    have hfin : cursor + trailerLen ≤ usizeMax := by omega
    simp only
    rw [addWord_eq hfour, ok_bind]
    by_cases hmax : trailerLen + 4 > limits.headerBytes
    · rw [if_pos hmax, if_pos hmax]
      exact ⟨.error .requestHeaderFieldsTooLarge, rfl, rfl, fun _ h => by cases h⟩
    rw [if_neg hmax, if_neg hmax, addWord_eq hfin, ok_bind, slice_add (by omega), ok_bind]
    cases Utf8.decode ((buffer.drop cursor).take trailerLen) with
    | none => exact ⟨.error .badRequest, rfl, rfl, fun _ h => by cases h⟩
    | some trailer =>
      simp only
      by_cases hcolon : ((splitPair '\r' '\n' trailer).any
          fun line => line ≠ [] ∧ ':' ∉ line) = true
      · rw [if_pos hcolon, if_pos hcolon]
        exact ⟨.error .badRequest, rfl, rfl, fun _ h => by cases h⟩
      · rw [if_neg hcolon, if_neg hcolon, ok_bind, addWord_eq hend, ok_bind]
        refine ⟨.ok (some (cursor + trailerLen + 4)), rfl, ?_, ?_⟩
        · rw [List.drop_drop, ← Nat.add_assoc]
          rfl
        · intro consumed h
          cases h
          exact ⟨by omega, by omega⟩

/-- A turn of the model without faults, from a turn with positions. -/
def ChunkStep.onSuffix (buffer : Bytes) : ChunkStep → Httpageboy.ChunkStep
  | .wait => .wait
  | .last consumed => .last (buffer.drop consumed)
  | .chunk data cursor metadataBytes => .chunk data (buffer.drop cursor) cursor metadataBytes

/-- A turn with positions does not fault, does what the turn on the suffix does, and moves the
cursor forward, by more than the data it reads, but not over the end. -/
def TurnRefines (buffer : Bytes) (cursor : ℕ) (turn : Result (Except StatusCode ChunkStep))
    (suffixTurn : Except StatusCode Httpageboy.ChunkStep) : Prop :=
  ∃ result, turn = .ok result ∧ suffixTurn = result.map (ChunkStep.onSuffix buffer) ∧
    (∀ consumed, result = .ok (.last consumed) → cursor ≤ consumed ∧ consumed ≤ buffer.length) ∧
    ∀ data cursor' metadataBytes', result = .ok (.chunk data cursor' metadataBytes') →
      cursor + data.length < cursor' ∧ cursor' ≤ buffer.length

namespace TurnRefines

variable {buffer : Bytes} {cursor : ℕ}

/-- Both turns reject. -/
lemma error (status : StatusCode) :
    TurnRefines buffer cursor (.ok (.error status)) (.error status) :=
  ⟨.error status, rfl, rfl, nofun, nofun⟩

/-- Both turns wait. -/
lemma wait : TurnRefines buffer cursor (.ok (.ok .wait)) (.ok .wait) :=
  ⟨.ok .wait, rfl, rfl, nofun, nofun⟩

/-- Both turns come to the end of the request. -/
lemma last {consumed : ℕ} (hle : cursor ≤ consumed) (hfits : consumed ≤ buffer.length) :
    TurnRefines buffer cursor (.ok (.ok (.last consumed)))
      (.ok (.last (buffer.drop consumed))) := by
  refine ⟨.ok (.last consumed), rfl, rfl, ?_, nofun⟩
  rintro _ ⟨⟩
  exact ⟨hle, hfits⟩

/-- Both turns read a chunk. -/
lemma chunk {data : Bytes} {cursor' metadataBytes : ℕ} (hlt : cursor + data.length < cursor')
    (hfits : cursor' ≤ buffer.length) :
    TurnRefines buffer cursor (.ok (.ok (.chunk data cursor' metadataBytes)))
      (.ok (.chunk data (buffer.drop cursor') cursor' metadataBytes)) := by
  refine ⟨.ok (.chunk data cursor' metadataBytes), rfl, rfl, nofun, ?_⟩
  rintro _ _ _ ⟨⟩
  exact ⟨hlt, hfits⟩

end TurnRefines

/-- **A turn of the chunk loop stays in the buffer.**

**Proof sketch.** The terminator of the size line lies behind the cursor and in the buffer, so do
the positions up to it. The end of the data may be any word; the slices are behind the test that
it lies in the buffer. -/
theorem chunkStep_refines (limits : RequestLimits) {buffer : Bytes} {cursor : ℕ}
    (decodedLen metadataBytes : ℕ) (hbuffer : buffer.length ≤ isizeMax)
    (hcursor : cursor ≤ buffer.length) :
    TurnRefines buffer cursor (chunkStep limits buffer cursor decodedLen metadataBytes)
      (Httpageboy.chunkStep limits cursor (buffer.drop cursor) decodedLen metadataBytes) := by
  have hrest : (buffer.drop cursor).length = buffer.length - cursor := List.length_drop
  unfold chunkStep Httpageboy.chunkStep
  rw [sliceFrom_eq hcursor, ok_bind]
  cases hpos : findCrlf (buffer.drop cursor) with
  | none =>
    simp only
    by_cases hmax : buffer.length - cursor > limits.headerBytes
    · rw [if_pos hmax, if_pos (show (buffer.drop cursor).length > _ by omega)]
      exact .error _
    · rw [if_neg hmax, if_neg (show ¬ (buffer.drop cursor).length > _ by omega)]
      exact .wait
  | some lineLen =>
    have hfits := length_of_position hpos
    rw [hrest, show crlf.length = 2 from rfl] at hfits
    have hline : lineLen + 2 ≤ usizeMax := add_le_usizeMax (by omega) (by omega)
    have hnext : cursor + lineLen + 2 ≤ usizeMax := add_le_usizeMax (by omega) (by omega)
    have hfin : cursor + lineLen ≤ usizeMax := by omega
    simp only
    rw [addWord_eq hline, ok_bind]
    by_cases hmeta : saturatingAdd metadataBytes (lineLen + 2) > limits.headerBytes
    · rw [if_pos hmeta, if_pos hmeta]
      exact .error _
    rw [if_neg hmeta, if_neg hmeta, addWord_eq hfin, ok_bind, slice_add (by omega), ok_bind]
    cases chunkSize ((buffer.drop cursor).take lineLen) with
    | error status => exact .error _
    | ok size =>
      have hdrop : (buffer.drop cursor).drop (lineLen + 2) =
          buffer.drop (cursor + lineLen + 2) := by
        rw [List.drop_drop, ← Nat.add_assoc]
      have hsuffix : (buffer.drop (cursor + lineLen + 2)).length =
          buffer.length - (cursor + lineLen + 2) := List.length_drop
      simp only
      rw [addWord_eq hnext, ok_bind, hdrop]
      by_cases hzero : size = 0
      · rw [if_pos hzero, if_pos hzero]
        obtain ⟨result, hresult, htrailer, hbounds⟩ :=
          trailerEnd_refines limits hbuffer
            (show cursor + lineLen + 2 ≤ buffer.length by omega)
        rw [hresult, htrailer, ok_bind]
        rcases result with status | _ | consumed
        · exact .error _
        · exact .wait
        · have hlast := hbounds consumed rfl
          exact .last (by omega) hlast.2
      rw [if_neg hzero, if_neg hzero]
      by_cases hbody : saturatingAdd decodedLen size > limits.bodyBytes
      · rw [if_pos hbody, if_pos hbody]
        exact .error _
      rw [if_neg hbody, if_neg hbody]
      cases hdata : checkedAdd (cursor + lineLen + 2) size with
      | none => exact .error _
      | some dataEnd =>
        obtain ⟨rfl, -⟩ := checkedAdd_eq_some_iff.1 hdata
        simp only
        cases hchunk : checkedAdd (cursor + lineLen + 2 + size) 2 with
        | none => exact .error _
        | some chunkEnd =>
          obtain ⟨rfl, -⟩ := checkedAdd_eq_some_iff.1 hchunk
          simp only
          by_cases hshort : buffer.length < cursor + lineLen + 2 + size + 2
          · rw [if_pos hshort, if_pos (show (buffer.drop _).length < size + 2 by omega)]
            exact .wait
          rw [if_neg hshort, if_neg (show ¬ (buffer.drop _).length < size + 2 by omega),
            slice_add (by omega), ok_bind, List.drop_drop]
          by_cases hterminator :
              (buffer.drop (cursor + lineLen + 2 + size)).take 2 ≠ crlf
          · rw [if_pos hterminator, if_pos hterminator]
            exact .error _
          rw [if_neg hterminator, if_neg hterminator, slice_add (by omega), ok_bind,
            List.drop_drop]
          have hlength : ((buffer.drop (cursor + lineLen + 2)).take size).length ≤ size :=
            List.length_take_le _ _
          exact .chunk (by omega) (by omega)

/-- What `take_framed_request` makes of the result of the chunk loop. -/
def finishChunked (buffer : Bytes) (headEnd : ℕ) :
    Except StatusCode (Option (Bytes × Bytes)) → Except StatusCode (Option Bytes) × Bytes
  | .error status => (.error status, buffer)
  | .ok none => (.ok none, buffer)
  | .ok (some (decoded, rest)) => (.ok (some (buffer.take headEnd ++ decoded)), rest)

/-- **The chunk loop ends without a fault**, with fuel for the bytes behind the cursor.

**Proof sketch.** Induction on the fuel: every turn that goes on moves the cursor forward. The
head and the decoded bytes together are never longer than what lies in front of the cursor. -/
theorem chunkLoop_refines {limits : RequestLimits} {buffer : Bytes} {headEnd : ℕ}
    (hbuffer : buffer.length ≤ isizeMax) :
    ∀ {fuel cursor : ℕ} {decoded : Bytes} {metadataBytes : ℕ}, buffer.length - cursor < fuel →
      cursor ≤ buffer.length → headEnd + decoded.length ≤ cursor →
      chunkLoop limits buffer headEnd fuel cursor decoded metadataBytes =
        .ok (finishChunked buffer headEnd
          (Httpageboy.chunkLoop limits cursor (buffer.drop cursor) decoded metadataBytes)) := by
  intro fuel
  induction fuel with
  | zero => intro cursor decoded metadataBytes hfuel; omega
  | succ fuel ih =>
    intro cursor decoded metadataBytes hfuel hcursor hdecoded
    obtain ⟨result, hresult, hcore, hlast, hchunk⟩ :=
      chunkStep_refines limits decoded.length metadataBytes hbuffer hcursor
    rw [chunkLoop, hresult, ok_bind, Httpageboy.chunkLoop_eq, hcore]
    rcases result with status | _ | consumed | ⟨data, cursor', metadataBytes'⟩
    · rfl
    · rfl
    · have hbounds := hlast consumed rfl
      have hhead : (buffer.take headEnd).length + decoded.length ≤ isizeMax := by
        have hlength : (buffer.take headEnd).length ≤ headEnd := List.length_take_le _ _
        omega
      simp only
      rw [slice_eq (Nat.zero_le _) (by omega), ok_bind, List.drop_zero, extendVec_eq hhead, ok_bind,
        drain_eq hbounds.2, ok_bind]
      rfl
    · have hbounds := hchunk data cursor' metadataBytes' rfl
      simp only
      rw [extendVec_eq (by omega), ok_bind]
      exact ih (by omega) hbounds.2 (by rw [List.length_append]; omega)

/-! ## `take_framed_request` -/

/-- The body stage does not fault behind a head in the buffer. -/
lemma takeBody_eq {fuel headEnd : ℕ} {buffer : Bytes} {limits : RequestLimits} {idleEnd : Bool}
    {head : Str} (framing : BodyFraming) (hfuel : buffer.length < fuel)
    (hbuffer : buffer.length ≤ isizeMax) (hhead : headEnd ≤ buffer.length) :
    takeBody fuel buffer limits idleEnd headEnd head framing =
      .ok (Httpageboy.takeBody buffer limits idleEnd headEnd head framing) := by
  cases framing with
  | none =>
    unfold takeBody Httpageboy.takeBody
    simp only
    by_cases hmethod : unframedBody (methodToken head) = true
    · rw [if_pos hmethod, if_pos hmethod]
      by_cases hlong : buffer.length - headEnd > limits.bodyBytes
      · rw [if_pos hlong, if_pos hlong]
      rw [if_neg hlong, if_neg hlong]
      cases idleEnd with
      | false => rfl
      | true =>
        rw [drain_eq le_rfl, ok_bind, List.take_length, List.drop_length]
        rfl
    · rw [if_neg hmethod, if_neg hmethod, drain_eq hhead, ok_bind]
  | length length =>
    unfold takeBody Httpageboy.takeBody
    simp only
    by_cases hlong : length > limits.bodyBytes
    · rw [if_pos hlong, if_pos hlong]
    rw [if_neg hlong, if_neg hlong]
    cases checkedAdd headEnd length with
    | none => rfl
    | some fin =>
      simp only
      by_cases hshort : buffer.length < fin
      · rw [if_pos hshort, if_pos hshort]
      · rw [if_neg hshort, if_neg hshort, drain_eq (Nat.not_lt.1 hshort), ok_bind]
  | chunked =>
    have hfinish : Httpageboy.takeBody buffer limits idleEnd headEnd head .chunked =
        finishChunked buffer headEnd
          (Httpageboy.chunkLoop limits headEnd (buffer.drop headEnd) [] 0) := by
      unfold Httpageboy.takeBody
      rcases Httpageboy.chunkLoop limits headEnd (buffer.drop headEnd) [] 0 with
        status | _ | ⟨decoded, rest⟩ <;> rfl
    rw [hfinish]
    exact chunkLoop_refines hbuffer (by omega) hhead le_rfl

/-- **The framer does not fault**, with fuel for the bytes of the buffer. -/
theorem takeFramedRequest_eq {fuel : ℕ} {buffer : Bytes} (limits : RequestLimits) (idleEnd : Bool)
    (hfuel : buffer.length < fuel) (hbuffer : buffer.length ≤ isizeMax) :
    takeFramedRequest fuel buffer limits idleEnd =
      .ok (Httpageboy.takeFramedRequest buffer limits idleEnd) := by
  unfold takeFramedRequest Httpageboy.takeFramedRequest
  cases hpos : position crlfcrlf buffer with
  | none =>
    simp only
    by_cases hmax : buffer.length > limits.headerBytes
    · rw [if_pos hmax, if_pos hmax]
    · rw [if_neg hmax, if_neg hmax]
  | some separator =>
    have hfits : separator + 4 ≤ buffer.length := length_of_position hpos
    have hfour : separator + 4 ≤ usizeMax := add_le_usizeMax (by omega) le_rfl
    simp only
    rw [addWord_eq hfour, ok_bind]
    by_cases hmax : separator + 4 > limits.headerBytes
    · rw [if_pos hmax, if_pos hmax]
    rw [if_neg hmax, if_neg hmax, slice_eq (Nat.zero_le _) (by omega), ok_bind, List.drop_zero]
    cases Utf8.decode (buffer.take separator) with
    | none => rfl
    | some head =>
      simp only
      rw [extractBodyHeaders_eq, ok_bind]
      cases Httpageboy.extractBodyHeaders head with
      | error status => rfl
      | ok framing => exact takeBody_eq framing hfuel hbuffer hfits

/-! ## `parse_raw_only` -/

/-- The loop of `extract_params` indexes the segments of the path. -/
lemma extractLoop_eq {pathParts : List Str} {i : ℕ} {parts : List Str} {sorted : HashMap Str Str}
    (h : i + parts.length = pathParts.length) :
    extractLoop pathParts i parts sorted =
      .ok (Httpageboy.extractLoop (parts.zip (pathParts.drop i)) sorted) := by
  induction parts generalizing i sorted with
  | nil => rfl
  | cons part parts ih =>
    rw [List.length_cons] at h
    have hi : i < pathParts.length := by omega
    have hindex : index pathParts i = .ok pathParts[i] :=
      index_eq (List.getElem?_eq_getElem hi)
    rw [List.drop_eq_getElem_cons hi, List.zip_cons_cons, extractLoop, Httpageboy.extractLoop,
      hindex, ok_bind, ok_bind]
    by_cases hplace : isPlaceholder part = true
    · rw [if_pos hplace, if_pos hplace]
      exact ih (by omega)
    rw [if_neg hplace, if_neg hplace]
    by_cases hpart : part ≠ pathParts[i]
    · rw [if_pos hpart, if_pos hpart]
    · rw [if_neg hpart, if_neg hpart]
      exact ih (by omega)

/-- Reading the parameters from a path does not fault. -/
lemma extractParams_eq (route path : Str) :
    extractParams route path = .ok (Httpageboy.extractParams route path) := by
  unfold extractParams Httpageboy.extractParams
  simp only
  by_cases hlength : (route.splitOn '/').length ≠ (path.splitOn '/').length
  · rw [if_pos hlength, if_pos hlength]
  · rw [if_neg hlength, if_neg hlength, extractLoop_eq (by rw [Nat.zero_add, not_not.1 hlength]),
      ok_bind, List.drop_zero]

/-- Nor does the loop over the patterns. -/
lemma firstParams_eq (method : RequestType) (path : Str) (keys : List (RequestType × Str)) :
    firstParams method path keys = .ok (Httpageboy.firstParams method path keys) := by
  induction keys with
  | nil => rfl
  | cons key keys ih =>
    obtain ⟨m, routePath⟩ := key
    rw [firstParams, Httpageboy.firstParams, ih, extractParams_eq, ok_bind]
    by_cases hmethod : m = method
    · rw [if_pos hmethod]
      by_cases hmatches : (Httpageboy.extractParams routePath path).entries ≠ []
      · rw [if_pos hmatches, if_pos ⟨hmethod, decide_eq_true hmatches⟩]
      · rw [if_neg hmatches, if_neg fun h => hmatches (of_decide_eq_true h.2)]
    · rw [if_neg hmethod, if_neg fun h => hmethod h.1]

/-- The length of a text in bytes is that of its encoding. -/
lemma byteLen_eq (s : Str) : byteLen s = (Utf8.encode s).length := by
  induction s with
  | nil => rfl
  | cons c s ih =>
    rw [byteLen_cons, Utf8.encode_cons, List.length_append, String.length_utf8EncodeChar, ih]

/-- A target is cut at its first question mark, on a character boundary. -/
lemma splitTarget_eq {target : Str} (h : byteLen target ≤ isizeMax) :
    splitTarget target =
      .ok (targetPath target, (Str.splitOnce '?' target).map Prod.snd) := by
  unfold splitTarget targetPath
  cases hsplit : Str.splitOnce '?' target with
  | none =>
    rw [find_of_notMem (Str.splitOnce_eq_none_iff.1 hsplit)]
    rfl
  | some p =>
    obtain ⟨path, query⟩ := p
    obtain ⟨rfl, hpath⟩ := Str.splitOnce_eq_some_iff.1 hsplit
    have hoffset : byteLen path + 1 ≤ usizeMax := by
      rw [byteLen_append] at h
      exact add_le_usizeMax (by omega) (by omega)
    rw [find_append hpath]
    simp only
    rw [addWord_eq hoffset, ok_bind, strFrom_append (by decide), ok_bind, truncate_append, ok_bind]
    rfl

/-- The parser does not fault behind the separator: a request line has three parts when they are
indexed, and the target is short when it is cut. -/
lemma parseHead_eq (head : Str) (body : Bytes) (routes : Routes H U) :
    parseHead head body routes = .ok (Httpageboy.parseHead head body routes) := by
  unfold parseHead Httpageboy.parseHead
  cases splitPair '\r' '\n' head with
  | nil => rfl
  | cons requestLine lines =>
    simp only
    rcases Str.splitWhitespace requestLine with
      _ | ⟨method, _ | ⟨target, _ | ⟨version, _ | ⟨more, parts⟩⟩⟩⟩
    · rfl
    · rfl
    · rfl
    · have hthree : ¬ [method, target, version].length ≠ 3 := fun h => h rfl
      rw [if_neg hthree, index_eq (a := method) rfl, ok_bind, index_eq (a := target) rfl, ok_bind,
        index_eq (a := version) rfl, ok_bind]
      simp only
      have hcontains : (!allowed.contains method) = true ↔ method ∉ allowed := by simp
      by_cases hmethod : method ∉ allowed
      · rw [if_pos (hcontains.2 hmethod), if_pos hmethod]
      rw [if_neg (mt hcontains.1 hmethod), if_neg hmethod]
      by_cases hversion : version ≠ httpVersion
      · rw [if_pos hversion, if_pos hversion]
      rw [if_neg hversion, if_neg hversion]
      by_cases hlong : (Utf8.encode target).length > maxUri
      · rw [if_pos hlong, if_pos hlong]
      have hshort : byteLen target ≤ isizeMax := by
        have hmax : maxUri ≤ isizeMax := by decide
        rw [byteLen_eq]
        omega
      rw [if_neg hlong, if_neg hlong, splitTarget_eq hshort, ok_bind, firstParams_eq, ok_bind]
      unfold buildRequest targetParams
      cases Str.splitOnce '?' target <;> rfl
    · rw [if_pos (by simp)]

/-- **The parser does not fault.** -/
theorem parseRawOnly_eq {raw : Bytes} (routes : Routes H U) (hraw : raw.length ≤ isizeMax) :
    parseRawOnly raw routes = .ok (Httpageboy.parseRawOnly raw routes) := by
  unfold parseRawOnly Httpageboy.parseRawOnly
  cases hpos : position crlfcrlf raw with
  | none => rfl
  | some separator =>
    have hfits : separator + 4 ≤ raw.length := length_of_position hpos
    have hfour : separator + 4 ≤ usizeMax := add_le_usizeMax (by omega) le_rfl
    simp only
    rw [slice_eq (Nat.zero_le _) (by omega), ok_bind, List.drop_zero]
    cases Utf8.decode (raw.take separator) with
    | none => rfl
    | some head =>
      simp only
      rw [addWord_eq hfour, ok_bind, sliceFrom_eq hfits, ok_bind]
      exact parseHead_eq head (raw.drop (separator + 4)) routes

/-- **No client input can panic or hang the framer and the parser.** For every vector, all limits
and both values of `idle_end`, the framer with its slices and words ends without a fault in as
many turns of the chunk loop as the vector has bytes and one, and returns what the framer returns;
so does the parser, with every vector and every route table. -/
theorem faultless (bytes : Bytes) (hbytes : bytes.length ≤ isizeMax) :
    (∀ (limits : RequestLimits) (idleEnd : Bool) (fuel : ℕ), bytes.length < fuel →
      takeFramedRequest fuel bytes limits idleEnd =
        .ok (Httpageboy.takeFramedRequest bytes limits idleEnd)) ∧
    ∀ routes : Routes H U,
      parseRawOnly bytes routes = .ok (Httpageboy.parseRawOnly bytes routes) :=
  ⟨fun limits idleEnd _ hfuel => takeFramedRequest_eq limits idleEnd hfuel hbytes,
    fun routes => parseRawOnly_eq routes hbytes⟩

/-- A request whose chunk announces the largest size. -/
def hugeChunk : Bytes :=
  Utf8.encode ("POST / HTTP/1.1\r\nTransfer-Encoding: chunked\r\n\r\n" ++
    "FFFFFFFFFFFFFFFF\r\nabc").toList

/-- The largest limits. -/
def hugeLimits : RequestLimits :=
  { RequestLimits.default with bodyBytes := usizeMax, headerBytes := usizeMax }

/-- Not even a chunk whose size fills a word, under limits as large, makes the framer or the parser
fault. -/
theorem faultless_hugeChunk :
    takeFramedRequest 100 hugeChunk hugeLimits false =
        .ok (Httpageboy.takeFramedRequest hugeChunk hugeLimits false) ∧
      parseRawOnly hugeChunk (∅ : Routes Unit Unit) =
        .ok (Httpageboy.parseRawOnly hugeChunk (∅ : Routes Unit Unit)) := by
  have hlength : hugeChunk.length < 100 := by decide
  have hvec : hugeChunk.length ≤ isizeMax := hlength.le.trans (by decide)
  obtain ⟨hframer, hparser⟩ := faultless (H := Unit) (U := Unit) hugeChunk hvec
  exact ⟨hframer hugeLimits false 100 hlength, hparser ∅⟩

end Httpageboy.Words
