import Httpageboy.Core.Request
import Httpageboy.Framing.Headers

set_option relaxedAutoImplicit false
set_option autoImplicit false

/-!
# Conservation of bytes

The framer either leaves the receive buffer as it is, or takes a head and the bytes its body
travels in off the front and leaves the rest. What it hands to `parse_raw_only` is the head
with the body behind it, and `parse_raw_only` cuts it at the same place.

## Main definitions

* `Httpageboy.Carries` — how the bytes on the wire carry a body, for each framing.

## Main results

* `Httpageboy.parseRawOnly_of_split` — `parse_raw_only` cuts where the framer did.
* `Httpageboy.takeFramedRequest_conserves` — no byte is lost, and a call without a request
  leaves the buffer unchanged.
-/

namespace Httpageboy

open Search

variable {H U : Type}

/-! ## Parsing what the framer hands over -/

/-- `parse_raw_only` cuts at the first blank line. -/
lemma parseRawOnly_of_split {raw body : Bytes} {head : Str} (h : BlankSplit raw head body)
    (routes : Routes H U) : parseRawOnly raw routes = parseHead head body routes := by
  simp only [parseRawOnly, h.first, h.take_eq, h.drop_eq, Utf8.decode_encode]

/-- What an accepted head says: the three words of the request line, each within what
`parse_raw_only` allows, and the request built from them. -/
lemma parseHead_eq_ok_iff {head : Str} {body : Bytes} {routes : Routes H U} {request : Request} :
    parseHead head body routes = .ok request ↔
      ∃ requestLine method path version,
        splitPair '\r' '\n' head = requestLine :: headerLines head ∧
        Str.splitWhitespace requestLine = [method, path, version] ∧ method ∈ allowed ∧
        version = httpVersion ∧ (Utf8.encode path).length ≤ maxUri ∧
        request = buildRequest method path version (headerLines head) body routes := by
  unfold parseHead headerLines
  cases hlines : splitPair '\r' '\n' head with
  | nil => simp
  | cons requestLine lines =>
    simp only [List.drop_succ_cons, List.drop_zero]
    split
    · next method path version hwords =>
      by_cases hmethod : method ∉ allowed
      · rw [if_pos hmethod]
        simp [hwords, hmethod]
      rw [if_neg hmethod]
      by_cases hversion : version ≠ httpVersion
      · rw [if_pos hversion]
        simp [hwords, hversion]
      rw [if_neg hversion]
      by_cases hpath : (Utf8.encode path).length > maxUri
      · rw [if_pos hpath]
        simp [hwords, hpath]
      rw [if_neg hpath]
      constructor
      · intro h
        cases h
        exact ⟨requestLine, method, path, version, rfl, hwords, not_not.1 hmethod,
          not_not.1 hversion, by omega, rfl⟩
      · intro h
        obtain ⟨line, method', path', version', hline, hwords', -, -, -, rfl⟩ := h
        cases hline
        rw [hwords] at hwords'
        cases hwords'
        rfl
    · next hwords =>
      simp only [reduceCtorEq, false_iff, not_exists, not_and]
      intro line method path version hline hwords'
      cases hline
      exact absurd hwords' (hwords method path version)

/-- The entry `parse_raw_only` makes of a header line. -/
def IsHeaderEntry (line : Str) (entry : Str × Str) : Prop :=
  ∃ value, Str.splitOnce ':' line = some (entry.1, value) ∧ entry.2 = Str.trimStart value

/-- Lines with a colon become one entry each, in order. -/
lemma parseHeaders_forall₂ {lines : List Str} (hcolon : ∀ line ∈ lines, ':' ∈ line) :
    List.Forall₂ IsHeaderEntry lines (parseHeaders lines) := by
  induction lines with
  | nil => exact .nil
  | cons line lines ih =>
    have ih := ih fun l hl => hcolon l (List.mem_cons_of_mem _ hl)
    cases hline : Str.splitOnce ':' line with
    | none => exact absurd (hcolon line List.mem_cons_self) (Str.splitOnce_eq_none_iff.1 hline)
    | some entry =>
      obtain ⟨name, value⟩ := entry
      have hcons : parseHeaders (line :: lines) =
          (name, Str.trimStart value) :: parseHeaders lines := by
        simp [parseHeaders, hline]
      rw [hcons]
      exact .cons ⟨value, hline, rfl⟩ ih

/-! ## Conservation -/

/-- How the bytes of `wire` carry a body, for each framing. -/
def Carries (idleEnd : Bool) (head : Str) (wire body rest : Bytes) : BodyFraming → Prop
  | .none => wire = body ∧
      ((unframedBody (methodToken head) = false ∧ body = []) ∨
        (unframedBody (methodToken head) = true ∧ idleEnd = true ∧ rest = []))
  | .length n => wire = body ∧ body.length = n
  | .chunked => ChunkedBody wire body

/-- The body stage takes the bytes that carry the body off the tail. -/
lemma exists_carries {limits : RequestLimits} {idleEnd : Bool} {head : Str}
    {tail body rest : Bytes} {framing : BodyFraming}
    (h : BodyTaken limits idleEnd head tail body rest framing) :
    ∃ wire, tail = wire ++ rest ∧ Carries idleEnd head wire body rest framing := by
  cases framing with
  | none =>
    rcases h with ⟨hmethod, hend, -, rfl, rfl⟩ | ⟨hmethod, rfl, rfl⟩
    · exact ⟨body, by simp, rfl, .inr ⟨hmethod, hend, rfl⟩⟩
    · exact ⟨[], by simp, rfl, .inl ⟨hmethod, rfl⟩⟩
  | length n =>
    obtain ⟨htail, hlen, -⟩ := h
    exact ⟨body, htail, rfl, hlen⟩
  | chunked =>
    obtain ⟨wire, data, htail, hbody, hwire⟩ := chunkLoop_sound h
    rw [List.nil_append] at hbody
    subst hbody
    exact ⟨wire, htail, hwire⟩

/-- The body stage takes a request or leaves the buffer as it is. -/
lemma takeBody_unchanged (buffer : Bytes) (limits : RequestLimits) (idleEnd : Bool) (headEnd : ℕ)
    (head : Str) (framing : BodyFraming) :
    (∃ raw, (takeBody buffer limits idleEnd headEnd head framing).1 = .ok (some raw)) ∨
      (takeBody buffer limits idleEnd headEnd head framing).2 = buffer := by
  cases framing with
  | none =>
    simp only [takeBody]
    split_ifs
    · exact .inr rfl
    · exact .inr rfl
    · exact .inl ⟨buffer, rfl⟩
    · exact .inl ⟨_, rfl⟩
  | length n =>
    simp only [takeBody]
    by_cases hbody : n > limits.bodyBytes
    · exact .inr (by simp [hbody])
    simp only [hbody, if_false]
    cases checkedAdd headEnd n with
    | none => exact .inr rfl
    | some fin =>
      by_cases hshort : buffer.length < fin
      · exact .inr (by simp [hshort])
      · exact .inl ⟨buffer.take fin, by simp [hshort]⟩
  | chunked =>
    simp only [takeBody]
    rcases chunkLoop limits headEnd (buffer.drop headEnd) [] 0 with status | _ | ⟨decoded, rest⟩
    · exact .inr rfl
    · exact .inr rfl
    · exact .inl ⟨_, rfl⟩

/-- The framer takes a request or leaves the buffer as it is. -/
lemma takeFramedRequest_unchanged (buffer : Bytes) (limits : RequestLimits) (idleEnd : Bool) :
    (∃ raw, (takeFramedRequest buffer limits idleEnd).1 = .ok (some raw)) ∨
      (takeFramedRequest buffer limits idleEnd).2 = buffer := by
  unfold takeFramedRequest
  cases position crlfcrlf buffer with
  | none =>
    by_cases hlong : buffer.length > limits.headerBytes
    · exact .inr (by simp [hlong])
    · exact .inr (by simp [hlong])
  | some separator =>
    by_cases hlong : separator + 4 > limits.headerBytes
    · exact .inr (by simp [hlong])
    simp only [hlong, if_false]
    cases Utf8.decode (buffer.take separator) with
    | none => exact .inr rfl
    | some head =>
      cases hframing : extractBodyHeaders head with
      | error status => exact .inr (by simp [hframing])
      | ok framing =>
        simp only [hframing]
        exact takeBody_unchanged buffer limits idleEnd (separator + 4) head framing

/-- Taking a request shortens the buffer. -/
lemma length_lt_of_takeFramedRequest {buffer raw rest : Bytes} {limits : RequestLimits}
    {idleEnd : Bool} (h : takeFramedRequest buffer limits idleEnd = (.ok (some raw), rest)) :
    rest.length < buffer.length := by
  obtain ⟨head, tail, framing, body, hsplit, -, -, -, hbody⟩ := takeFramedRequest_eq_some_iff.1 h
  obtain ⟨wire, rfl, -⟩ := exists_carries hbody
  have hlen := hsplit.length_eq
  rw [List.length_append] at hlen
  omega

/-- **The framer loses no byte.** A call without a request leaves the buffer unchanged. A call
with one takes a head that ends at the first blank line and the bytes that carry the body off
the front, and returns the head with the body; `parse_raw_only` cuts that at the same head, and
the request it accepts has this body and one header entry for each header line, in order.

**Proof sketch.** `takeFramedRequest_eq_some_iff` gives the cut of the buffer. The blank line
stays the first one when the body replaces the bytes that carried it, so the second search
finds the same head; its lines have a colon each because the framer accepted it. -/
theorem takeFramedRequest_conserves (buffer : Bytes) (limits : RequestLimits) (idleEnd : Bool) :
    match takeFramedRequest buffer limits idleEnd with
    | (.ok (some raw), rest) =>
      ∃ head framing wire body,
        buffer = Utf8.encode head ++ crlfcrlf ++ wire ++ rest ∧
        position crlfcrlf buffer = some (Utf8.encode head).length ∧
        raw = Utf8.encode head ++ crlfcrlf ++ body ∧
        extractBodyHeaders head = .ok framing ∧ Carries idleEnd head wire body rest framing ∧
        rest.length < buffer.length ∧
        ∀ (H U : Type) (routes : Routes H U) request, parseRawOnly raw routes = .ok request →
          position crlfcrlf raw = some (Utf8.encode head).length ∧ request.body = body ∧
          List.Forall₂ IsHeaderEntry (headerLines head) request.headers
    | (_, rest) => rest = buffer := by
  split
  · next raw rest h =>
    obtain ⟨head, tail, framing, body, hsplit, -, hframing, hraw, hbody⟩ :=
      takeFramedRequest_eq_some_iff.1 h
    obtain ⟨wire, htail, hcarries⟩ := exists_carries hbody
    subst htail
    have hbuffer : buffer = Utf8.encode head ++ crlfcrlf ++ wire ++ rest := by
      rw [hsplit.eq]
      simp only [List.append_assoc]
    have hsplit' := hsplit.replace body
    rw [← hraw] at hsplit'
    refine ⟨head, framing, wire, body, hbuffer, hsplit.first, hraw, hframing, hcarries,
      length_lt_of_takeFramedRequest h, ?_⟩
    intro H U routes request hrequest
    rw [parseRawOnly_of_split hsplit'] at hrequest
    obtain ⟨-, -, -, -, -, -, -, -, -, rfl⟩ := parseHead_eq_ok_iff.1 hrequest
    obtain ⟨hcolon, -⟩ :=
      (bodyFraming_eq_ok_iff fun line hline => hsplit.ne_nil_of_mem hline).1 hframing
    exact ⟨hsplit'.first, rfl, parseHeaders_forall₂ hcolon⟩
  · next result rest hnone h =>
    rcases takeFramedRequest_unchanged buffer limits idleEnd with ⟨raw, hraw⟩ | hrest
    · rw [h] at hraw
      exact absurd hraw (hnone raw)
    · rw [h] at hrest
      exact hrest

end Httpageboy
