import Httpageboy.Framing.Encoding
import Httpageboy.Routing.Bindings

set_option relaxedAutoImplicit false
set_option autoImplicit false

/-!
# Pipelined requests

Well-formed requests, written one behind the other, come out of the framer and the parser as
they were meant, and whatever follows them stays in the buffer.

## Main definitions

* `Httpageboy.WireRequest` — a request as a client writes it; `Httpageboy.WireRequest.wire` its
  bytes, `Httpageboy.WireRequest.request` its meaning.
* `Httpageboy.WireRequest.Means` — a parsed request says what the client wrote.
* `Httpageboy.WireRequest.Within` — it keeps to the limits of the connection.
* `Httpageboy.takeRequests` — framing and parsing, again and again.

## Main results

* `Httpageboy.WireRequest.takeFramedRequest_wire` — one request comes off the buffer whole.
* `Httpageboy.takeRequests_wire` — the round trip.
-/

namespace Httpageboy

open Search

variable {H U : Type}

/-! ## Requests as a client writes them -/

/-- How a request carries its body. -/
inductive WireBody where
  | absent
  | counted (body : Bytes)
  | chunked (coding : ChunkedCoding)

namespace WireBody

/-- The body itself. -/
def body : WireBody → Bytes
  | absent => []
  | counted body => body
  | chunked coding => coding.body

/-- The bytes behind the head. -/
def wire : WireBody → Bytes
  | absent => []
  | counted body => body
  | chunked coding => coding.wire

/-- The framing header. -/
def entries : WireBody → List (Str × Str)
  | absent => []
  | counted body => [("Content-Length".toList, Nat.toDigits 10 body.length)]
  | chunked _ => [("Transfer-Encoding".toList, "chunked".toList)]

/-- The framing that the header declares. -/
def framing : WireBody → BodyFraming
  | absent => .none
  | counted body => .length body.length
  | chunked _ => .chunked

end WireBody

/-- A header that a request may have besides its framing header: the name is a token, the value
stands on the same line and has no white space around it. -/
structure PlainHeader (entry : Str × Str) : Prop where
  name_ne : entry.1 ≠ []
  name_token : ∀ c ∈ entry.1, isTchar c = true
  name_plain : isFramingName entry.1 = false
  value_line : OneLine entry.2
  value_trim : Str.trim entry.2 = entry.2

/-- A well-formed request. -/
structure WireRequest where
  method : RequestType
  target : Str
  headers : List (Str × Str)
  body : WireBody
  target_ne : target ≠ []
  target_length : (Utf8.encode target).length ≤ maxUri
  target_space : ∀ c ∈ target, Str.isWhitespace c = false
  headers_plain : ∀ entry ∈ headers, PlainHeader entry
  absent_method : body = .absent →
    method ∈ [RequestType.get, .head, .options, .connect, .trace]

namespace WireRequest

variable (w : WireRequest)

/-- The request line. -/
def requestLine : Str := w.method.name ++ ' ' :: (w.target ++ ' ' :: httpVersion)

/-- All headers, the framing header last. -/
def entries : List (Str × Str) := w.headers ++ w.body.entries

/-- The head, without the blank line that ends it. -/
def head : Str := joinPair '\r' '\n' w.requestLine (w.entries.map fieldLine)

/-- The bytes of the request. -/
def wire : Bytes := Utf8.encode w.head ++ crlfcrlf ++ w.body.wire

/-- What the framer hands to the parser: the head and the decoded body. -/
def raw : Bytes := Utf8.encode w.head ++ crlfcrlf ++ w.body.body

/-- The path that is asked for: the target in front of its first question mark. -/
def path : Str := w.target.takeWhile (· ≠ '?')

/-- The query: the target behind its first question mark. -/
def query : Str := (w.target.dropWhile (· ≠ '?')).tail

/-- What the target says about the parameters, in the order in which it counts: the segments that
the first pattern of the table that binds the path has for its placeholders, then the pairs of the
query. -/
def bindings (routes : Routes H U) : List (Str × Str) :=
  ((selectPattern routes w.method w.path).map fun e => pathBindings e.1.2 w.path).getD [] ++
    (w.query.splitOn '&').filterMap (Str.splitOnce '=')

/-- What the request means to a server with the given routes. -/
def request (routes : Routes H U) : Request where
  method := w.method
  path := w.path
  version := httpVersion
  headers := w.entries
  body := w.body.body
  params := (w.bindings routes).foldl (fun params p => params.insert p.1 p.2) ∅

/-- The query gives a name this value: its last pair with this key is `name=value`, cut at the
first equals sign. -/
def Asks (name value : Str) : Prop :=
  ∃ before after, w.query.splitOn '&' = before ++ (name ++ '=' :: value) :: after ∧ '=' ∉ name ∧
    ∀ later ∈ after, ∀ value', later ≠ name ++ '=' :: value'

/-- The path gives a name this value: the first pattern of the table that binds it, among those of
the method, has a placeholder with this name, and the value is the segment at the last one. -/
def Fills (routes : Routes H U) (name value : Str) : Prop :=
  ∃ earlier e later, routes.entries = earlier ++ e :: later ∧
    (e.1.1 = w.method ∧ Binds e.1.2 w.path) ∧
    (∀ e' ∈ earlier, ¬ (e'.1.1 = w.method ∧ Binds e'.1.2 w.path)) ∧
    segment e.1.2 w.path name = some value

/-- A parsed request says what the client wrote. The path is the target in front of its first
question mark. Under each name the parameters have the value that the query gives it; without one,
that of the path; and no others. -/
structure Means (routes : Routes H U) (request : Request) : Prop where
  method : request.method = w.method
  path : request.path = w.target.takeWhile (· ≠ '?')
  version : request.version = "HTTP/1.1".toList
  headers : request.headers = w.headers ++ w.body.entries
  body : request.body = w.body.body
  params : ∀ name value, request.params.lookup name = some value ↔
    w.Asks name value ∨ (∀ value', ¬ w.Asks name value') ∧ w.Fills routes name value

/-- The request keeps to the limits: its head, its body, and of a chunked body the size lines
together and the trailer section. Its length fits a machine word, as that of every `Vec`. -/
structure Within (limits : RequestLimits) : Prop where
  head : (Utf8.encode w.head).length + 4 ≤ limits.headerBytes
  body : w.body.body.length ≤ limits.bodyBytes
  sizes : ∀ coding, w.body = .chunked coding → coding.sizeBytes ≤ limits.headerBytes
  trailers : ∀ coding, w.body = .chunked coding →
    coding.trailerSection.length ≤ limits.headerBytes
  word : w.wire.length ≤ usizeMax

end WireRequest

/-! ## The head -/

/-- A header line that the parser reads back as it was meant. -/
structure ReadBack (entry : Str × Str) : Prop where
  colon : ':' ∉ entry.1
  name_cr : '\r' ∉ entry.1
  value_cr : '\r' ∉ entry.2
  value_trim : Str.trimStart entry.2 = entry.2

/-- A plain header is read back from its line. -/
lemma PlainHeader.readBack {entry : Str × Str} (h : PlainHeader entry) : ReadBack entry where
  colon hmem := by
    have htoken := h.name_token _ hmem
    revert htoken
    decide
  name_cr hmem := by
    have htoken := h.name_token _ hmem
    revert htoken
    decide
  value_cr := h.value_line.1
  value_trim := Str.trimStart_of_trim h.value_trim

/-- There is no white space in a number. -/
lemma toDigits_trim (n : ℕ) : ∀ c ∈ Nat.toDigits 10 n, Str.isWhitespace c = false :=
  Str.isWhitespace_of_numeral (Str.numeral_toDigits n)

/-- The headers that a body declares are read back. -/
lemma WireBody.readBack (body : WireBody) : ∀ entry ∈ body.entries, ReadBack entry := by
  intro entry hentry
  cases body with
  | absent => simp [WireBody.entries] at hentry
  | counted body =>
    rw [WireBody.entries, List.mem_singleton] at hentry
    subst hentry
    have hspace := toDigits_trim body.length
    have hcolon : ':' ∉ "Content-Length".toList := by decide
    have hname : '\r' ∉ "Content-Length".toList := by decide
    refine ⟨hcolon, hname, fun hmem => ?_, ?_⟩
    · have hcr := hspace _ hmem
      revert hcr
      decide
    · exact Str.trimStart_of_trim (Str.trim_of_forall hspace)
  | chunked coding =>
    rw [WireBody.entries, List.mem_singleton] at hentry
    subst hentry
    exact ⟨by decide, by decide, by decide, by decide⟩

/-- The first colon of the line is the one behind the name. -/
lemma ReadBack.splitOnce_fieldLine {entry : Str × Str} (h : ReadBack entry) :
    Str.splitOnce ':' (fieldLine entry) = some (entry.1, ' ' :: entry.2) :=
  Str.splitOnce_eq_some_iff.2 ⟨rfl, h.colon⟩

/-- A space in front of a value is stripped. -/
lemma trimStart_space (s : Str) : Str.trimStart (' ' :: s) = Str.trimStart s :=
  List.dropWhile_cons_of_pos (by decide)

/-- The parser reads the entries back from their lines. -/
lemma parseHeaders_fieldLine {entries : List (Str × Str)} (h : ∀ entry ∈ entries, ReadBack entry) :
    parseHeaders (entries.map fieldLine) = entries := by
  induction entries with
  | nil => rfl
  | cons entry entries ih =>
    have hentry := h entry List.mem_cons_self
    have hcons : parseHeaders ((entry :: entries).map fieldLine) =
        (entry.1, Str.trimStart (' ' :: entry.2)) :: parseHeaders (entries.map fieldLine) := by
      simp [parseHeaders, hentry.splitOnce_fieldLine]
    rw [hcons, ih fun e he => h e (List.mem_cons_of_mem _ he), trimStart_space, hentry.value_trim]

/-- Headers with other names have no value of a framing field. -/
lemma fieldValues_plain {field : Str} {headers : List (Str × Str)}
    (hplain : ∀ entry ∈ headers, PlainHeader entry)
    (hfield : ∀ name, isFramingName name = false → ¬ Str.eqIgnoreAsciiCase name field = true) :
    fieldValues field (headers.map fieldLine) = [] := by
  refine List.filterMap_eq_nil_iff.2 fun line hline => ?_
  obtain ⟨entry, hentry, rfl⟩ := List.mem_map.1 hline
  have hheader := hplain entry hentry
  rw [hheader.readBack.splitOnce_fieldLine]
  simp only [if_neg (hfield entry.1 hheader.name_plain)]

/-- Plain headers declare no length. -/
lemma lengthValues_plain {headers : List (Str × Str)}
    (hplain : ∀ entry ∈ headers, PlainHeader entry) :
    lengthValues (headers.map fieldLine) = [] := by
  refine fieldValues_plain hplain fun name hname => ?_
  simp only [isFramingName, Bool.or_eq_false_iff] at hname
  rw [hname.1]
  exact Bool.false_ne_true

/-- Plain headers declare no transfer coding. -/
lemma codings_plain {headers : List (Str × Str)}
    (hplain : ∀ entry ∈ headers, PlainHeader entry) : codings (headers.map fieldLine) = [] := by
  rw [codings_eq_nil_iff]
  refine fieldValues_plain hplain fun name hname => ?_
  simp only [isFramingName, Bool.or_eq_false_iff] at hname
  rw [hname.2]
  exact Bool.false_ne_true

namespace WireRequest

variable (w : WireRequest)

/-- All headers of a request are read back. -/
lemma readBack : ∀ entry ∈ w.entries, ReadBack entry := by
  intro entry hentry
  rcases List.mem_append.1 hentry with hentry | hentry
  · exact (w.headers_plain entry hentry).readBack
  · exact w.body.readBack entry hentry

/-- The lines of the headers are lines: no carriage return is in them, and none is empty. -/
lemma fieldLine_ok : ∀ l ∈ w.entries.map fieldLine, '\r' ∉ l ∧ l ≠ [] := by
  intro l hl
  obtain ⟨entry, hentry, rfl⟩ := List.mem_map.1 hl
  have hread := w.readBack entry hentry
  refine ⟨?_, fieldLine_ne_nil entry⟩
  simp [fieldLine, hread.name_cr, hread.value_cr]

/-- There is no white space in the name of a method. -/
lemma name_space (method : RequestType) : ∀ c ∈ method.name, Str.isWhitespace c = false := by
  apply Str.not_isWhitespace_of_all
  cases method <;> decide

/-- The request line is one line. -/
lemma cr_notMem_requestLine : '\r' ∉ w.requestLine := by
  intro hmem
  have hname : '\r' ∉ w.method.name := fun hmem => by
    have hcr := name_space w.method _ hmem
    revert hcr
    decide
  have htarget : '\r' ∉ w.target := fun hmem => by
    have hcr := w.target_space _ hmem
    revert hcr
    decide
  have hversion : '\r' ∉ httpVersion := by decide
  simp [requestLine, hname, htarget, hversion] at hmem

/-- The three words of the request line. -/
lemma splitWhitespace_requestLine :
    Str.splitWhitespace w.requestLine = [w.method.name, w.target, httpVersion] := by
  have hname : w.method.name ≠ [] := by
    cases w.method <;> decide
  unfold requestLine
  rw [Str.splitWhitespace_append hname (name_space w.method) (by decide),
    Str.splitWhitespace_append w.target_ne w.target_space (by decide),
    Str.splitWhitespace_of_forall (by decide)
      (Str.not_isWhitespace_of_all (by decide))]

/-- The head consists of the request line and the lines of the headers. -/
lemma splitPair_head : splitPair '\r' '\n' w.head = w.requestLine :: w.entries.map fieldLine :=
  splitPair_joinPair (by decide) w.cr_notMem_requestLine fun l hl => (w.fieldLine_ok l hl).1

/-- Behind the request line there are the headers. -/
lemma headerLines_head : headerLines w.head = w.entries.map fieldLine := by
  unfold headerLines
  rw [w.splitPair_head]
  rfl

/-- The first word of the head is the name of the method. -/
lemma methodToken_head : methodToken w.head = w.method.name := by
  simp [methodToken, w.splitPair_head, w.splitWhitespace_requestLine]

/-- The head ends at the first blank line, whatever follows it. -/
lemma blankSplit (tail : Bytes) :
    BlankSplit (Utf8.encode w.head ++ crlfcrlf ++ tail) w.head tail :=
  blankSplit_joinPair w.cr_notMem_requestLine w.fieldLine_ok tail

/-- The head declares the framing of the body. -/
lemma extractBodyHeaders_head (hword : w.body.body.length ≤ usizeMax) :
    extractBodyHeaders w.head = .ok w.body.framing := by
  have hlines : extractBodyHeaders w.head = bodyFraming (headerLines w.head) := rfl
  rw [hlines, w.headerLines_head]
  refine (bodyFraming_eq_ok_iff fun l hl => (w.fieldLine_ok l hl).2).2 ⟨?_, ?_⟩
  · intro l hl
    obtain ⟨entry, -, rfl⟩ := List.mem_map.1 hl
    exact colon_mem_fieldLine entry
  have hlengths : lengthValues (w.entries.map fieldLine) =
      lengthValues (w.body.entries.map fieldLine) := by
    unfold entries
    rw [List.map_append, lengthValues_append, lengthValues_plain w.headers_plain, List.nil_append]
  have hcodings : codings (w.entries.map fieldLine) = codings (w.body.entries.map fieldLine) := by
    unfold entries
    rw [List.map_append, codings_append, codings_plain w.headers_plain, List.nil_append]
  rw [decides_congr hlengths hcodings]
  cases hbody : w.body with
  | absent => exact ⟨rfl, rfl⟩
  | counted body =>
    rw [hbody] at hword
    have hspace := toDigits_trim body.length
    have hread := (WireBody.counted body).readBack _ List.mem_cons_self
    have hparse : Str.fromStrRadix 10 usizeMax (Str.trim (' ' :: Nat.toDigits 10 body.length)) =
        some body.length := by
      have htrim : Str.trim (' ' :: Nat.toDigits 10 body.length) = Nat.toDigits 10 body.length := by
        unfold Str.trim
        rw [trimStart_space]
        exact Str.trim_of_forall hspace
      rw [htrim]
      exact (Str.fromStrRadix_eq_some_iff (by decide)).2 ⟨.inl (Str.numeral_toDigits _), hword⟩
    have hlength : Str.eqIgnoreAsciiCase "Content-Length".toList "content-length".toList =
        true := by
      decide
    refine ⟨?_, ' ' :: Nat.toDigits 10 body.length, ?_, hparse⟩
    · rw [codings_eq_nil_iff]
      exact fieldValues_cons_of_ne hread.splitOnce_fieldLine
        (not_transferEncoding_of_contentLength hlength) []
    · exact fieldValues_cons_of_eq hread.splitOnce_fieldLine hlength []
  | chunked coding =>
    have hlengths : lengthValues
        ([("Transfer-Encoding".toList, "chunked".toList)].map fieldLine) = [] := by
      decide
    have hchunked : (codings ([("Transfer-Encoding".toList, "chunked".toList)].map fieldLine)).map
        canonicalCoding = ["chunked".toList] := by
      decide
    exact ⟨hlengths, hchunked⟩

/-- The parser reads the request back. -/
lemma parseRawOnly_raw (routes : Routes H U) :
    parseRawOnly w.raw routes = .ok (w.request routes) := by
  unfold raw
  rw [parseRawOnly_of_split (w.blankSplit w.body.body)]
  refine parseHead_eq_ok_iff.2 ⟨w.requestLine, w.method.name, w.target, httpVersion, ?_,
    w.splitWhitespace_requestLine, ?_, rfl, w.target_length, ?_⟩
  · rw [w.headerLines_head]
    exact w.splitPair_head
  · exact List.mem_map_of_mem (RequestType.mem_all w.method)
  · rw [w.headerLines_head]
    obtain ⟨hpath, hquery⟩ := splitOnce_query w.target
    simp only [buildRequest, request, RequestType.fromStr_name, parseHeaders_fieldLine w.readBack,
      targetParams_eq_foldl, hpath, hquery]
    rfl

/-- The last pair of the query with a key. -/
lemma last_query_eq_some_iff {name value : Str} :
    Writes.last name ((w.query.splitOn '&').filterMap (Str.splitOnce '=')) = some value ↔
      w.Asks name value := by
  unfold Asks
  rw [Writes.last_filterMap_eq_some_iff]
  constructor
  · rintro ⟨before, text, after, hsplit, hpair, hlater⟩
    obtain ⟨rfl, hname⟩ := Str.splitOnce_eq_some_iff.1 hpair
    refine ⟨before, after, hsplit, hname, fun later hmem value' heq => ?_⟩
    exact hlater later hmem _ (Str.splitOnce_eq_some_iff.2 ⟨heq, hname⟩) rfl
  · rintro ⟨before, after, hsplit, hname, hlater⟩
    refine ⟨before, _, after, hsplit, Str.splitOnce_eq_some_iff.2 ⟨rfl, hname⟩, ?_⟩
    rintro later hmem ⟨key, value'⟩ hpair rfl
    exact hlater later hmem value' (Str.splitOnce_eq_some_iff.1 hpair).1

/-- What the first pattern that binds the path has for a name. -/
lemma last_pattern_eq_some_iff {routes : Routes H U} {name value : Str} :
    Writes.last name (((selectPattern routes w.method w.path).map fun e =>
        pathBindings e.1.2 w.path).getD []) = some value ↔ w.Fills routes name value := by
  have hfits : ∀ {e : TableEntry H U}, (!fits w.method w.path e) = true ↔
      ¬ (e.1.1 = w.method ∧ Binds e.1.2 w.path) := by
    intro e
    rw [← fits_iff, Bool.not_eq_true', Bool.not_eq_true]
  unfold Fills
  constructor
  · intro hlast
    cases hpattern : selectPattern routes w.method w.path with
    | none =>
      rw [hpattern] at hlast
      cases hlast
    | some e =>
      rw [hpattern] at hlast
      obtain ⟨hfound, earlier, later, hsplit, hearlier⟩ := List.find?_eq_some_iff_append.1 hpattern
      exact ⟨earlier, e, later, hsplit, fits_iff.1 hfound,
        fun e' he' => hfits.1 (hearlier e' he'), hlast⟩
  · rintro ⟨earlier, e, later, hsplit, hbinds, hearlier, hsegment⟩
    have hpattern : selectPattern routes w.method w.path = some e :=
      List.find?_eq_some_iff_append.2 ⟨fits_iff.2 hbinds, earlier, later, hsplit,
        fun e' he' => hfits.2 (hearlier e' he')⟩
    rw [hpattern]
    exact hsegment

/-- The meaning of a request says what the client wrote. -/
lemma means_request (routes : Routes H U) : w.Means routes (w.request routes) where
  method := rfl
  path := rfl
  version := rfl
  headers := rfl
  body := rfl
  params name value := by
    have hlookup : (w.request routes).params.lookup name =
        Writes.last name (w.bindings routes) := by
      unfold request
      rw [Assoc.lookup_foldl_insert, AList.lookup_empty, Option.or_none]
    rw [hlookup, bindings, Writes.last_append, Option.or_eq_some_iff, last_query_eq_some_iff,
      last_pattern_eq_some_iff, Option.eq_none_iff_forall_ne_some]
    simp only [ne_eq, last_query_eq_some_iff]

/-- The body stage takes the bytes that carry the body. -/
lemma bodyTaken {limits : RequestLimits} (idleEnd : Bool) (h : w.Within limits) (t : Bytes) :
    BodyTaken limits idleEnd w.head (w.body.wire ++ t) w.body.body t w.body.framing := by
  have hword := h.word
  simp only [wire, crlfcrlf, List.length_append, List.length_cons, List.length_nil] at hword
  cases hbody : w.body with
  | absent =>
    refine .inr ⟨?_, rfl, rfl⟩
    rw [w.methodToken_head]
    have hmethod := w.absent_method hbody
    simp only [List.mem_cons, List.not_mem_nil, or_false] at hmethod
    rcases hmethod with hm | hm | hm | hm | hm <;> rw [hm] <;> decide
  | counted body =>
    have hmax := h.body
    rw [hbody] at hword hmax
    exact ⟨rfl, rfl, hmax, hword⟩
  | chunked coding =>
    have hsizes := h.sizes coding hbody
    have hmax := h.body
    rw [hbody] at hword hmax
    have hwire : (coding.chunks.flatMap WireChunk.wire).length ≤ coding.wire.length := by
      unfold ChunkedCoding.wire
      rw [List.length_append]
      exact Nat.le_add_right _ _
    have hmeta : 0 + ((coding.chunks.map fun chunk => chunk.size.line.length + 2).sum +
        (coding.last.line.length + 2)) ≤ limits.headerBytes := by
      rw [Nat.zero_add]
      exact hsizes
    have hdata : ([] ++ coding.chunks.flatMap WireChunk.data).length ≤ limits.bodyBytes := hmax
    have hloop := chunkLoop_wire coding t (h.trailers coding hbody) coding.chunks
      hmeta hdata (Nat.le_trans (Nat.add_le_add_left hwire _) hword)
    have hassoc : coding.wire ++ t = coding.chunks.flatMap WireChunk.wire ++
        (coding.last.line ++ crlf ++ (coding.trailerSection ++ t)) := by
      simp only [ChunkedCoding.wire, List.append_assoc]
    show chunkLoop limits _ (coding.wire ++ t) [] 0 = _
    rw [hassoc]
    exact hloop

/-- **One request comes off the buffer whole**, and what follows it stays. -/
theorem takeFramedRequest_wire {limits : RequestLimits} (idleEnd : Bool) (h : w.Within limits)
    (t : Bytes) : takeFramedRequest (w.wire ++ t) limits idleEnd = (.ok (some w.raw), t) := by
  have hassoc : w.wire ++ t = Utf8.encode w.head ++ crlfcrlf ++ (w.body.wire ++ t) := by
    unfold wire
    rw [List.append_assoc]
  have hword : w.body.body.length ≤ usizeMax := by
    have hwire := h.word
    have hle : w.body.body.length ≤ w.body.wire.length := by
      cases hbody : w.body with
      | absent => exact Nat.le_refl _
      | counted body => exact Nat.le_refl _
      | chunked coding => exact coding.length_body_le
    simp only [wire, List.length_append] at hwire
    omega
  rw [hassoc]
  exact takeFramedRequest_eq_some_iff.2 ⟨w.head, w.body.wire ++ t, w.body.framing, w.body.body,
    w.blankSplit _, h.head, w.extractBodyHeaders_head hword, rfl, w.bodyTaken idleEnd h t⟩

end WireRequest

/-! ## The round trip -/

/-- Frame and parse up to `n` requests: the results, and the buffer that is left. -/
def takeRequests (limits : RequestLimits) (idleEnd : Bool) (routes : Routes H U) :
    ℕ → Bytes → List (Except Response Request) × Bytes
  | 0, buffer => ([], buffer)
  | n + 1, buffer =>
    match takeFramedRequest buffer limits idleEnd with
    | (.ok (some raw), buffer) =>
      let (requests, buffer) := takeRequests limits idleEnd routes n buffer
      (parseRawOnly raw routes :: requests, buffer)
    | (_, buffer) => ([], buffer)

/-- The results are the meanings of the requests. -/
lemma takeRequests_eq (limits : RequestLimits) (idleEnd : Bool) (routes : Routes H U)
    (ws : List WireRequest) (h : ∀ w ∈ ws, w.Within limits) (t : Bytes) :
    takeRequests limits idleEnd routes ws.length (ws.flatMap WireRequest.wire ++ t) =
      (ws.map fun w => .ok (w.request routes), t) := by
  induction ws with
  | nil => rfl
  | cons w ws ih =>
    have htake := w.takeFramedRequest_wire idleEnd (h w List.mem_cons_self)
      (ws.flatMap WireRequest.wire ++ t)
    have hrest := ih fun v hv => h v (List.mem_cons_of_mem _ hv)
    rw [List.flatMap_cons, List.append_assoc, List.length_cons]
    simp only [takeRequests, htake, hrest, w.parseRawOnly_raw routes, List.map_cons]

/-- **Pipelined requests come back as they were meant**, in order, and the bytes behind the last
one stay in the buffer: each has the method, the path, the headers, the body and the parameters
that the client wrote.

**Proof sketch.** Induction on the requests: each one comes off the buffer whole, with the
others and `t` behind it, and parses to its meaning. The parser writes the segments of the path
first and the pairs of the query behind them, so that the last pair with a key counts, and the path
only where there is none. -/
theorem takeRequests_wire (limits : RequestLimits) (idleEnd : Bool) (routes : Routes H U)
    (ws : List WireRequest) (h : ∀ w ∈ ws, w.Within limits) (t : Bytes) :
    ∃ requests : List Request,
      takeRequests limits idleEnd routes ws.length (ws.flatMap WireRequest.wire ++ t) =
        (requests.map .ok, t) ∧
      List.Forall₂ (fun w request => w.Means routes request) ws requests := by
  refine ⟨ws.map fun w => w.request routes, ?_, ?_⟩
  · rw [takeRequests_eq limits idleEnd routes ws h t, List.map_map]
    rfl
  · rw [List.forall₂_map_right_iff]
    exact List.forall₂_same.2 fun w _ => w.means_request routes

/-- A request without a body, with a query. -/
def plainRequest : WireRequest where
  method := .get
  target := "/find?q=a".toList
  headers := [("Host".toList, "h".toList)]
  body := .absent
  target_ne := by decide
  target_length := by decide
  target_space := Str.not_isWhitespace_of_all (by decide)
  headers_plain := by
    intro entry hentry
    rw [List.mem_singleton] at hentry
    subst hentry
    exact ⟨by decide, List.all_eq_true.1 (by decide), by decide,
      ⟨by decide, by decide⟩, by decide⟩
  absent_method := fun _ => by decide

/-- A request with a chunked body: one chunk, an extension and a trailer. -/
def chunkedRequest : WireRequest where
  method := .post
  target := "/".toList
  headers := []
  body := .chunked
    { chunks := [
        { data := [97, 98, 99, 97, 98, 99, 97, 98, 99, 97]
          size :=
            { digits := "00A".toList
              extension := ";x=1".toList
              digits_eq := by decide
              extension_ok := ⟨.inr ⟨_, rfl⟩, by decide, by decide⟩ }
          data_ne := by decide }]
      last :=
        { digits := "0".toList
          extension := []
          digits_eq := by decide
          extension_ok := ⟨.inl rfl, by decide, by decide⟩ }
      trailers := [("Sum".toList, "1".toList)]
      trailers_ok := by
        intro trailer htrailer
        rw [List.mem_singleton] at htrailer
        subst htrailer
        exact ⟨⟨by decide, by decide⟩, by decide, by decide⟩ }
  target_ne := by decide
  target_length := by decide
  target_space := Str.not_isWhitespace_of_all (by decide)
  headers_plain := by simp
  absent_method := by simp

/-- The request without a body is within the limits. -/
lemma plainRequest_within : plainRequest.Within RequestLimits.default where
  head := by decide
  body := by decide
  sizes := by simp [plainRequest]
  trailers := by simp [plainRequest]
  word := by decide

/-- The request with a chunked body is within the limits. -/
lemma chunkedRequest_within : chunkedRequest.Within RequestLimits.default where
  head := by decide
  body := by decide
  sizes := by
    intro coding hcoding
    cases hcoding
    decide
  trailers := by
    intro coding hcoding
    cases hcoding
    decide
  word := by decide

/-- A table with one pattern. -/
def pageRoutes : Routes Unit Unit :=
  (∅ : Routes Unit Unit).insert (.get, "/\x7bpage\x7d".toList) ⟨(), none⟩

/-- Two requests and the first bytes of a third one, for a server with a pattern. -/
theorem takeRequests_two :
    ∃ requests : List Request,
      takeRequests RequestLimits.default false pageRoutes 2
          ([plainRequest, chunkedRequest].flatMap WireRequest.wire ++ [71, 69, 84]) =
        (requests.map .ok, [71, 69, 84]) ∧
      List.Forall₂ (fun w request => w.Means pageRoutes request) [plainRequest, chunkedRequest]
        requests := by
  refine takeRequests_wire RequestLimits.default false pageRoutes [plainRequest, chunkedRequest]
    ?_ _
  intro w hw
  simp only [List.mem_cons, List.not_mem_nil, or_false] at hw
  rcases hw with rfl | rfl
  · exact plainRequest_within
  · exact chunkedRequest_within

end Httpageboy
