import Httpageboy.Framing.RoundTrip
import Httpageboy.Framing.Grammar
import Httpageboy.Runtime.ResponseHead
import Httpageboy.Runtime.Server

set_option relaxedAutoImplicit false
set_option autoImplicit false

/-!
# How a client reads the responses

A client that knows the method of its request finds the end of a response by the message-length
rules of the protocol. The server declares the length of every body it sends and keeps the
`Content-Length` headers of a handler out of the head; other headers that declare a length pass,
and then the client and the server disagree about where the response ends.

## Main definitions

* `Httpageboy.messageLength`, `Httpageboy.ReadsResponse` — the client.
* `Httpageboy.Framed` — the bytes that go out are one response, with one declared length at most.
* `Httpageboy.DeclaresOnce` — what the headers of a handler may declare.

## Main results

* `Httpageboy.Sends.readsResponse_reply` — what the client makes of a reply.
* `Httpageboy.chunked_not_read` — under a chunked coding the body is not read back.
* `Httpageboy.responseFraming_iff` — when responses are framed, and paired with their requests.
-/

namespace Httpageboy

open Search

/-! ## The client -/

/-- The status code of a status line. -/
def readStatusLine (line : Str) : Option ℕ :=
  match Str.splitOnce ' ' line with
  | some (version, rest) =>
    if version = httpVersion then
      match Str.splitOnce ' ' rest with
      | some (code, _) => Str.numeral 10 code
      | none => none
    else none
  | none => none

/-- How the end of a response is found. -/
inductive MessageLength where
  | noContent
  | tunnel
  | chunked
  | length (n : ℕ)
  | untilClose
  | invalid
  deriving DecidableEq

/-- The message-length rules, in order of precedence: the method and the status, the last transfer
coding, the lengths that are declared. Field names stand directly in front of the colon. -/
def messageLength (method : RequestType) (status : ℕ) (lines : List Str) : MessageLength :=
  if method = .head ∨ status < 200 ∨ status = 204 ∨ status = 304 then .noContent
  else if method = .connect ∧ status < 300 then .tunnel
  else
    match (codings lines).getLast? with
    | some coding =>
      if Str.toAsciiLowercase (trimOws coding) = "chunked".toList then .chunked else .untilClose
    | none =>
      match ((lengthValues lines).flatMap (·.splitOn ',')).map
          fun piece => Str.numeral 10 (trimOws piece) with
      | [] => .untilClose
      | some n :: pieces => if pieces.all (· = some n) then .length n else .invalid
      | none :: _ => .invalid

/-- What a message length takes off the tail behind a head. -/
def MessageLength.Delimits : MessageLength → Bytes → Bytes → Bytes → Prop
  | .noContent, tail, body, rest => body = [] ∧ rest = tail
  | .tunnel, tail, body, rest => body = [] ∧ rest = tail
  | .chunked, tail, body, rest =>
    ∃ wire, Sentence StrictLine StrictField wire body ∧ tail = wire ++ rest
  | .length n, tail, body, rest => tail = body ++ rest ∧ body.length = n
  | .untilClose, tail, body, rest => body = tail ∧ rest = []
  | .invalid, _, _, _ => False

/-- The client reads a response with this status and this body, and `rest` is left over. -/
def ReadsResponse (method : RequestType) (bytes : Bytes) (status : ℕ) (body rest : Bytes) : Prop :=
  ∃ head tail line, BlankSplit bytes head tail ∧
    (splitPair '\r' '\n' head).head? = some line ∧ readStatusLine line = some status ∧
    (messageLength method status (headerLines head)).Delimits tail body rest

/-- The client reads the responses to its requests, one after the other. -/
def ReadsInOrder : List RequestType → Bytes → List (ℕ × Bytes) → Bytes → Prop
  | [], bytes, answers, rest => answers = [] ∧ rest = bytes
  | method :: methods, bytes, answers, rest =>
    ∃ status body bytes' answers', ReadsResponse method bytes status body bytes' ∧
      ReadsInOrder methods bytes' answers' rest ∧ answers = (status, body) :: answers'

/-- The number of lines that declare a body length. -/
def declarations (lines : List Str) : ℕ :=
  (lengthValues lines).length + (fieldValues "transfer-encoding".toList lines).length

/-- What the client makes of a head. -/
lemma readsResponse_iff {method : RequestType} {bytes tail body rest : Bytes} {head line : Str}
    {status code : ℕ} (hsplit : BlankSplit bytes head tail)
    (hline : (splitPair '\r' '\n' head).head? = some line)
    (hcode : readStatusLine line = some code) :
    ReadsResponse method bytes status body rest ↔
      status = code ∧
        (messageLength method code (headerLines head)).Delimits tail body rest := by
  constructor
  · intro h
    obtain ⟨head', tail', line', hsplit', hline', hcode', hbody⟩ := h
    obtain ⟨rfl, rfl⟩ := hsplit.unique hsplit'
    rw [hline] at hline'
    cases hline'
    rw [hcode] at hcode'
    cases hcode'
    exact ⟨rfl, hbody⟩
  · intro h
    obtain ⟨rfl, hbody⟩ := h
    exact ⟨head, tail, line, hsplit, hline, hcode, hbody⟩

/-! ## Heads of responses -/

/-- The client reads the status code off the first line. -/
lemma readStatusLine_statusText (status : StatusCode) :
    readStatusLine (statusText status) = some status.code := by
  have hversion : Str.splitOnce ' ' (statusText status) = some (httpVersion, status.display) :=
    Str.splitOnce_eq_some_iff.2 ⟨rfl, by decide⟩
  have hcode : Str.splitOnce ' ' status.display =
      some (Nat.toDigits 10 status.code, status.display.drop 4) := by
    apply Str.splitOnce_eq_some_iff.2
    constructor
    · have hdisplay := List.take_append_drop 4 status.display
      rw [status.display_spec.1] at hdisplay
      exact hdisplay.symm.trans (List.append_assoc _ [' '] _)
    · intro hmem
      have hspace := toDigits_trim status.code ' ' hmem
      revert hspace
      decide
  unfold readStatusLine
  simp only [hversion, if_true, hcode, Str.numeral_toDigits]

/-! ## What the entries declare -/

/-- The line of an entry declares a body length: what stands in front of its first colon names a
framing field. -/
def declares (entry : Str × Str) : Bool :=
  match Str.splitOnce ':' (fieldLine entry) with
  | some (name, _) => isFramingName name
  | none => false

/-- The line of an entry declares a body length, and the head keeps it all the same, because the
whole key is not `content-length`. -/
def smuggles (entry : Str × Str) : Bool :=
  declares entry && !Str.eqIgnoreAsciiCase entry.1 "content-length".toList

/-- The value of an entry whose key contains no colon. -/
lemma splitOnce_fieldLine {entry : Str × Str} (h : ':' ∉ entry.1) :
    Str.splitOnce ':' (fieldLine entry) = some (entry.1, ' ' :: entry.2) :=
  Str.splitOnce_eq_some_iff.2 ⟨rfl, h⟩

/-- A name without a colon is read back from its line. -/
lemma declares_of_notMem {entry : Str × Str} (h : ':' ∉ entry.1) :
    declares entry = isFramingName entry.1 := by
  simp only [declares, splitOnce_fieldLine h]

/-- The declarations of some lines are those of their entries. -/
lemma declarations_map (entries : List (Str × Str)) :
    declarations (entries.map fieldLine) = entries.countP declares := by
  induction entries with
  | nil => rfl
  | cons entry entries ih =>
    obtain ⟨⟨name, value⟩, hline⟩ : ∃ split, Str.splitOnce ':' (fieldLine entry) = some split := by
      cases hsplit : Str.splitOnce ':' (fieldLine entry) with
      | none => exact absurd (colon_mem_fieldLine entry) (Str.splitOnce_eq_none_iff.1 hsplit)
      | some split => exact ⟨split, rfl⟩
    have hdeclares : declares entry = isFramingName name := by simp only [declares, hline]
    rw [List.countP_cons, ← ih, hdeclares, List.map_cons]
    unfold declarations lengthValues isFramingName
    by_cases hlength : Str.eqIgnoreAsciiCase name "content-length".toList = true
    · have hencoding := not_transferEncoding_of_contentLength hlength
      rw [fieldValues_cons_of_eq hline hlength, fieldValues_cons_of_ne hline hencoding, hlength,
        List.length_cons, Bool.true_or, if_pos rfl]
      omega
    · rw [fieldValues_cons_of_ne hline hlength]
      by_cases hencoding : Str.eqIgnoreAsciiCase name "transfer-encoding".toList = true
      · rw [fieldValues_cons_of_eq hline hencoding, hencoding, List.length_cons, Bool.or_true,
          if_pos rfl]
        omega
      · rw [fieldValues_cons_of_ne hline hencoding, Bool.not_eq_true _ |>.mp hlength,
          Bool.not_eq_true _ |>.mp hencoding]
        rfl

/-- A `Connection` header declares nothing. -/
lemma declares_connection {entry : Str × Str}
    (h : Str.eqIgnoreAsciiCase entry.1 "connection".toList = true) : declares entry = false := by
  have hcolon : ':' ∉ entry.1 := by
    intro hmem
    have hlower := Str.toLower_mem_of_eqIgnoreAsciiCase h hmem
    revert hlower
    rewrite [String.toList_ofList]
    decide
  rw [declares_of_notMem hcolon]
  unfold isFramingName Str.eqIgnoreAsciiCase
  rewrite [Str.eqIgnoreAsciiCase_iff.1 h, String.toList_ofList, String.toList_ofList,
    String.toList_ofList]
  decide

/-- A policy declares nothing. -/
lemma countP_corsLines (cors : Option CorsPolicy) (origin : Option Str) :
    (corsLines cors origin).countP declares = 0 := by
  apply List.countP_eq_zero.2
  intro entry hentry
  cases cors with
  | none => simp [corsLines] at hentry
  | some policy =>
    have hname := CorsPolicy.name_mem_headerNames hentry
    have hframing : isFramingName entry.1 = false := by
      obtain ⟨hlength, hencoding, -⟩ := CorsPolicy.ne_of_mem_headerNames _ hname
      unfold isFramingName
      rw [hlength, hencoding, Bool.or_false]
    rw [declares_of_notMem (CorsPolicy.colon_notMem_of_mem_headerNames _ hname), hframing]
    exact Bool.false_ne_true

/-- What the kept headers declare is smuggled. -/
lemma countP_keptHeaders (response : Response) (close : Bool) :
    (keptHeaders response close).countP declares = response.headers.countP smuggles := by
  unfold keptHeaders
  rw [List.countP_filter]
  congr 1
  funext entry
  unfold smuggles skipped
  cases hconnection : Str.eqIgnoreAsciiCase entry.1 "connection".toList with
  | true => rw [declares_connection hconnection, Bool.false_and, Bool.false_and]
  | false => rw [Bool.false_and, Bool.or_false]

/-- The entries of a head declare what is smuggled, and the length of the body if there is one. -/
lemma countP_headEntries (response : Response) (method : Option RequestType) (close : Bool)
    (cors : Option CorsPolicy) (origin : Option Str) :
    (headEntries response method close cors origin).countP declares =
      response.headers.countP smuggles + if responseHasContent method response then 1 else 0 := by
  have hlength : (lengthEntries response method).countP declares =
      if responseHasContent method response then 1 else 0 := by
    unfold lengthEntries
    cases responseHasContent method response with
    | false => rfl
    | true =>
      have hname : ':' ∉ "Content-Length".toList ∧
          isFramingName "Content-Length".toList = true := by
        rewrite [String.toList_ofList]
        decide
      rw [if_pos rfl, if_pos rfl, List.countP_singleton, declares_of_notMem hname.1, hname.2]
      rfl
  have hclose : (closeEntries close).countP declares = 0 := by
    unfold closeEntries
    cases close with
    | false => rfl
    | true =>
      have hdeclares : declares ("Connection".toList, "close".toList) = false := by decide
      rw [if_pos rfl, List.countP_singleton, hdeclares]
      rfl
  unfold headEntries
  rw [List.countP_append, List.countP_append, List.countP_append, countP_keptHeaders, hlength,
    hclose, countP_corsLines]
  rfl

/-! ## Replies -/

/-- The reply answers a request of this method, which is not `CONNECT`, with a final status, and
there is a head for it. -/
structure Sends (method : RequestType) (reply : Reply) : Prop where
  asked : reply.method = some method
  notConnect : method ≠ .connect
  final : 200 ≤ reply.response.status.code
  head : (responseHead reply.response reply.method reply.close reply.cors reply.origin).isSome

/-- The body the client is to read. -/
def expectedBody (method : RequestType) (response : Response) : Bytes :=
  if method = .head ∨ response.status = .noContent ∨ response.status = .notModified then []
  else response.body

/-- The bytes that go out are one response: the client reads its status and its body off them,
and nothing else, whatever follows, and its head declares at most one length. -/
def Framed (method : RequestType) (reply : Reply) : Prop :=
  (∀ t status body rest, ReadsResponse method (reply.bytes ++ t) status body rest ↔
    status = reply.response.status.code ∧ body = expectedBody method reply.response ∧ rest = t) ∧
  ∀ head tail, BlankSplit reply.bytes head tail → declarations (headerLines head) ≤ 1

/-- The headers of the response smuggle no declared length next to the one of the server. -/
def DeclaresOnce (reply : Reply) : Prop :=
  reply.response.headers.countP smuggles +
    (if responseHasContent reply.method reply.response then 1 else 0) ≤ 1

/-- The statuses without content, by their codes. -/
lemma statusForbidsContent_eq (status : StatusCode) :
    statusForbidsContent status =
      (decide (status.code < 200) || status.code == 204 || status.code == 304) := by
  cases status <;> rfl

/-- The value of a declared length is one piece. -/
lemma splitOn_length (n : ℕ) :
    (' ' :: Nat.toDigits 10 n).splitOn ',' = [' ' :: Nat.toDigits 10 n] := by
  have hcomma : ',' ∉ ' ' :: Nat.toDigits 10 n := by
    intro hmem
    rcases List.mem_cons.1 hmem with hspace | hmem
    · revert hspace
      decide
    · obtain ⟨d, hd⟩ := Str.exists_toDigit_of_numeral (Str.numeral_toDigits n) ',' hmem
      revert hd
      decide +revert
  have happend := Str.splitOn_append hcomma []
  rw [List.append_nil, List.splitOn_nil] at happend
  rw [happend]
  show [' ' :: Nat.toDigits 10 n ++ []] = _
  rw [List.append_nil]

/-- The white space in front of a declared length is trimmed. -/
lemma trimOws_length (n : ℕ) : trimOws (' ' :: Nat.toDigits 10 n) = Nat.toDigits 10 n := by
  have hows : ∀ c ∈ Nat.toDigits 10 n, isOws c = false := by
    intro c hc
    by_contra htrue
    have hspace := isWhitespace_of_isOws (by simpa using htrue : isOws c = true)
    rw [toDigits_trim n c hc] at hspace
    cases hspace
  have hstart : (' ' :: Nat.toDigits 10 n).dropWhile isOws = Nat.toDigits 10 n := by
    rw [List.dropWhile_cons_of_pos (by decide), List.dropWhile_eq_self_iff]
    intro hpos
    rw [hows _ (List.getElem_mem hpos)]
    exact Bool.false_ne_true
  unfold trimOws
  rw [hstart, List.rdropWhile_eq_self_iff]
  intro hne
  rw [hows _ (List.getLast_mem hne)]
  exact Bool.false_ne_true

namespace Sends

variable {method : RequestType} {reply : Reply}

/-- What is sent can be written. -/
lemma valid (h : Sends method reply) : reply.valid = true := by
  have hhead := h.head
  rw [responseHead_eq] at hhead
  unfold Reply.valid
  by_contra hvalid
  rw [if_neg hvalid] at hhead
  cases hhead

/-- The lines of an entry that goes out contain no line break. -/
lemma entries_ok (h : Sends method reply) :
    ∀ entry ∈ reply.entries, OneLine entry.1 ∧ OneLine entry.2 := by
  unfold Reply.entries
  rw [if_pos h.valid]
  exact oneLine_headEntries h.valid

/-- The head of a reply, as the client cuts it off. -/
lemma blankSplit (h : Sends method reply) (t : Bytes) :
    BlankSplit (reply.bytes ++ t)
      (joinPair '\r' '\n' (statusText reply.response.status) (reply.entries.map fieldLine))
      (reply.body ++ t) ∧
    splitPair '\r' '\n'
        (joinPair '\r' '\n' (statusText reply.response.status) (reply.entries.map fieldLine)) =
      statusText reply.response.status :: reply.entries.map fieldLine := by
  have hstatus := (oneLine_statusText reply.response.status).1
  have hlines : ∀ line ∈ reply.entries.map fieldLine, '\r' ∉ line ∧ line ≠ [] := by
    intro line hline
    obtain ⟨entry, hentry, rfl⟩ := List.mem_map.1 hline
    obtain ⟨hname, hvalue⟩ := h.entries_ok entry hentry
    exact ⟨cr_notMem_fieldLine hname hvalue, fieldLine_ne_nil entry⟩
  constructor
  · have hbytes : reply.bytes ++ t = Utf8.encode
        (joinPair '\r' '\n' (statusText reply.response.status) (reply.entries.map fieldLine)) ++
          crlfcrlf ++ (reply.body ++ t) := by
      have hline : reply.status = reply.response.status := by
        unfold Reply.status
        rw [if_pos h.valid]
      rw [Reply.bytes_eq, hline, renderHead_eq, Utf8.encode_append, Utf8.encode_append,
        List.append_assoc, List.append_assoc, List.append_assoc, List.append_assoc]
      rfl
    rw [hbytes]
    exact blankSplit_joinPair hstatus hlines (reply.body ++ t)
  · apply splitPair_joinPair (by decide) hstatus
    intro line hline
    exact (hlines line hline).1

/-- The header lines that go out. -/
lemma headerLines_eq (h : Sends method reply) :
    headerLines
        (joinPair '\r' '\n' (statusText reply.response.status) (reply.entries.map fieldLine)) =
      reply.entries.map fieldLine := by
  unfold headerLines
  rw [(h.blankSplit []).2]
  rfl

/-- **What the client makes of a reply.** -/
theorem readsResponse_reply (h : Sends method reply) (t : Bytes) {status : ℕ} {body rest : Bytes} :
    ReadsResponse method (reply.bytes ++ t) status body rest ↔
      status = reply.response.status.code ∧
        (messageLength method reply.response.status.code
          (reply.entries.map fieldLine)).Delimits (reply.body ++ t) body rest := by
  obtain ⟨hsplit, hlines⟩ := h.blankSplit t
  rw [← h.headerLines_eq]
  apply readsResponse_iff hsplit _ (readStatusLine_statusText reply.response.status)
  rw [hlines]
  rfl

/-- The declarations in the head that goes out. -/
lemma declarations_eq (h : Sends method reply) :
    declarations (reply.entries.map fieldLine) =
      reply.response.headers.countP smuggles +
        if responseHasContent reply.method reply.response then 1 else 0 := by
  rw [declarations_map]
  unfold Reply.entries
  rw [if_pos h.valid, countP_headEntries]

/-- The replies without content. -/
lemma hasContent_eq_false_iff (h : Sends method reply) :
    responseHasContent reply.method reply.response = false ↔
      method = .head ∨ reply.response.status = .noContent ∨
        reply.response.status = .notModified := by
  have hfinal : ¬ reply.response.status.code < 200 := Nat.not_lt.2 h.final
  unfold responseHasContent statusForbidsContent
  rw [h.asked]
  simp only [Bool.and_eq_false_iff, Bool.not_eq_eq_eq_not, Bool.not_false, Bool.or_eq_true,
    Bool.and_eq_true, beq_iff_eq, decide_eq_true_eq, Option.some.injEq, hfinal, and_false,
    false_or]

/-- The client knows them by the method and the code. -/
lemma hasContent_eq_false_iff_code (h : Sends method reply) :
    responseHasContent reply.method reply.response = false ↔
      method = .head ∨ reply.response.status.code < 200 ∨ reply.response.status.code = 204 ∨
        reply.response.status.code = 304 := by
  unfold responseHasContent
  rw [h.asked, statusForbidsContent_eq]
  simp only [Bool.and_eq_false_iff, Bool.not_eq_eq_eq_not, Bool.not_false, Bool.or_eq_true,
    beq_iff_eq, decide_eq_true_eq, Option.some.injEq, or_assoc]

/-- The body that goes out is the one the client is to read. -/
lemma body_eq (h : Sends method reply) : reply.body = expectedBody method reply.response := by
  unfold Reply.body expectedBody
  rw [h.valid, Bool.true_and]
  by_cases hcontent : responseHasContent reply.method reply.response = true
  · have hsome : ¬ (method = .head ∨ reply.response.status = .noContent ∨
        reply.response.status = .notModified) := by
      intro hnone
      rw [h.hasContent_eq_false_iff.2 hnone] at hcontent
      cases hcontent
    rw [if_pos hcontent, if_neg hsome]
  · rw [if_neg hcontent, if_pos]
    exact h.hasContent_eq_false_iff.1 (by simpa using hcontent)

/-- A reply without content ends with its head. -/
lemma messageLength_of_empty (h : Sends method reply)
    (hcontent : responseHasContent reply.method reply.response = false) (lines : List Str) :
    messageLength method reply.response.status.code lines = .noContent := by
  unfold messageLength
  rw [if_pos (h.hasContent_eq_false_iff_code.1 hcontent)]

/-- The end of a reply with content is found by its header lines. -/
lemma messageLength_of_content (h : Sends method reply)
    (hcontent : responseHasContent reply.method reply.response = true) {lines : List Str} {n : ℕ}
    (hencoding : fieldValues "transfer-encoding".toList lines = [])
    (hlength : lengthValues lines = [' ' :: Nat.toDigits 10 n]) :
    messageLength method reply.response.status.code lines = .length n := by
  have hnone : ¬ (method = .head ∨ reply.response.status.code < 200 ∨
      reply.response.status.code = 204 ∨ reply.response.status.code = 304) := by
    intro hnone
    rw [h.hasContent_eq_false_iff_code.2 hnone] at hcontent
    cases hcontent
  have htunnel : ¬ (method = .connect ∧ reply.response.status.code < 300) := fun htunnel =>
    h.notConnect htunnel.1
  unfold messageLength
  rw [if_neg hnone, if_neg htunnel, codings_eq_nil_iff.2 hencoding, hlength]
  simp only [List.getLast?_nil, List.flatMap_cons, List.flatMap_nil, List.append_nil,
    splitOn_length, List.map_cons, List.map_nil, trimOws_length, Str.numeral_toDigits,
    List.all_nil, if_true]

/-- When nothing is smuggled, the head of a reply with content declares the length of its body. -/
lemma fieldValues_of_content (h : Sends method reply)
    (hcontent : responseHasContent reply.method reply.response = true)
    (hcount : declarations (reply.entries.map fieldLine) ≤ 1) :
    lengthValues (reply.entries.map fieldLine) =
        [' ' :: Nat.toDigits 10 reply.response.body.length] ∧
      fieldValues "transfer-encoding".toList (reply.entries.map fieldLine) = [] := by
  have hentry : ("Content-Length".toList, Nat.toDigits 10 reply.response.body.length) ∈
      reply.entries := by
    unfold Reply.entries headEntries lengthEntries
    rw [h.valid, hcontent, if_pos rfl, if_pos rfl]
    simp only [List.mem_append, List.mem_singleton, or_true, true_or]
  have hname : ':' ∉ "Content-Length".toList ∧
      Str.eqIgnoreAsciiCase "Content-Length".toList "content-length".toList = true := by
    decide
  have hmem : ' ' :: Nat.toDigits 10 reply.response.body.length ∈
      lengthValues (reply.entries.map fieldLine) :=
    mem_fieldValues (List.mem_map_of_mem hentry) (splitOnce_fieldLine hname.1) hname.2
  have hpos := List.length_pos_of_mem hmem
  unfold declarations at hcount
  constructor
  · obtain ⟨value, hvalue⟩ := List.length_eq_one_iff.1
      (by omega : (lengthValues (reply.entries.map fieldLine)).length = 1)
    rw [hvalue] at hmem ⊢
    rw [List.mem_singleton.1 hmem]
  · apply List.eq_nil_of_length_eq_zero
    omega

/-- **A reply that declares one length is read back**, whatever follows it.

**Proof sketch.** With one declaration of the length, the rules take exactly as many bytes as are
declared, so that what is read is the body when the declared number is its length. -/
theorem readsResponse_iff_of_declaresOnce (h : Sends method reply) (honce : DeclaresOnce reply)
    (t : Bytes) {status : ℕ} {body rest : Bytes} :
    ReadsResponse method (reply.bytes ++ t) status body rest ↔
      status = reply.response.status.code ∧ body = expectedBody method reply.response ∧
        rest = t := by
  rw [h.readsResponse_reply, ← h.body_eq]
  apply and_congr_right
  intro _
  have hcount := h.declarations_eq
  unfold DeclaresOnce at honce
  cases hcontent : responseHasContent reply.method reply.response with
  | false =>
    have hempty : reply.body = [] := by
      unfold Reply.body
      rw [hcontent, Bool.and_false]
      rfl
    rw [h.messageLength_of_empty hcontent, hempty]
    rfl
  | true =>
    rw [hcontent, if_pos rfl] at hcount honce
    obtain ⟨hlength, hencoding⟩ := h.fieldValues_of_content hcontent (by omega)
    rw [h.messageLength_of_content hcontent hencoding hlength]
    have hbody : reply.body = reply.response.body := by
      unfold Reply.body
      rw [h.valid, hcontent, Bool.and_self, if_pos rfl]
    rw [hbody]
    constructor
    · intro hread
      obtain ⟨hbytes, hlen⟩ := hread
      obtain ⟨rfl, rfl⟩ := List.append_inj hbytes hlen.symm
      exact ⟨rfl, rfl⟩
    · intro hread
      obtain ⟨rfl, rfl⟩ := hread
      exact ⟨rfl, rfl⟩

/-- A reply is framed when it declares one length. -/
lemma framed_iff (h : Sends method reply) : Framed method reply ↔ DeclaresOnce reply := by
  have hsplit := (h.blankSplit []).1
  rw [List.append_nil] at hsplit
  constructor
  · intro hframed
    have hone := hframed.2 _ _ hsplit
    rw [h.headerLines_eq, h.declarations_eq] at hone
    exact hone
  · intro honce
    refine ⟨fun t status body rest => h.readsResponse_iff_of_declaresOnce honce t, ?_⟩
    intro head tail hsplit'
    rw [(hsplit'.unique hsplit).1, h.headerLines_eq, h.declarations_eq]
    exact honce

end Sends

/-! ## Framing -/

/-- Chunked data are shorter than what carries them. -/
lemma length_lt_of_sentence {Line : Bytes → ℕ → Prop} {Field : Str → Prop} {wire body : Bytes}
    (h : Sentence Line Field wire body) : body.length < wire.length := by
  induction h with
  | last hline hfields =>
    simp only [crlf, List.length_append, List.length_cons, List.length_nil]
    omega
  | chunk hline hdata hwire ih =>
    simp only [crlf, List.length_append, List.length_cons, List.length_nil]
    omega

/-- **Under a chunked coding the body is not read back**: the body goes out as it is, and the
client looks for chunks in it and in what follows. -/
theorem chunked_not_read {method : RequestType} {reply : Reply} (h : Sends method reply)
    (hcontent : responseHasContent reply.method reply.response = true)
    (hchunked : messageLength method reply.response.status.code (reply.entries.map fieldLine) =
      .chunked) (t : Bytes) (status : ℕ) :
    ¬ ReadsResponse method (reply.bytes ++ t) status reply.response.body t := by
  intro hread
  obtain ⟨-, hbody⟩ := h.readsResponse_reply t |>.1 hread
  rw [hchunked] at hbody
  obtain ⟨wire, hsentence, hbytes⟩ := hbody
  have hlt := length_lt_of_sentence hsentence
  have hsent : reply.body = reply.response.body := by
    unfold Reply.body
    rw [h.valid, hcontent, Bool.and_self, if_pos rfl]
  rw [hsent] at hbytes
  have hlen := congrArg List.length hbytes
  rw [List.length_append, List.length_append] at hlen
  omega

/-- Replies that declare one length each are read in order. -/
lemma readsInOrder_iff {replies : List (RequestType × Reply)}
    (h : ∀ p ∈ replies, Sends p.1 p.2 ∧ DeclaresOnce p.2) (t : Bytes)
    {answers : List (ℕ × Bytes)} {rest : Bytes} :
    ReadsInOrder (replies.map Prod.fst) (replies.flatMap (fun p => p.2.bytes) ++ t) answers rest ↔
      answers =
          (replies.map fun p => (p.2.response.status.code, expectedBody p.1 p.2.response)) ∧
        rest = t := by
  induction replies generalizing answers with
  | nil => rfl
  | cons p replies ih =>
    obtain ⟨hsends, honce⟩ := h p List.mem_cons_self
    have hreplies : ∀ q ∈ replies, Sends q.1 q.2 ∧ DeclaresOnce q.2 := fun q hq =>
      h q (List.mem_cons_of_mem p hq)
    rw [List.map_cons, List.map_cons, List.flatMap_cons, List.append_assoc]
    unfold ReadsInOrder
    constructor
    · intro hread
      obtain ⟨status, body, bytes, answers, hfirst, hlater, rfl⟩ := hread
      obtain ⟨rfl, rfl, rfl⟩ := (hsends.readsResponse_iff_of_declaresOnce honce _).1 hfirst
      obtain ⟨rfl, rfl⟩ := (ih hreplies).1 hlater
      exact ⟨rfl, rfl⟩
    · intro hread
      obtain ⟨rfl, rfl⟩ := hread
      exact ⟨_, _, _, _, (hsends.readsResponse_iff_of_declaresOnce honce _).2 ⟨rfl, rfl, rfl⟩,
        (ih hreplies).2 ⟨rfl, rfl⟩, rfl⟩

/-- **When responses are framed**, for every sequence of responses on a connection. What goes out
for a response with a final status, to a request that is not `CONNECT`, is exactly one response
with at most one declared length, exactly when the headers of the handler smuggle no declared
length next to the one of the server. When this holds of all of them, the client pairs the
responses with its requests, in order.

**Proof sketch.** The head that goes out declares the length of the body, if there is one, and
what the handler smuggles. A client that finds only the former takes the body off by its length;
a response without content ends with its head, whatever it declares. -/
theorem responseFraming_iff {replies : List (RequestType × Reply)}
    (h : ∀ p ∈ replies, Sends p.1 p.2) :
    (∀ p ∈ replies, Framed p.1 p.2 ↔ DeclaresOnce p.2) ∧
    ((∀ p ∈ replies, DeclaresOnce p.2) → ∀ t answers rest,
      (ReadsInOrder (replies.map Prod.fst) (replies.flatMap (fun p => p.2.bytes) ++ t) answers
          rest ↔
        answers =
            (replies.map fun p => (p.2.response.status.code, expectedBody p.1 p.2.response)) ∧
          rest = t)) := by
  constructor
  · intro p hp
    exact (h p hp).framed_iff
  · intro honce t answers rest
    exact readsInOrder_iff (fun p hp => ⟨h p hp, honce p hp⟩) t

/-- The answer to a request, with some headers of the handler and the body `hello`. -/
def helloReply (method : RequestType) (headers : List (Str × Str)) : Reply where
  response := { status := .ok, headers := headers, body := Utf8.encode "hello".toList }
  method := some method
  close := false
  cors := none
  origin := none

/-- A response and its answer to `HEAD` are framed, and are read one behind the other. -/
theorem responseFraming_iff_hello :
    Framed .get (helloReply .get []) ∧
    ReadsInOrder [.get, .head]
      ((helloReply .get []).bytes ++ ((helloReply .head []).bytes ++ []) ++ [])
      [(200, Utf8.encode "hello".toList), (200, [])] [] := by
  have hsends : ∀ p ∈ [(RequestType.get, helloReply .get []), (.head, helloReply .head [])],
      Sends p.1 p.2 := by
    intro p hp
    rcases List.mem_cons.1 hp with rfl | hp
    · exact ⟨rfl, by decide, by decide, by decide⟩
    · obtain rfl := List.mem_singleton.1 hp
      exact ⟨rfl, by decide, by decide, by decide⟩
  have honce : ∀ p ∈ [(RequestType.get, helloReply .get []), (.head, helloReply .head [])],
      DeclaresOnce p.2 := by
    unfold DeclaresOnce
    decide
  obtain ⟨hframed, hpaired⟩ := responseFraming_iff hsends
  refine ⟨(hframed _ List.mem_cons_self).2 (honce _ List.mem_cons_self), ?_⟩
  exact (hpaired honce [] _ _).2 ⟨by decide, rfl⟩

/-- The code sends a transfer coding of the handler next to its own length, and the client does
not read the body back. -/
theorem helloReply_not_framed :
    Sends .get (helloReply .get [("Transfer-Encoding".toList, "chunked".toList)]) ∧
    ¬ Framed .get (helloReply .get [("Transfer-Encoding".toList, "chunked".toList)]) ∧
    declarations ((helloReply .get
      [("Transfer-Encoding".toList, "chunked".toList)]).entries.map fieldLine) = 2 ∧
    ∀ t status, ¬ ReadsResponse .get
      ((helloReply .get [("Transfer-Encoding".toList, "chunked".toList)]).bytes ++ t) status
        (Utf8.encode "hello".toList) t := by
  have hsends : Sends .get (helloReply .get [("Transfer-Encoding".toList, "chunked".toList)]) :=
    ⟨rfl, by decide, by decide, by decide⟩
  have hchunked : messageLength .get 200 ((helloReply .get
      [("Transfer-Encoding".toList, "chunked".toList)]).entries.map fieldLine) = .chunked := by
    decide
  have hlost := chunked_not_read hsends (by decide) hchunked
  refine ⟨hsends, fun hframed => ?_, by decide, hlost⟩
  have hread := (hframed.1 [] 200 (Utf8.encode "hello".toList) []).2
    ⟨rfl, by decide, rfl⟩
  exact hlost [] 200 hread

end Httpageboy
