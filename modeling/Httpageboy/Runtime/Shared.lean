import Httpageboy.Core.Cors
import Httpageboy.Core.Request
import Httpageboy.Lib.Search

set_option relaxedAutoImplicit false
set_option autoImplicit false

/-!
# Response heads

`runtime/shared.rs`: which responses have content, the head of a response, and the response of
a request without a route. The head is a string that two loops append to; `headEntries` is the
list of header entries it is made of, and `responseHead_eq` relates the two.

## Main definitions

* `Httpageboy.responseHasContent`, `Httpageboy.responseHead`, `Httpageboy.responseOrDefault`.
* `Httpageboy.headEntries` — the header entries a head is made of.

## Main results

* `Httpageboy.responseHead_eq` — a head is its status line, its entries and the empty line.
-/

namespace Httpageboy

/-! ## Heads as the source builds them -/

/-- `"\r\n"` as characters. -/
def newline : Str := ['\r', '\n']

/-- `INTERNAL_SERVER_ERROR_HEAD`. -/
def internalServerErrorHead : Str :=
  "HTTP/1.1 500 Internal Server Error\r\nContent-Length: 0\r\nConnection: close\r\n\r\n".toList

/-- `valid_header_part`. -/
def validHeaderPart (value : Str) : Bool := !value.contains '\r' && !value.contains '\n'

/-- `status_forbids_content`. -/
def statusForbidsContent (status : StatusCode) : Bool :=
  (100 ≤ status.code && status.code < 200) || status == .noContent || status == .notModified

/-- `response_has_content`. -/
def responseHasContent (method : Option RequestType) (response : Response) : Bool :=
  !(method == some .head) && !statusForbidsContent response.status

/-- The line `"{}: {}\r\n"` of a header. -/
def headerLine (entry : Str × Str) : Str := entry.1 ++ [':', ' '] ++ entry.2 ++ newline

/-- Whether the head leaves a header of the response out: `content-length` always,
`connection` when the connection is closed. -/
def skipped (close : Bool) (key : Str) : Bool :=
  Str.eqIgnoreAsciiCase key "content-length".toList ||
    (Str.eqIgnoreAsciiCase key "connection".toList && close)

/-- The loop of `response_head` over the headers of the response. -/
def pushHeaders (close : Bool) : List (Str × Str) → Str → Option Str
  | [], header => some header
  | (key, value) :: headers, header =>
    if !validHeaderPart key || !validHeaderPart value then none
    else if skipped close key then pushHeaders close headers header
    else pushHeaders close headers (header ++ headerLine (key, value))

/-- The loop of `response_head` over the headers of the policy. -/
def pushCorsHeaders : List (Str × Str) → Str → Option Str
  | [], header => some header
  | (key, value) :: headers, header =>
    if !validHeaderPart key || !validHeaderPart value then none
    else pushCorsHeaders headers (header ++ headerLine (key, value))

/-- The header lines of a policy, none without a policy. -/
def corsLines (cors : Option CorsPolicy) (origin : Option Str) : List (Str × Str) :=
  match cors with
  | some policy => policy.headerLines origin
  | none => []

/-- The first line of a head. -/
def statusLine (status : StatusCode) : Str := "HTTP/1.1 ".toList ++ status.display ++ newline

/-- `response_head`. -/
def responseHead (response : Response) (method : Option RequestType) (close : Bool)
    (cors : Option CorsPolicy) (origin : Option Str) : Option Str := do
  let header ← pushHeaders close response.headers (statusLine response.status)
  let header := if responseHasContent method response then
      header ++ headerLine ("Content-Length".toList, Nat.toDigits 10 response.body.length)
    else header
  let header := if close then header ++ headerLine ("Connection".toList, "close".toList)
    else header
  let header ← pushCorsHeaders (corsLines cors origin) header
  some (header ++ newline)

/-- `response_or_default`. -/
def responseOrDefault (response : Option Response) (method : RequestType)
    (cors : Option CorsPolicy) : Response :=
  match response with
  | some response => response
  | none =>
    if method = .options then
      match cors with
      | some policy => policy.preflightResponse
      | none => Response.new
    else Response.new

/-! ## Heads as lists of entries -/

/-- Whether a header can be written. -/
def validEntry (entry : Str × Str) : Bool := validHeaderPart entry.1 && validHeaderPart entry.2

/-- The headers of the response that the head keeps. -/
def keptHeaders (response : Response) (close : Bool) : List (Str × Str) :=
  response.headers.filter fun entry => !skipped close entry.1

/-- The declared body length, of a response with content. -/
def lengthEntries (response : Response) (method : Option RequestType) : List (Str × Str) :=
  if responseHasContent method response then
    [("Content-Length".toList, Nat.toDigits 10 response.body.length)]
  else []

/-- The announcement that the connection is closed. -/
def closeEntries (close : Bool) : List (Str × Str) :=
  if close then [("Connection".toList, "close".toList)] else []

/-- The header entries of a head, in order. -/
def headEntries (response : Response) (method : Option RequestType) (close : Bool)
    (cors : Option CorsPolicy) (origin : Option Str) : List (Str × Str) :=
  keptHeaders response close ++ lengthEntries response method ++ closeEntries close ++
    corsLines cors origin

/-- Whether `response_head` returns a head: no header of the response and no line of the policy
contains a line break. -/
def headValid (response : Response) (cors : Option CorsPolicy) (origin : Option Str) : Bool :=
  response.headers.all validEntry && (corsLines cors origin).all validEntry

/-- The head with the given entries. -/
def renderHead (status : StatusCode) (entries : List (Str × Str)) : Str :=
  statusLine status ++ entries.flatMap headerLine ++ newline

/-- The condition of the source, on the two parts of a header. -/
lemma push_condition (key value : Str) :
    (!validHeaderPart key || !validHeaderPart value) = !validEntry (key, value) := by
  simp [validEntry]

/-- The headers are written line by line, but for those that are skipped, if all of them are valid.
-/
lemma pushHeaders_eq (close : Bool) (headers : List (Str × Str)) (header : Str) :
    pushHeaders close headers header =
      if headers.all validEntry then
        some (header ++ (headers.filter fun entry => !skipped close entry.1).flatMap headerLine)
      else none := by
  induction headers generalizing header with
  | nil => simp [pushHeaders]
  | cons entry headers ih =>
    obtain ⟨key, value⟩ := entry
    rw [pushHeaders, push_condition, List.all_cons]
    cases hvalid : validEntry (key, value)
    · simp
    · rw [Bool.true_and]
      cases hskip : skipped close key <;> simp [hskip, ih]

/-- The CORS headers are written line by line, if all of them are valid. -/
lemma pushCorsHeaders_eq (headers : List (Str × Str)) (header : Str) :
    pushCorsHeaders headers header =
      if headers.all validEntry then some (header ++ headers.flatMap headerLine) else none := by
  induction headers generalizing header with
  | nil => simp [pushCorsHeaders]
  | cons entry headers ih =>
    obtain ⟨key, value⟩ := entry
    rw [pushCorsHeaders, push_condition, List.all_cons]
    cases hvalid : validEntry (key, value)
    · simp
    · rw [Bool.true_and]
      simp [ih]

/-- A conditional line appended to a head. -/
lemma append_if (c : Bool) (header : Str) (entry : Str × Str) :
    (if c then header ++ headerLine entry else header) =
      header ++ (if c then [entry] else []).flatMap headerLine := by
  cases c <;> simp

/-- **A head is its status line, its entries and the empty line**, and there is one exactly
when no header contains a line break.

**Proof sketch.** Both loops append the lines of the headers they keep, in order; the two
conditional lines between them are `lengthEntries` and `closeEntries`. -/
theorem responseHead_eq (response : Response) (method : Option RequestType) (close : Bool)
    (cors : Option CorsPolicy) (origin : Option Str) :
    responseHead response method close cors origin =
      if headValid response cors origin then
        some (renderHead response.status (headEntries response method close cors origin))
      else none := by
  unfold responseHead headValid
  simp only [pushHeaders_eq, append_if]
  change ((if response.headers.all validEntry = true then
      some (_ ++ (keptHeaders response close).flatMap headerLine) else none) >>= fun header =>
      pushCorsHeaders (corsLines cors origin) ((header ++
        (lengthEntries response method).flatMap headerLine) ++
        (closeEntries close).flatMap headerLine) >>= fun header => some (header ++ newline)) = _
  cases response.headers.all validEntry with
  | false => rfl
  | true =>
    simp only [if_true, Option.bind_eq_bind, Option.bind_some, pushCorsHeaders_eq, Bool.true_and]
    cases (corsLines cors origin).all validEntry with
    | false => rfl
    | true => simp only [if_true, Option.bind_some, renderHead, headEntries, List.flatMap_append,
        List.append_assoc]

end Httpageboy
