import Httpageboy.Routing.Dispatch
import Httpageboy.Runtime.Deadline
import Httpageboy.Runtime.Dialogue

set_option relaxedAutoImplicit false
set_option autoImplicit false

/-!
# Which status goes out, and why

A request that cannot be read is rejected with one of five statuses. A framed request that a route
serves has the response of its handler; to any other one the server answers itself, and the
status tells exactly what was wrong with its request line, or what the file server found. A `500`
takes the place of these statuses only where a header of the policy has a line break.

## Main definitions

* `Httpageboy.readStatuses` — the statuses of requests that cannot be read.
* `Httpageboy.Verdict` — why the server answers a framed request itself, and with which status.

## Main results

* `Httpageboy.status_mem_of_takeFramedRequest` — what the framer fails with.
* `Httpageboy.Verdict.unique` — a request has one verdict at most.
* `Httpageboy.run_statuses` — the statuses of every run.
-/

namespace Httpageboy

open Search

variable {H U : Type}

/-! ## Requests that cannot be read -/

/-- The statuses that the framer fails with. -/
def framerStatuses : List StatusCode :=
  [.badRequest, .payloadTooLarge, .requestHeaderFieldsTooLarge, .notImplemented]

/-- The statuses of requests that cannot be read. -/
def readStatuses : List StatusCode := .requestTimeout :: framerStatuses

/-- A branch that fails with a status of the list. -/
lemma mem_of_error {α : Type} {status status' : StatusCode}
    (h : (Except.error status : Except StatusCode α) = .error status')
    (hmem : status ∈ framerStatuses) : status' ∈ framerStatuses :=
  Except.error.inj h ▸ hmem

/-- A blank coding is a bad request. -/
lemma status_mem_of_pushCodings {parts codings : List Str} {status : StatusCode}
    (h : pushCodings parts codings = .error status) : status = .badRequest := by
  induction parts generalizing codings with
  | nil => cases h
  | cons part parts ih =>
    unfold pushCodings at h
    dsimp only at h
    split_ifs at h
    · exact (Except.error.inj h).symm
    · exact ih h

/-- So is what the headers say against each other. -/
lemma status_mem_of_headerLoop {lines codings : List Str} {length : Option ℕ} {status : StatusCode}
    (h : headerLoop lines length codings = .error status) : status = .badRequest := by
  induction lines generalizing length codings with
  | nil => cases h
  | cons line lines ih =>
    unfold headerLoop at h
    split at h
    · cases h
    · split at h
      · exact (Except.error.inj h).symm
      · split at h
        · split at h
          · exact (Except.error.inj h).symm
          · split at h
            · exact (Except.error.inj h).symm
            · exact ih h
        · split at h
          · split at h
            · rename_i hcodings
              exact Except.error.inj h ▸ status_mem_of_pushCodings hcodings
            · exact ih h
          · exact ih h

/-- The framing headers are wrong, or the coding is not known. -/
lemma status_mem_of_extractBodyHeaders {head : Str} {status : StatusCode}
    (h : extractBodyHeaders head = .error status) : status ∈ framerStatuses := by
  unfold extractBodyHeaders bodyFraming at h
  split at h
  · rename_i hloop
    obtain rfl := Except.error.inj h
    rw [status_mem_of_headerLoop hloop]
    decide
  · split_ifs at h
    · exact mem_of_error h (by decide)
    · exact mem_of_error h (by decide)
    · split at h <;> cases h

/-- A line without a size has a status of the framer. -/
lemma status_mem_of_chunkSize {line : Bytes} {status : StatusCode}
    (h : chunkSize line = .error status) : status ∈ framerStatuses := by
  unfold chunkSize at h
  split at h
  · exact mem_of_error h (by decide)
  · dsimp only at h
    split at h
    · exact mem_of_error h (by decide)
    · split at h
      · exact mem_of_error h (by decide)
      · split at h
        · cases h
        · exact mem_of_error h (by decide)

/-- So has a trailer section. -/
lemma status_mem_of_takeTrailer {limits : RequestLimits} {rest : Bytes} {status : StatusCode}
    (h : takeTrailer limits rest = .error status) : status ∈ framerStatuses := by
  unfold takeTrailer at h
  split at h
  · cases h
  · split at h
    · cases h
    · split at h
      · split at h
        · exact mem_of_error h (by decide)
        · cases h
      · split at h
        · exact mem_of_error h (by decide)
        · split at h
          · exact mem_of_error h (by decide)
          · split at h
            · exact mem_of_error h (by decide)
            · cases h

/-- What one turn of the chunk loop fails with. -/
lemma status_mem_of_chunkStep {limits : RequestLimits} {cursor decodedLen metadataBytes : ℕ}
    {rest : Bytes} {status : StatusCode}
    (h : chunkStep limits cursor rest decodedLen metadataBytes = .error status) :
    status ∈ framerStatuses := by
  unfold chunkStep at h
  split at h
  · split at h
    · exact mem_of_error h (by decide)
    · cases h
  · dsimp only at h
    split at h
    · exact mem_of_error h (by decide)
    · split at h
      · rename_i hsize
        exact mem_of_error h (status_mem_of_chunkSize hsize)
      · split at h
        · split at h
          · rename_i htrailer
            exact mem_of_error h (status_mem_of_takeTrailer htrailer)
          · cases h
          · cases h
        · split at h
          · exact mem_of_error h (by decide)
          · split at h
            · exact mem_of_error h (by decide)
            · split at h
              · exact mem_of_error h (by decide)
              · split at h
                · cases h
                · split at h
                  · exact mem_of_error h (by decide)
                  · cases h

/-- What the chunk loop fails with is what one of its turns fails with. -/
lemma status_mem_of_chunkLoop {limits : RequestLimits} {cursor metadataBytes : ℕ}
    {rest decoded : Bytes} {status : StatusCode}
    (h : chunkLoop limits cursor rest decoded metadataBytes = .error status) :
    status ∈ framerStatuses := by
  induction cursor, rest, decoded, metadataBytes using chunkLoop.induct limits with
  | case1 cursor rest decoded metadataBytes status' hstep =>
    rw [chunkLoop, hstep] at h
    exact mem_of_error h (status_mem_of_chunkStep hstep)
  | case2 cursor rest decoded metadataBytes hstep =>
    rw [chunkLoop, hstep] at h
    cases h
  | case3 cursor rest decoded metadataBytes rest' hstep =>
    rw [chunkLoop, hstep] at h
    cases h
  | case4 cursor rest decoded metadataBytes data rest' cursor' metadataBytes' hstep ih =>
    rw [chunkLoop, hstep] at h
    exact ih h

/-- **What the framer fails with.** -/
theorem status_mem_of_takeFramedRequest {buffer : Bytes} {limits : RequestLimits} {idleEnd : Bool}
    {status : StatusCode} (h : (takeFramedRequest buffer limits idleEnd).1 = .error status) :
    status ∈ framerStatuses := by
  unfold takeFramedRequest at h
  split at h
  · split at h
    · exact mem_of_error h (by decide)
    · cases h
  · dsimp only at h
    split at h
    · exact mem_of_error h (by decide)
    · split at h
      · exact mem_of_error h (by decide)
      · split at h
        · rename_i hheaders
          exact mem_of_error h (status_mem_of_extractBodyHeaders hheaders)
        · rename_i framing hheaders
          unfold takeBody at h
          cases framing with
          | none =>
            dsimp only at h
            split_ifs at h
            exact mem_of_error h (by decide)
          | length n =>
            dsimp only at h
            split at h
            · exact mem_of_error h (by decide)
            · split at h
              · exact mem_of_error h (by decide)
              · split at h <;> cases h
          | chunked =>
            dsimp only at h
            split at h
            · rename_i hloop
              exact mem_of_error h (status_mem_of_chunkLoop hloop)
            · cases h
            · cases h

/-- **What a call of the reader fails with.**

**Proof sketch.** Induction on the run of the reader: the framer fails, no time is left, or the
stream ends or fails within a request. -/
lemma ReaderRun.exists_status {limits : RequestLimits} {keepAlive : Bool} {reads : List Read}
    {started : Option ℕ} {now : ℕ} {buffer : Bytes} {issued : List IssuedRead}
    {result : Option (StreamRead Bytes × Reader)}
    (hrun : ReaderRun limits keepAlive reads started now buffer issued result)
    {response : Response} {reader : Reader} (h : result = some (.error response, reader)) :
    ∃ status ∈ readStatuses, response = errorResponse status := by
  have hframer : ∀ {buffer rest : Bytes} {idleEnd : Bool} {status : StatusCode},
      takeFramedRequest buffer limits idleEnd = (.error status, rest) → status ∈ readStatuses :=
    fun hframe =>
      List.mem_cons_of_mem _ (status_mem_of_takeFramedRequest (congrArg Prod.fst hframe))
  have hfinish : ∀ {unfinished : StatusCode} {reader reader' : Reader} {response : Response},
      unfinished ∈ readStatuses →
      finishRead limits unfinished reader = (.error response, reader') →
        ∃ status ∈ readStatuses, response = errorResponse status := by
    intro unfinished reader reader' response hunfinished hread
    unfold finishRead at hread
    split at hread
    · cases hread
    · cases hread
      exact ⟨unfinished, hunfinished, rfl⟩
    · rename_i status rest hframe
      cases hread
      exact ⟨status, hframer hframe, rfl⟩
  induction hrun with
  | ready hframe => cases h
  | rejected hframe =>
    cases h
    exact ⟨_, hframer hframe, rfl⟩
  | @overdue reads started now buffer outcome hframe hwait =>
    cases h
    unfold nextWait at hwait
    cases started with
    | none =>
      dsimp only at hwait
      split_ifs at hwait <;> cases hwait
    | some startedAt =>
      have htimeout : .requestTimeout ∈ readStatuses := by decide
      dsimp only at hwait
      split at hwait
      · cases hwait
        exact ⟨_, htimeout, rfl⟩
      · split at hwait
        · cases hwait
          exact ⟨_, htimeout, rfl⟩
        · cases hwait
  | blocked hframe hwait => cases h
  | eof hframe hwait hresult =>
    split at h
    · cases h
    · exact hfinish (by decide) (Option.some.inj h)
  | timedOut hframe hwait hresult =>
    split at h
    · cases h
    · exact hfinish (by decide) (Option.some.inj h)
  | failed hframe hwait hresult =>
    cases h
    exact ⟨.badRequest, by decide, rfl⟩
  | chunk hframe hwait hresult hne hrun ih => exact ih h

/-! ## Request lines -/

/-- The head of a framed request is text, and these are the words of its first line. -/
def RequestWords (raw : Bytes) (words : List Str) : Prop :=
  ∃ separator head requestLine, position crlfcrlf raw = some separator ∧
    Utf8.decode (raw.take separator) = some head ∧
    (splitPair '\r' '\n' head).head? = some requestLine ∧
    Str.splitWhitespace requestLine = words

section RequestLine

variable {raw : Bytes} {method target version : Str}

/-- A request has one list of words. -/
lemma RequestWords.unique {words words' : List Str} (h : RequestWords raw words)
    (h' : RequestWords raw words') : words = words' := by
  obtain ⟨separator, head, requestLine, hposition, hhead, hline, rfl⟩ := h
  obtain ⟨separator', head', requestLine', hposition', hhead', hline', rfl⟩ := h'
  obtain rfl := Option.some.inj (hposition.symm.trans hposition')
  obtain rfl := Option.some.inj (hhead.symm.trans hhead')
  obtain rfl := Option.some.inj (hline.symm.trans hline')
  rfl

/-- What is asked for are the words of the request line, with the version and a target that is not
too long. -/
lemma requests_iff {method : RequestType} :
    Requests raw method target ↔ RequestWords raw [method.name, target, httpVersion] ∧
      (Utf8.encode target).length ≤ maxUri := by
  constructor
  · rintro ⟨separator, head, requestLine, hposition, hhead, hline, hwords, hlength⟩
    exact ⟨⟨separator, head, requestLine, hposition, hhead, hline, hwords⟩, hlength⟩
  · rintro ⟨⟨separator, head, requestLine, hposition, hhead, hline, hwords⟩, hlength⟩
    exact ⟨separator, head, requestLine, hposition, hhead, hline, hwords, hlength⟩

/-- The checks of a request line with three words, in the order of the source. -/
lemma parseRawOnly_of_words (h : RequestWords raw [method, target, version])
    (routes : Routes H U) :
    (method ∉ allowed ∧ parseRawOnly raw routes = .error (errorResponse .methodNotAllowed)) ∨
    (method ∈ allowed ∧ version ≠ httpVersion ∧
      parseRawOnly raw routes = .error (errorResponse .httpVersionNotSupported)) ∨
    (method ∈ allowed ∧ version = httpVersion ∧ maxUri < (Utf8.encode target).length ∧
      parseRawOnly raw routes = .error (errorResponse .uriTooLong)) ∨
    (method ∈ allowed ∧ version = httpVersion ∧ (Utf8.encode target).length ≤ maxUri) := by
  obtain ⟨separator, head, requestLine, hposition, hhead, hline, hwords⟩ := h
  unfold parseRawOnly
  simp only [hposition, hhead]
  unfold parseHead
  cases hlines : splitPair '\r' '\n' head with
  | nil =>
    rw [hlines] at hline
    cases hline
  | cons line lines =>
    rw [hlines] at hline
    obtain rfl := Option.some.inj hline
    simp only [hwords]
    by_cases hmethod : method ∈ allowed
    · rw [if_neg (not_not.2 hmethod)]
      by_cases hversion : version = httpVersion
      · rw [if_neg (not_not.2 hversion)]
        by_cases hlong : maxUri < (Utf8.encode target).length
        · exact .inr (.inr (.inl ⟨hmethod, hversion, hlong, if_pos hlong⟩))
        · exact .inr (.inr (.inr ⟨hmethod, hversion, Nat.not_lt.1 hlong⟩))
      · exact .inr (.inl ⟨hmethod, hversion, if_pos hversion⟩)
    · exact .inl ⟨hmethod, if_pos hmethod⟩

/-- Without three words there is no request. -/
lemma parseRawOnly_of_not_words
    (h : ∀ method target version, ¬ RequestWords raw [method, target, version])
    (routes : Routes H U) : parseRawOnly raw routes = .error (errorResponse .badRequest) := by
  unfold parseRawOnly
  cases hposition : position crlfcrlf raw with
  | none => rfl
  | some separator =>
    cases hhead : Utf8.decode (raw.take separator) with
    | none => simp only [hhead]
    | some head =>
      simp only [hhead]
      unfold parseHead
      split
      · rfl
      · rename_i requestLine lines hlines
        split
        · rename_i method target version hwords
          exact absurd ⟨separator, head, requestLine, hposition, hhead, by rw [hlines]; rfl, hwords⟩
            (h method target version)
        · rfl

end RequestLine

/-! ## Requests that no route serves -/

/-- One of the directories has the file of a path. -/
def HasFile (fs : FileSystem) (path : Str) (bases : List Str) : Prop :=
  ∃ base ∈ bases, ∃ realPath, securePath fs (Utf8.encode base) path = some realPath ∧
    (fs.read realPath).isSome = true

/-- The file server answers `200` exactly when it has the file. -/
lemma serveFile_status_iff (fs : FileSystem) (path : Str) (bases : List Str) :
    (serveFile fs path bases).status = .ok ↔ HasFile fs path bases := by
  unfold HasFile
  induction bases with
  | nil =>
    have hnew : Response.new.status ≠ .ok := by decide
    simpa [serveFile] using hnew
  | cons base bases ih =>
    rw [serveFile, List.exists_mem_cons_iff]
    cases securePath fs (Utf8.encode base) path with
    | none => simp [ih]
    | some realPath =>
      simp only
      cases hread : fs.read realPath with
      | none => simp [ih, hread]
      | some data => simp [hread]

/-- Why the server answers a framed request itself, and with which status: what is wrong with the
request line is looked for in this order; then come the file server, and the default answers. -/
inductive Verdict (server : Server H U) (fs : FileSystem) (raw : Bytes) : StatusCode → Prop
  | malformed (h : ∀ method target version, ¬ RequestWords raw [method, target, version]) :
      Verdict server fs raw .badRequest
  | method {method target version : Str} (h : RequestWords raw [method, target, version])
      (hmethod : method ∉ allowed) : Verdict server fs raw .methodNotAllowed
  | version {method target version : Str} (h : RequestWords raw [method, target, version])
      (hmethod : method ∈ allowed) (hversion : version ≠ httpVersion) :
      Verdict server fs raw .httpVersionNotSupported
  | target {method target : Str} (h : RequestWords raw [method, target, httpVersion])
      (hmethod : method ∈ allowed) (hlong : maxUri < (Utf8.encode target).length) :
      Verdict server fs raw .uriTooLong
  | file {target : Str} (h : Requests raw .get target)
      (hfile : HasFile fs (targetPath target) server.filesSources) : Verdict server fs raw .ok
  | noFile {target : Str} (h : Requests raw .get target)
      (hfile : ¬ HasFile fs (targetPath target) server.filesSources) :
      Verdict server fs raw .notFound
  | preflight {target : Str} {policy : CorsPolicy} (h : Requests raw .options target)
      (hcors : server.cors = some policy) : Verdict server fs raw .noContent
  | unrouted {method : RequestType} {target : Str} (h : Requests raw method target)
      (hget : method ≠ .get) (hoptions : method = .options → server.cors = none) :
      Verdict server fs raw .notFound

section Unserved

variable {server : Server H U} {raw : Bytes}

/-- The response to a request that is rejected. -/
lemma Server.respond_rejected (env env' : Env H) {response : Response}
    (hparse : parseRawOnly raw server.routes = .error response) :
    server.respond env' raw (parseRaw env raw server.routes server.filesSources) =
      ⟨raw, Request.default, response, []⟩ := by
  unfold parseRaw
  rw [hparse]
  rfl

/-- The response to a request that no route serves. -/
lemma Server.respond_unserved (env env' : Env H) {request : Request}
    (hparse : parseRawOnly raw server.routes = .ok request)
    (hselect : selectEntry server.routes request.method request.path = none) :
    server.respond env' raw (parseRaw env raw server.routes server.filesSources) =
      ⟨raw, request, if request.method = .get then
        serveFile env.fs request.path server.filesSources
      else responseOrDefault none request.method server.cors, []⟩ := by
  have hroute := route_eq env request server.routes server.filesSources
  have hagain := route_eq env' request server.routes server.filesSources
  simp only [hselect] at hroute hagain
  unfold parseRaw
  simp only [hparse, hroute]
  by_cases hget : request.method = .get
  · simp only [if_pos hget]
    rfl
  · unfold Server.respond
    simp only [if_neg hget, hagain, List.append_nil]

/-- The status of the default answer. -/
lemma status_responseOrDefault_iff (method : RequestType) (cors : Option CorsPolicy) :
    (responseOrDefault none method cors).status =
      if method = .options ∧ cors.isSome = true then .noContent else .notFound := by
  unfold responseOrDefault
  by_cases hoptions : method = .options
  · cases cors with
    | none => simp [hoptions, Response.new]
    | some policy => simp [hoptions, CorsPolicy.preflightResponse]
  · simp [hoptions, Response.new]

/-- The response to an accepted request line that no route serves. -/
lemma Server.response_of_requests (env env' : Env H) (hunserved : Unserved server.routes raw)
    {method : RequestType} {target : Str} (h : Requests raw method target) :
    (server.respond env' raw
        (parseRaw env raw server.routes server.filesSources)).response =
      if method = .get then serveFile env.fs (targetPath target) server.filesSources
      else responseOrDefault none method server.cors := by
  obtain ⟨headers, body, hparsed⟩ := h.parsed (H := H) (U := U)
  have hparse := hparsed server.routes
  rw [server.respond_unserved env env' hparse (selectEntry_eq_none_iff.2 (hunserved _ hparse))]

/-- **There is a reason for every status** with which a request that no route serves is answered.

**Proof sketch.** A request line without three words is malformed; one with three words fails a
check, or is accepted, and then its method says who answers. -/
lemma verdict_respond (env env' : Env H) (hunserved : Unserved server.routes raw) :
    Verdict server env.fs raw (server.respond env' raw
      (parseRaw env raw server.routes server.filesSources)).response.status := by
  by_cases hwords : ∃ method target version, RequestWords raw [method, target, version]
  · obtain ⟨method, target, version, hwords⟩ := hwords
    rcases parseRawOnly_of_words hwords server.routes with ⟨hmethod, hparse⟩ |
      ⟨hmethod, hversion, hparse⟩ | ⟨hmethod, rfl, hlong, hparse⟩ | ⟨hmethod, rfl, hlength⟩
    · rw [server.respond_rejected env env' hparse]
      exact .method hwords hmethod
    · rw [server.respond_rejected env env' hparse]
      exact .version hwords hmethod hversion
    · rw [server.respond_rejected env env' hparse]
      exact .target hwords hmethod hlong
    · obtain ⟨method, rfl⟩ := mem_allowed_iff.1 hmethod
      have hrequests : Requests raw method target := requests_iff.2 ⟨hwords, hlength⟩
      rw [server.response_of_requests env env' hunserved hrequests]
      by_cases hget : method = .get
      · subst hget
        rw [if_pos rfl]
        by_cases hfile : HasFile env.fs (targetPath target) server.filesSources
        · rw [(serveFile_status_iff _ _ _).2 hfile]
          exact .file hrequests hfile
        · rcases status_serveFile env.fs (targetPath target) server.filesSources with hok | hnone
          · exact absurd ((serveFile_status_iff _ _ _).1 hok) hfile
          · rw [hnone]
            exact .noFile hrequests hfile
      · rw [if_neg hget, status_responseOrDefault_iff]
        by_cases hoptions : method = .options ∧ server.cors.isSome = true
        · obtain ⟨rfl, hcors⟩ := hoptions
          obtain ⟨policy, hpolicy⟩ := Option.isSome_iff_exists.1 hcors
          rw [if_pos ⟨rfl, hcors⟩]
          exact .preflight hrequests hpolicy
        · rw [if_neg hoptions]
          refine .unrouted hrequests hget fun hmethod => ?_
          rwa [hmethod, eq_self_iff_true, true_and, Option.isSome_iff_ne_none, not_not] at hoptions
  · rw [server.respond_rejected env env'
      (parseRawOnly_of_not_words (fun method target version hw => hwords ⟨_, _, _, hw⟩) _)]
    exact .malformed fun method target version hw => hwords ⟨_, _, _, hw⟩

/-- **There is no other reason** than that for the status with which the request is answered. -/
lemma Verdict.status_eq {env : Env H} (env' : Env H) (hunserved : Unserved server.routes raw)
    {status : StatusCode} (h : Verdict server env.fs raw status) :
    (server.respond env' raw
      (parseRaw env raw server.routes server.filesSources)).response.status = status := by
  cases h with
  | malformed hwords =>
    rw [server.respond_rejected env env' (parseRawOnly_of_not_words hwords server.routes)]
    rfl
  | method hwords hmethod =>
    rcases parseRawOnly_of_words hwords server.routes with ⟨-, hparse⟩ | ⟨hin, -⟩ | ⟨hin, -⟩ |
      ⟨hin, -⟩
    · rw [server.respond_rejected env env' hparse]
      rfl
    all_goals exact absurd hin hmethod
  | version hwords hmethod hversion =>
    rcases parseRawOnly_of_words hwords server.routes with ⟨hnot, -⟩ | ⟨-, -, hparse⟩ |
      ⟨-, heq, -⟩ | ⟨-, heq, -⟩
    · exact absurd hmethod hnot
    · rw [server.respond_rejected env env' hparse]
      rfl
    all_goals exact absurd heq hversion
  | target hwords hmethod hlong =>
    rcases parseRawOnly_of_words hwords server.routes with ⟨hnot, -⟩ | ⟨-, hne, -⟩ |
      ⟨-, -, -, hparse⟩ | ⟨-, -, hshort⟩
    · exact absurd hmethod hnot
    · exact absurd rfl hne
    · rw [server.respond_rejected env env' hparse]
      rfl
    · exact absurd hshort (Nat.not_le.2 hlong)
  | file hrequests hfile =>
    rw [server.response_of_requests env env' hunserved hrequests, if_pos rfl]
    exact (serveFile_status_iff _ _ _).2 hfile
  | @noFile target hrequests hfile =>
    rw [server.response_of_requests env env' hunserved hrequests, if_pos rfl]
    rcases status_serveFile env.fs (targetPath target) server.filesSources with hok | hnone
    · exact absurd ((serveFile_status_iff _ _ _).1 hok) hfile
    · exact hnone
  | preflight hrequests hcors =>
    rw [server.response_of_requests env env' hunserved hrequests, if_neg (by decide),
      status_responseOrDefault_iff, if_pos ⟨rfl, by rw [hcors]; rfl⟩]
  | unrouted hrequests hget hoptions =>
    rw [server.response_of_requests env env' hunserved hrequests, if_neg hget,
      status_responseOrDefault_iff, if_neg]
    rintro ⟨hmethod, hcors⟩
    rw [hoptions hmethod] at hcors
    cases hcors

end Unserved

/-! ## Headers of the policy -/

/-- The texts of a policy have no line break. -/
structure CorsPolicy.Writable (policy : CorsPolicy) : Prop where
  allowOrigin : OneLine policy.allowOrigin
  allowMethods : OneLine policy.allowMethods
  allowHeaders : OneLine policy.allowHeaders

/-- An origin that is listed has only characters of the list, up to letter case. -/
lemma CorsPolicy.Lists.notMem {policy : CorsPolicy} {origin : Str} (h : policy.Lists origin)
    {c : Char} (hc : c.toNat < 65) (hnot : c ∉ policy.allowOrigin) : c ∉ origin := by
  intro hmem
  obtain ⟨entry, hentry, -, hequal⟩ := h
  have hlower : c.toLower = c := by
    unfold Char.toLower
    rw [dif_neg]
    rintro ⟨hupper, -⟩
    exact absurd hc (Nat.not_lt.2 hupper)
  have hin : c ∈ Str.toAsciiLowercase (Str.trim entry) := by
    rw [Str.eqIgnoreAsciiCase_iff.1 hequal, ← hlower]
    exact List.mem_map_of_mem hmem
  obtain ⟨d, hd, hdc⟩ := List.mem_map.1 hin
  obtain rfl := Str.eq_of_toLower_eq (Nat.lt_trans hc (by decide)) hdc
  obtain ⟨front, back, hsplit, -⟩ := Str.exists_of_mem_splitOn hentry
  refine hnot ?_
  rw [hsplit]
  exact List.mem_append_left _ (List.mem_append_right _ ((Str.infix_trim entry).subset hd))

/-- The lines of a policy without line breaks can be written, whatever the origin is. -/
lemma validEntry_corsLines_of_writable {cors : Option CorsPolicy}
    (hpolicy : ∀ policy, cors = some policy → policy.Writable) (origin : Option Str) :
    (corsLines cors origin).all validEntry = true := by
  have hlists : ∀ policy, cors = some policy →
      OneLine policy.allowMethods ∧ OneLine policy.allowHeaders := fun policy h =>
    ⟨(hpolicy policy h).allowMethods, (hpolicy policy h).allowHeaders⟩
  have hnone : (corsLines cors none).all validEntry = true :=
    validEntry_corsLines hlists nofun
  cases cors with
  | none => rfl
  | some policy =>
    have hsame : policy.allowedOrigin origin = policy.allowedOrigin none →
        corsLines (some policy) origin = corsLines (some policy) none := by
      intro h
      show policy.headerLines origin = policy.headerLines none
      unfold CorsPolicy.headerLines
      rw [h]
    by_cases hstar : policy.allowOrigin = "*".toList
    · rw [hsame (by rw [CorsPolicy.allowedOrigin_of_star hstar,
        CorsPolicy.allowedOrigin_of_star hstar])]
      exact hnone
    · cases hallowed : policy.allowedOrigin origin with
      | none =>
        rw [hsame (by rw [hallowed, CorsPolicy.allowedOrigin, if_neg hstar]; rfl)]
        exact hnone
      | some value =>
        obtain ⟨rfl, hlisted⟩ := (CorsPolicy.allowedOrigin_eq_some_iff hstar).1 hallowed
        refine validEntry_corsLines hlists fun value' hvalue => ?_
        obtain rfl := Option.some.inj hvalue
        have horigin := (hpolicy policy rfl).allowOrigin
        exact ⟨hlisted.notMem (by decide) horigin.1, hlisted.notMem (by decide) horigin.2⟩

/-! ## Runs -/

/-- The exchange of an iteration that reads a request, with its reply. -/
def Turn.exchange? : Turn H U → Option (Exchange H U × Reply)
  | .answered exchange reply => some (exchange, reply)
  | .upgraded exchange reply _ _ => some (exchange, reply)
  | _ => none

/-- With such a policy, the status that goes out is that of the response, unless a header of the
response has a line break. -/
lemma Reply.status_eq {reply : Reply}
    (hpolicy : ∀ policy, reply.cors = some policy → policy.Writable) :
    reply.status = if reply.response.headers.all validEntry then reply.response.status
      else .internalServerError := by
  unfold Reply.status Reply.valid headValid
  rw [validEntry_corsLines_of_writable hpolicy, Bool.and_true]

/-- The headers of a response that no handler makes can be written. -/
lemma Server.validEntry_respond_unserved (server : Server H U) (env env' : Env H) {raw : Bytes}
    (hunserved : Unserved server.routes raw) :
    (server.respond env' raw
      (parseRaw env raw server.routes server.filesSources)).response.headers.all validEntry =
        true := by
  have hown : ∀ {response : Response}, OwnResponse response →
      response.headers.all validEntry = true := fun h =>
    List.all_eq_true.2 fun entry hentry => (h.readable.headers entry hentry).1
  cases hparse : parseRawOnly raw server.routes with
  | error response =>
    rw [server.respond_rejected env env' hparse]
    show response.headers.all validEntry = true
    have hheaders : response.headers = [] := headers_of_parseRawOnly hparse
    rw [hheaders]
    rfl
  | ok request =>
    rw [server.respond_unserved env env' hparse
      (selectEntry_eq_none_iff.2 (hunserved request hparse))]
    by_cases hget : request.method = .get
    · simp only [if_pos hget]
      exact hown (ownResponse_serveFile _ _ _)
    · simp only [if_neg hget]
      exact hown (ownResponse_responseOrDefault _ _)

/-- A rejection is what the reader failed with. -/
lemma Server.turn_rejected {server : Server H U} {env : ℕ → Env H} {conn conn' : Conn}
    {reply : Reply} (h : server.turn env conn = some (.rejected reply, conn')) :
    ∃ response, readRequest server.limits (0 < conn.handled) conn.reader =
        some (.error response, conn'.reader) ∧
      reply = ⟨response, none, true, server.cors, none⟩ := by
  unfold Server.turn parseStream at h
  rcases hread : readRequest server.limits (0 < conn.handled) conn.reader with
    _ | ⟨raw | _ | _ | response, reader⟩
  · simp [hread] at h
  · simp only [hread, Option.map_some, StreamRead.map, Option.some.injEq, Prod.mk.injEq] at h
    have hraw := server.raw?_answer (env conn.handled) (conn.handled + 1) raw
      (parseRaw (env conn.handled) raw server.routes server.filesSources) reader.reads
    rw [h.1] at hraw
    cases hraw
  · simp [hread, StreamRead.map] at h
  · simp [hread, StreamRead.map] at h
  · simp only [hread, Option.map_some, StreamRead.map, Option.some.injEq, Prod.mk.injEq,
      Turn.rejected.injEq] at h
    obtain ⟨rfl, rfl⟩ := h
    exact ⟨response, rfl, rfl⟩

/-- A request is answered without a handler exactly when no route serves it. -/
lemma Server.invoked_eq_nil_iff (server : Server H U) (env env' : Env H) (raw : Bytes) :
    (server.respond env' raw
        (parseRaw env raw server.routes server.filesSources)).invoked = [] ↔
      Unserved server.routes raw := by
  rcases server.respond_cases env env' raw with
    ⟨response, hparse, -, hrespond⟩ | ⟨request, e, hparse, hselect, -, hrespond⟩ |
      ⟨request, response, hparse, hselect, -, -, hrespond⟩
  · rw [hrespond]
    refine iff_of_true rfl fun request hok => ?_
    rw [hparse] at hok
    cases hok
  · rw [hrespond]
    refine iff_of_false (List.cons_ne_nil _ _) fun hunserved => ?_
    obtain ⟨hmem, hserves, -⟩ := selectEntry_eq_some hselect
    exact hunserved request hparse e hmem hserves
  · rw [hrespond]
    refine iff_of_true rfl fun request' hok => ?_
    obtain rfl : request = request' := Except.ok.inj (hparse.symm.trans hok)
    exact selectEntry_eq_none_iff.1 hselect

/-- The handler that is invoked makes the response. -/
lemma Server.response_of_invoked (server : Server H U) (env env' : Env H) {raw : Bytes}
    {invocation : Invocation H U} (h : invocation ∈ (server.respond env' raw
      (parseRaw env raw server.routes server.filesSources)).invoked) :
    (server.respond env' raw
        (parseRaw env raw server.routes server.filesSources)).response =
      env.handle invocation.entry.handler invocation.request := by
  rcases server.respond_cases env env' raw with
    ⟨response, -, -, hrespond⟩ | ⟨request, e, -, -, -, hrespond⟩ |
      ⟨request, response, -, -, -, -, hrespond⟩
  · rw [hrespond] at h
    cases h
  · rw [hrespond] at h ⊢
    obtain rfl := List.mem_singleton.1 h
    rfl
  · rw [hrespond] at h
    cases h

/-- A turn that reads a request answers it with the response of its two passes. -/
lemma Server.turn_exchange {server : Server H U} {env : ℕ → Env H} {conn conn' : Conn}
    {turn : Turn H U} (h : server.turn env conn = some (turn, conn')) {exchange : Exchange H U}
    {reply : Reply} (hexchange : turn.exchange? = some (exchange, reply)) :
    ∃ raw, exchange = server.respond (env conn.handled) raw
        (parseRaw (env conn.handled) raw server.routes server.filesSources) ∧
      reply.response = exchange.response ∧ reply.cors = server.cors := by
  rcases Server.turn_cases h with ⟨rfl, -⟩ | ⟨response, rfl, -⟩ | ⟨raw, -, -, rfl⟩
  · cases hexchange
  · cases hexchange
  · refine ⟨raw, ?_⟩
    rcases server.answer_cases (env conn.handled) conn'.handled raw
        (parseRaw (env conn.handled) raw server.routes server.filesSources) conn'.reader.reads with
      ⟨upgrade, hcase, -⟩ | ⟨close, hcase, -⟩
    all_goals
      rw [hcase] at hexchange
      cases hexchange
      exact ⟨rfl, rfl, rfl⟩

/-- **Which status goes out, and why**, for every behaviour of the client and of the handlers, when
the texts of the policy have no line break. What cannot be read is rejected with one of five
statuses. A framed request has no handler exactly when no route serves it, and is then answered
with a status exactly when there is that reason for it; with a handler, it is answered with the
status of its response, and with `500` if a header of this one has a line break.

**Proof sketch.** The errors of the reader are those of its runs. A turn that reads a request routes
it twice; what the two passes come to is known, and the policy does not spoil the head. -/
theorem run_statuses {server : Server H U} {env : ℕ → Env H} {n now : ℕ} {reads : List Read}
    (hpolicy : ∀ policy, server.cors = some policy → policy.Writable)
    {before after : List (Turn H U × Conn)} {turn : Turn H U} {conn : Conn}
    (hturns : (server.run env n (.start now reads)).turns = before ++ (turn, conn) :: after) :
    (∀ reply, turn = .rejected reply → reply.status ∈ readStatuses) ∧
    ∀ exchange reply, turn.exchange? = some (exchange, reply) →
      (exchange.invoked = [] ↔ Unserved server.routes exchange.raw) ∧
      (Unserved server.routes exchange.raw → ∀ status, reply.status = status ↔
        Verdict server (env before.length).fs exchange.raw status) ∧
      ∀ invocation ∈ exchange.invoked,
        reply.response = (env before.length).handle invocation.entry.handler invocation.request ∧
        reply.status = if reply.response.headers.all validEntry then reply.response.status
          else .internalServerError := by
  obtain ⟨conn₀, hhandled, hturn⟩ := Server.run_turn hturns
  constructor
  · rintro reply rfl
    obtain ⟨response, hread, rfl⟩ := Server.turn_rejected hturn
    obtain ⟨status, hstatus, rfl⟩ :=
      (readRequest_run server.limits (0 < conn₀.handled) conn₀.reader).exists_status hread
    rw [Reply.status_eq hpolicy]
    exact hstatus
  · intro exchange reply hexchange
    obtain ⟨raw, rfl, hresponse, hcors⟩ := Server.turn_exchange hturn hexchange
    have hgoes : reply.status = if reply.response.headers.all validEntry then
        reply.response.status else .internalServerError := Reply.status_eq (by rwa [hcors])
    rw [hhandled] at hresponse ⊢
    have hraw : (server.respond (env before.length) raw (parseRaw (env before.length) raw
        server.routes server.filesSources)).raw = raw := server.raw_respond _ _ _
    rw [hraw]
    have hown := server.invoked_eq_nil_iff (env before.length) (env before.length) raw
    refine ⟨hown, fun hunserved status => ?_, fun invocation hinvocation => ⟨?_, hgoes⟩⟩
    · rw [hgoes, hresponse, if_pos (server.validEntry_respond_unserved _ _ hunserved)]
      exact ⟨fun h => h ▸ verdict_respond _ _ hunserved, fun h => h.status_eq _ hunserved⟩
    · rw [hresponse]
      exact server.response_of_invoked _ _ hinvocation

/-- A request of another version. -/
def olderRequest : Bytes := Utf8.encode "GET / HTTP/1.0\r\n\r\n".toList

/-- It is answered with `505`, and there is that reason for it. -/
theorem run_statuses_older :
    ∃ before turn conn exchange reply,
      ((rootServer none).run (fun _ => constantEnv Response.new) 20
          (.start 0 [⟨0, .ok olderRequest⟩])).turns = before ++ [(turn, conn)] ∧
        turn.exchange? = some (exchange, reply) ∧ exchange.raw = olderRequest ∧
        reply.status = .httpVersionNotSupported ∧
        Verdict (rootServer none) (constantEnv Response.new).fs olderRequest
          .httpVersionNotSupported := by
  have hrun : ((rootServer none).run (fun _ => constantEnv Response.new) 20
      (.start 0 [⟨0, .ok olderRequest⟩])).turns.map (fun turn => turn.1.exchange?.map fun e =>
        (e.1.raw, decide (e.1.invoked = []), e.2.status)) =
      [some (olderRequest, true, .httpVersionNotSupported)] := by
    decide +kernel
  obtain ⟨⟨turn, conn⟩, hturns⟩ :=
    List.length_eq_one_iff.1 (by simpa using congrArg List.length hrun)
  rw [hturns] at hrun
  obtain ⟨⟨exchange, reply⟩, hexchange, hobserved⟩ :=
    Option.map_eq_some_iff.1 (List.cons.inj hrun).1
  simp only [Prod.mk.injEq, decide_eq_true_eq] at hobserved
  obtain ⟨hraw, hinvoked, hstatus⟩ := hobserved
  have hsplit := hturns.trans (List.nil_append [(turn, conn)]).symm
  have hpolicy : ∀ policy, (rootServer none).cors = some policy → policy.Writable := nofun
  obtain ⟨hunserved, hverdict, -⟩ := (run_statuses hpolicy hsplit).2 exchange reply hexchange
  refine ⟨[], turn, conn, exchange, reply, hsplit, hexchange, hraw, hstatus, ?_⟩
  rw [← hraw]
  exact (hverdict (hunserved.1 hinvoked) _).1 hstatus

end Httpageboy
