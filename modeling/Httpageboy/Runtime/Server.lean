import Httpageboy.Core.Stream
import Httpageboy.Lib.Loop
import Httpageboy.Runtime.Shared

set_option relaxedAutoImplicit false
set_option autoImplicit false

/-!
# The connection loop

`send_response` and `handle_stream` of the synchronous server and of the three asynchronous
ones, which have the same control flow. What a call of `send_response` is given is a `Reply`;
what it does is the list of the operations on the stream, whose errors the source ignores. One
iteration of the loop is `Server.turn`, a run of it `Server.run`.

## Main definitions

* `Httpageboy.sendResponse`, `Httpageboy.Reply` — what goes out.
* `Httpageboy.Server.turn` — one iteration of `handle_stream`.
* `Httpageboy.Server.run` — at most `n` iterations.

## Main results

* `Httpageboy.Reply.bytes_eq` — the bytes of a reply are a head with its entries and a body.
* `Httpageboy.Server.turn_cases` — everything an iteration can do.
* `Httpageboy.Server.run_turn` — the turns of a run are iterations.
-/

namespace Httpageboy

/-! ## `send_response` -/

/-- An operation on the stream. -/
inductive StreamOp where
  | writeAll (bytes : Bytes)
  | flush
  | shutdown
  deriving DecidableEq

/-- The bytes that a sequence of operations writes. -/
def written (ops : List StreamOp) : Bytes :=
  ops.flatMap fun op =>
    match op with
    | .writeAll bytes => bytes
    | .flush => []
    | .shutdown => []

/-- `send_response`: the operations on the stream, and the value returned. -/
def sendResponse (response : Response) (method : Option RequestType) (close : Bool)
    (cors : Option CorsPolicy) (origin : Option Str) : List StreamOp × Bool :=
  match responseHead response method close cors origin with
  | none => ([.writeAll (Utf8.encode internalServerErrorHead), .flush, .shutdown], false)
  | some header =>
    ([.writeAll (Utf8.encode header)] ++
      (if responseHasContent method response then [.writeAll response.body] else []) ++
      [.flush] ++ (if close then [.shutdown] else []), true)

/-- The arguments of a call of `send_response`. -/
structure Reply where
  response : Response
  method : Option RequestType
  close : Bool
  cors : Option CorsPolicy
  origin : Option Str

namespace Reply

/-- The call. -/
def send (reply : Reply) : List StreamOp × Bool :=
  sendResponse reply.response reply.method reply.close reply.cors reply.origin

/-- Whether the response goes out, and not the fallback. -/
def valid (reply : Reply) : Bool := headValid reply.response reply.cors reply.origin

/-- The bytes that go out. -/
def bytes (reply : Reply) : Bytes := written reply.send.1

/-- The status that goes out. -/
def status (reply : Reply) : StatusCode :=
  if reply.valid then reply.response.status else .internalServerError

/-- The header entries that go out. -/
def entries (reply : Reply) : List (Str × Str) :=
  if reply.valid then
    headEntries reply.response reply.method reply.close reply.cors reply.origin
  else [("Content-Length".toList, "0".toList), ("Connection".toList, "close".toList)]

/-- The body that goes out. -/
def body (reply : Reply) : Bytes :=
  if reply.valid && responseHasContent reply.method reply.response then reply.response.body else []

/-- The entries announce that the connection is closed. -/
def announcesClose (reply : Reply) : Bool := headersClose reply.entries

/-- The response goes out exactly when its head is valid. -/
lemma send_snd (reply : Reply) : reply.send.2 = reply.valid := by
  unfold send sendResponse valid
  rw [responseHead_eq]
  cases headValid reply.response reply.cors reply.origin <;> rfl

/-- The fallback is a head with two entries. -/
lemma internalServerErrorHead_eq :
    internalServerErrorHead = renderHead .internalServerError
      [("Content-Length".toList, "0".toList), ("Connection".toList, "close".toList)] := by
  unfold internalServerErrorHead renderHead statusLine StatusCode.display StatusCode.text
  rewrite [String.toList_ofList, String.toList_ofList, String.toList_ofList, String.toList_ofList,
    String.toList_ofList, String.toList_ofList, String.toList_ofList]
  decide

/-- **The bytes of a reply are a head and a body.** -/
theorem bytes_eq (reply : Reply) :
    reply.bytes = Utf8.encode (renderHead reply.status reply.entries) ++ reply.body := by
  unfold bytes send sendResponse status entries body valid
  rw [responseHead_eq, internalServerErrorHead_eq]
  cases headValid reply.response reply.cors reply.origin with
  | false => simp [written]
  | true =>
    cases responseHasContent reply.method reply.response <;> cases reply.close <;> simp [written]

end Reply

/-! ## `handle_stream` -/

/-- What a connection shares with its server. -/
structure Server (H U : Type) where
  routes : Routes H U
  filesSources : List Str
  cors : Option CorsPolicy
  limits : RequestLimits

/-- The local state of `handle_stream`: the stream with its buffer, and `handled`. -/
structure Conn where
  reader : Reader
  handled : ℕ

/-- A connection that was just accepted. -/
def Conn.start (now : ℕ) (reads : List Read) : Conn := ⟨⟨[], now, reads⟩, 0⟩

/-- A framed request and its response, with the handlers invoked for it. -/
structure Exchange (H U : Type) where
  raw : Bytes
  request : Request
  response : Response
  invoked : List (Invocation H U)

/-- What an iteration comes to. -/
inductive Turn (H U : Type) where
  /-- The client is silent or gone: `StreamRead::Idle` and `StreamRead::Closed`. -/
  | ended
  /-- The framer or the reader failed: `StreamRead::Error`. -/
  | rejected (reply : Reply)
  /-- A request was answered. -/
  | answered (exchange : Exchange H U) (reply : Reply)
  /-- A request was answered with `101` and its stream handed to an upgrade handler: the stream
  is what is still unread on it. -/
  | upgraded (exchange : Exchange H U) (reply : Reply) (upgrade : U) (stream : List Read)

namespace Turn

variable {H U : Type}

/-- The response of an iteration. -/
def reply? : Turn H U → Option Reply
  | ended => none
  | rejected reply => some reply
  | answered _ reply => some reply
  | upgraded _ reply _ _ => some reply

/-- The framed request of an iteration. -/
def raw? : Turn H U → Option Bytes
  | answered exchange _ => some exchange.raw
  | upgraded exchange _ _ _ => some exchange.raw
  | _ => none

/-- The exchange of an iteration that answers, with its reply. -/
def answer? : Turn H U → Option (Exchange H U × Reply)
  | answered exchange reply => some (exchange, reply)
  | _ => none

/-- The exchange of an iteration that hands the connection over, with the stream. -/
def handover? : Turn H U → Option (Exchange H U × List Read)
  | upgraded exchange _ _ stream => some (exchange, stream)
  | _ => none

/-- Whether the loop goes on: the response was written and the connection stays open. -/
def continues : Turn H U → Bool
  | answered _ reply => reply.send.2 && !reply.close
  | _ => false

end Turn

namespace Server

variable {H U : Type} (server : Server H U)

/-- The response to a request that was framed and routed: the early one, else that of
`handle_request` with its default. -/
def respond (env : Env H) (raw : Bytes) (routed : Routed H U) : Exchange H U :=
  match routed.response with
  | some response =>
    { raw := raw
      request := routed.request
      response := response
      invoked := routed.invoked }
  | none =>
    let again := routed.request.route env server.routes server.filesSources
    { raw := raw
      request := again.request
      response := responseOrDefault again.response routed.request.method server.cors
      invoked := routed.invoked ++ again.invoked }

/-- The reply to a request, with the origin and the method of the request as it was routed. -/
def reply (routed : Routed H U) (response : Response) (close : Bool) : Reply where
  response := response
  method := some routed.request.method
  close := close
  cors := server.cors
  origin := routed.request.origin

/-- Whether the connection is closed behind a response. -/
def closes (handled : ℕ) (routed : Routed H U) (response : Response) : Bool :=
  routed.request.wantsClose || headersClose response.headers ||
    decide (server.limits.maxRequests ≤ handled)

/-- The rest of an iteration behind a framed request. -/
def answer (env : Env H) (handled : ℕ) (raw : Bytes) (routed : Routed H U) (stream : List Read) :
    Turn H U :=
  let exchange := server.respond env raw routed
  let upgrade := if exchange.response.status = .switchingProtocols then
      routed.request.upgradeHandler server.routes
    else none
  match upgrade with
  | some upgrade =>
    let reply := server.reply routed exchange.response false
    if reply.send.2 then .upgraded exchange reply upgrade stream
    else .answered exchange reply
  | none =>
    .answered exchange (server.reply routed exchange.response
      (server.closes handled routed exchange.response))

/-- One iteration of `handle_stream`, `none` while `parse_stream` is blocked. The environment may
change from request to request. -/
def turn (env : ℕ → Env H) (conn : Conn) : Option (Turn H U × Conn) :=
  match parseStream (env conn.handled) server.routes server.filesSources server.limits
      (0 < conn.handled) conn.reader with
  | none => none
  | some (.idle, reader) => some (.ended, ⟨reader, conn.handled⟩)
  | some (.closed, reader) => some (.ended, ⟨reader, conn.handled⟩)
  | some (.error response, reader) =>
    some (.rejected
      { response := response
        method := none
        close := true
        cors := server.cors
        origin := none }, ⟨reader, conn.handled⟩)
  | some (.ready (raw, routed), reader) =>
    let handled := conn.handled + 1
    some (server.answer (env conn.handled) handled raw routed reader.reads, ⟨reader, handled⟩)

/-- At most `n` iterations of `handle_stream`. -/
def run (env : ℕ → Env H) (n : ℕ) (conn : Conn) : Loop.Trace Conn (Turn H U) :=
  Loop.run (server.turn env) Turn.continues n conn

/-- Everything an iteration can do. -/
lemma turn_cases {server : Server H U} {env : ℕ → Env H} {conn conn' : Conn} {turn : Turn H U}
    (h : server.turn env conn = some (turn, conn')) :
    (turn = .ended ∧ conn'.handled = conn.handled) ∨
    (∃ response, turn = .rejected ⟨response, none, true, server.cors, none⟩ ∧
      conn'.handled = conn.handled) ∨
    ∃ raw, readRequest server.limits (0 < conn.handled) conn.reader =
        some (.ready raw, conn'.reader) ∧
      conn'.handled = conn.handled + 1 ∧
      turn = server.answer (env conn.handled) conn'.handled raw
        (parseRaw (env conn.handled) raw server.routes server.filesSources) conn'.reader.reads := by
  unfold Server.turn parseStream at h
  rcases hread : readRequest server.limits (0 < conn.handled) conn.reader with
    _ | ⟨raw | _ | _ | response, reader⟩
  · simp [hread] at h
  · simp only [hread, Option.map_some, StreamRead.map, Option.some.injEq, Prod.mk.injEq] at h
    obtain ⟨rfl, rfl⟩ := h
    exact .inr (.inr ⟨raw, rfl, rfl, rfl⟩)
  · simp only [hread, Option.map_some, StreamRead.map, Option.some.injEq, Prod.mk.injEq] at h
    obtain ⟨rfl, rfl⟩ := h
    exact .inl ⟨rfl, rfl⟩
  · simp only [hread, Option.map_some, StreamRead.map, Option.some.injEq, Prod.mk.injEq] at h
    obtain ⟨rfl, rfl⟩ := h
    exact .inl ⟨rfl, rfl⟩
  · simp only [hread, Option.map_some, StreamRead.map, Option.some.injEq, Prod.mk.injEq] at h
    obtain ⟨rfl, rfl⟩ := h
    exact .inr (.inl ⟨response, rfl, rfl⟩)

/-- The reader behind an iteration is that behind its call of the reader. -/
lemma exists_readRequest {server : Server H U} {env : ℕ → Env H} {conn conn' : Conn}
    {turn : Turn H U}
    (h : server.turn env conn = some (turn, conn')) :
    ∃ outcome, readRequest server.limits (0 < conn.handled) conn.reader =
      some (outcome, conn'.reader) := by
  unfold Server.turn parseStream at h
  rcases hread : readRequest server.limits (0 < conn.handled) conn.reader with
    _ | ⟨raw | _ | _ | response, reader⟩
  · simp [hread] at h
  all_goals
    simp only [hread, Option.map_some, StreamRead.map, Option.some.injEq, Prod.mk.injEq] at h
    obtain ⟨-, rfl⟩ := h
    exact ⟨_, rfl⟩

/-- What becomes of a framed request: it is handed over, or answered; an answer that closes the
connection, or could not be written, is the last one. -/
lemma answer_cases (server : Server H U) (env : Env H) (handled : ℕ) (raw : Bytes)
    (routed : Routed H U) (stream : List Read) :
    (∃ upgrade, server.answer env handled raw routed stream =
        .upgraded (server.respond env raw routed)
          (server.reply routed (server.respond env raw routed).response false) upgrade stream ∧
      (server.reply routed (server.respond env raw routed).response false).valid = true) ∨
    ∃ close, server.answer env handled raw routed stream =
        .answered (server.respond env raw routed)
          (server.reply routed (server.respond env raw routed).response close) ∧
      (close = server.closes handled routed (server.respond env raw routed).response ∨
        (close = false ∧
          (server.reply routed (server.respond env raw routed).response close).valid = false)) := by
  unfold answer
  generalize server.respond env raw routed = exchange
  rcases hupgrade : (if exchange.response.status = .switchingProtocols then
      routed.request.upgradeHandler server.routes else none) with _ | upgrade
  · simp only [hupgrade]
    exact .inr ⟨_, rfl, .inl rfl⟩
  · simp only [hupgrade, Reply.send_snd]
    cases hvalid : (server.reply routed exchange.response false).valid with
    | true => exact .inl ⟨upgrade, by simp, rfl⟩
    | false => exact .inr ⟨false, by simp, .inr ⟨rfl, hvalid⟩⟩

/-- What is answered is what has been framed. -/
lemma raw_respond (server : Server H U) (env : Env H) (raw : Bytes) (routed : Routed H U) :
    (server.respond env raw routed).raw = raw := by
  unfold respond
  cases routed.response <;> rfl

/-- What becomes of a framed request is recorded with it. -/
lemma raw?_answer (server : Server H U) (env : Env H) (handled : ℕ) (raw : Bytes)
    (routed : Routed H U) (stream : List Read) :
    (server.answer env handled raw routed stream).raw? = some raw := by
  have hraw := server.raw_respond env raw routed
  rcases answer_cases server env handled raw routed stream with
    ⟨upgrade, hcase, -⟩ | ⟨close, hcase, -⟩
  · rw [hcase]
    exact congrArg some hraw
  · rw [hcase]
    exact congrArg some hraw

/-- Each turn of a run is an iteration from a connection that has handled one request in every
turn before. -/
lemma run_turn {server : Server H U} {env : ℕ → Env H} {n now : ℕ} {reads : List Read}
    {before after : List (Turn H U × Conn)} {turn : Turn H U} {conn : Conn}
    (hturns : (server.run env n (.start now reads)).turns = before ++ (turn, conn) :: after) :
    ∃ conn₀ : Conn, conn₀.handled = before.length ∧ server.turn env conn₀ = some (turn, conn) := by
  have hbody : ∀ (past : List (Turn H U × Conn)) (conn : Conn) turn conn',
      conn.handled = past.length → server.turn env conn = some (turn, conn') →
      turn.continues = true → conn'.handled = (past ++ [(turn, conn')]).length := by
    intro past conn turn conn' hhandled h hcont
    rw [List.length_append, List.length_singleton, ← hhandled]
    rcases turn_cases h with ⟨rfl, -⟩ | ⟨response, rfl, -⟩ | ⟨raw, -, hnext, -⟩
    · cases hcont
    · cases hcont
    · exact hnext
  have hstart : (Conn.start now reads).handled = ([] : List (Turn H U × Conn)).length := rfl
  exact Loop.run_history hbody hstart hturns

end Server

/-! ## A small application -/

/-- An application whose handler always answers the same, and that has no files. -/
def constantEnv (response : Response) : Env Unit where
  handle := fun _ _ => response
  fs := { isDir := fun _ => false, canonicalize := fun _ => none, read := fun _ => none }

/-- A server with the route `GET /`. -/
def rootServer (upgrade : Option Unit) : Server Unit Unit where
  routes := (∅ : Routes Unit Unit).insert (.get, "/".toList) ⟨(), upgrade⟩
  filesSources := []
  cors := none
  limits := RequestLimits.default

end Httpageboy
