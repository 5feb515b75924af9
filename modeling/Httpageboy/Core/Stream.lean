import Httpageboy.Core.Request

set_option relaxedAutoImplicit false
set_option autoImplicit false

/-!
# Reading requests from a connection

`parse_stream_sync` of `request.rs`, and the functions its macro `create_async_parse_stream`
generates, which have the same control flow. What the socket does is a schedule: the list of
the results of the reads to come, with the time each one takes. The clock only advances in
reads, and a read returns no later than its timeout. A finite schedule describes a prefix of a
run: when it is used up, the reader is still blocked in its next read.

## Main definitions

* `Httpageboy.Read` — one read of the socket.
* `Httpageboy.Reader` — what persists between calls: the buffer, the clock, the schedule.
* `Httpageboy.readLoop`, `Httpageboy.parseStream` — one call of the reader.
-/

namespace Httpageboy

open Search

/-- An `std::io::Error` of a read: `TimedOut` and `WouldBlock`, or any other kind. -/
inductive ReadError where
  | timedOut
  | other
  deriving DecidableEq, Repr

/-- One read: its result, and the time it takes when it does not time out. No bytes mean end of
stream. -/
structure Read where
  elapsed : ℕ
  result : Except ReadError Bytes

/-- The bytes a read delivers. -/
def Read.bytes (read : Read) : Bytes :=
  match read.result with
  | .ok chunk => chunk
  | .error _ => []

/-- The bytes the remaining reads deliver: what is still unread on the socket. -/
def unread (reads : List Read) : Bytes := reads.flatMap Read.bytes

/-- Without reads there is nothing to come. -/
@[simp] lemma unread_nil : unread [] = [] := rfl

/-- The bytes of the next read come first. -/
@[simp] lemma unread_cons (read : Read) (reads : List Read) :
    unread (read :: reads) = read.bytes ++ unread reads := rfl

/-- The bytes of some reads come in front of those of the reads behind them. -/
@[simp] lemma unread_append (reads reads' : List Read) :
    unread (reads ++ reads') = unread reads ++ unread reads' := by
  simp [unread]

/-- The receive buffer of a connection, its clock and the reads to come. -/
structure Reader where
  buffer : Bytes
  now : ℕ
  reads : List Read

/-- `StreamRead`. What `Ready` carries is a parameter: the raw request for the loop below, the
routed request for `parseStream`. -/
inductive StreamRead (α : Type) where
  | ready (request : α)
  | idle
  | closed
  | error (response : Response)

/-- `StreamRead::Ready` with the request passed through a function. -/
def StreamRead.map {α β : Type} (f : α → β) : StreamRead α → StreamRead β
  | .ready request => .ready (f request)
  | .idle => .idle
  | .closed => .closed
  | .error response => .error response

/-- The timeout of the next read: the time left for a request that has started, else the time
to wait for one. The outcome without a read, when no time is left. -/
def nextWait (limits : RequestLimits) (keepAlive : Bool) (started : Option ℕ) (now : ℕ) :
    Except (StreamRead Bytes) ℕ :=
  match started with
  | some startedAt =>
    if limits.requestTimeout < now - startedAt then
      .error (.error (errorResponse .requestTimeout))
    else
      let wait := min limits.idleTimeout (limits.requestTimeout - (now - startedAt))
      if wait = 0 then .error (.error (errorResponse .requestTimeout)) else .ok wait
  | none =>
    let wait := if keepAlive then limits.keepAliveTimeout else limits.idleTimeout
    if wait = 0 then .error .idle else .ok wait

/-- The request that ends with the stream or with the client's silence; `unfinished` is the
status when there is none. -/
def finishRead (limits : RequestLimits) (unfinished : StatusCode) (reader : Reader) :
    StreamRead Bytes × Reader :=
  match takeFramedRequest reader.buffer limits true with
  | (.ok (some raw), buffer) => (.ready raw, { reader with buffer := buffer })
  | (.ok none, buffer) => (.error (errorResponse unfinished), { reader with buffer := buffer })
  | (.error status, buffer) => (.error (errorResponse status), { reader with buffer := buffer })

/-- The loop of `parse_stream`, over the reads to come; `none` when the schedule ends before the
call returns. -/
def readLoop (limits : RequestLimits) (keepAlive : Bool) :
    List Read → Option ℕ → ℕ → Bytes → Option (StreamRead Bytes × Reader)
  | reads, started, now, buffer =>
    match takeFramedRequest buffer limits false with
    | (.ok (some raw), buffer) => some (.ready raw, ⟨buffer, now, reads⟩)
    | (.error status, buffer) => some (.error (errorResponse status), ⟨buffer, now, reads⟩)
    | (.ok none, buffer) =>
      match nextWait limits keepAlive started now with
      | .error outcome => some (outcome, ⟨buffer, now, reads⟩)
      | .ok wait =>
        match reads with
        | [] => none
        | read :: reads =>
          match read.result with
          | .ok [] =>
            let now := now + min read.elapsed wait
            if buffer = [] then some (.closed, ⟨buffer, now, reads⟩)
            else some (finishRead limits .badRequest ⟨buffer, now, reads⟩)
          | .ok chunk =>
            let now := now + min read.elapsed wait
            readLoop limits keepAlive reads (started.or (some now)) now (buffer ++ chunk)
          | .error .timedOut =>
            let now := now + wait
            if started = none then some (.idle, ⟨buffer, now, reads⟩)
            else some (finishRead limits .requestTimeout ⟨buffer, now, reads⟩)
          | .error .other =>
            let now := now + min read.elapsed wait
            some (.error (errorResponse .badRequest), ⟨buffer, now, reads⟩)

/-- One call of the reader: `started` is the time of the call when bytes are left over from the
last one. -/
def readRequest (limits : RequestLimits) (keepAlive : Bool) (reader : Reader) :
    Option (StreamRead Bytes × Reader) :=
  let started := if reader.buffer = [] then none else some reader.now
  readLoop limits keepAlive reader.reads started reader.now reader.buffer

/-- `parse_stream_sync` and the functions generated by `create_async_parse_stream`: read one
request and route it. The raw request is kept beside the routed one. -/
def parseStream {H U : Type} (env : Env H) (routes : Routes H U) (fileBases : List Str)
    (limits : RequestLimits) (keepAlive : Bool) (reader : Reader) :
    Option (StreamRead (Bytes × Routed H U) × Reader) :=
  (readRequest limits keepAlive reader).map fun p =>
    (p.1.map fun raw => (raw, parseRaw env raw routes fileBases), p.2)

end Httpageboy
