import Httpageboy.Lib.System
import Httpageboy.Runtime.Lifetime

set_option relaxedAutoImplicit false
set_option autoImplicit false

/-!
# The socket of a synchronous connection

What `handle_stream` of the synchronous server does to its `TcpStream`, operation by operation: the
calls of `set_read_timeout` and of `read` in `parse_stream_sync`, and those of `send_response`. The
errors of these operations are ignored in the source, so that only their order can make them
sensible: a read without a timeout could block for ever, a timeout of zero is refused, and a
timeout that stays behind would hit the handler that a connection is handed over to.

## Main definitions

* `Httpageboy.SocketOp`, `Httpageboy.Sync.socketOps` — the operations of a run.
* `Httpageboy.Socket`, `Httpageboy.Socket.step` — the protocol of a stream.

## Main results

* `Httpageboy.Sync.exec_readOps` — a call of the reader keeps to the protocol.
* `Httpageboy.Sync.socket_discipline` — every run of the connection loop keeps to the protocol.
-/

namespace Httpageboy

/-! ## The protocol -/

/-- An operation on a `TcpStream`. -/
inductive SocketOp where
  | setReadTimeout (timeout : Option ℕ)
  | read
  | write (op : StreamOp)
  deriving DecidableEq

/-- The state of a `TcpStream`: its read timeout, whether something was written and not flushed,
and whether it has not been shut down. -/
structure Socket where
  timeout : Option ℕ
  pending : Bool
  isOpen : Bool
  deriving DecidableEq, Repr

namespace Socket

/-- A stream that was just accepted. -/
def new : Socket := ⟨none, false, true⟩

/-- One operation, `none` when it is out of place: nothing is done to a stream that was shut down;
a timeout is not zero; a read has a timeout, and what was written before it has been flushed; a
response is written without a timeout; and a stream is shut down when nothing is pending. -/
def step (socket : Socket) (op : SocketOp) : Option Socket :=
  match socket.isOpen, op with
  | false, _ => none
  | true, .setReadTimeout timeout =>
    if timeout = some 0 then none else some { socket with timeout := timeout }
  | true, .read => if socket.timeout.isSome && !socket.pending then some socket else none
  | true, .write (.writeAll _) =>
    if socket.timeout.isNone then some { socket with pending := true } else none
  | true, .write .flush => some { socket with pending := false }
  | true, .write .shutdown => if socket.pending then none else some { socket with isOpen := false }

end Socket

/-- The operations that `send_response` makes. -/
def SocketOp.stream? : SocketOp → Option StreamOp
  | .write op => some op
  | _ => none

/-- The operations of the response of an iteration. -/
def Turn.streamOps {H U : Type} (turn : Turn H U) : List StreamOp :=
  match turn.reply? with
  | none => []
  | some reply => reply.send.1

/-- Whether the stream is shut down behind the response of an iteration. -/
def Turn.shuts {H U : Type} (turn : Turn H U) : Bool :=
  match turn.reply? with
  | none => false
  | some reply => reply.close || !reply.send.2

namespace Sync

variable {H U : Type}

/-! ## The operations of a run -/

/-- The calls of `set_read_timeout` and of `read` in `parse_stream_sync`. The timeout is taken back
wherever the function returns; a call that is blocked has issued its last read. -/
def readOps (limits : RequestLimits) (keepAlive : Bool) :
    List Read → Option ℕ → ℕ → Bytes → List SocketOp
  | reads, started, now, buffer =>
    match takeFramedRequest buffer limits false with
    | (.ok (some _), _) => [.setReadTimeout none]
    | (.error _, _) => [.setReadTimeout none]
    | (.ok none, buffer) =>
      match nextWait limits keepAlive started now with
      | .error _ => [.setReadTimeout none]
      | .ok wait =>
        .setReadTimeout (some wait) :: .read ::
          match reads with
          | [] => []
          | read :: reads =>
            match read.result with
            | .ok [] => [.setReadTimeout none]
            | .ok chunk =>
              let now := now + min read.elapsed wait
              readOps limits keepAlive reads (started.or (some now)) now (buffer ++ chunk)
            | .error _ => [.setReadTimeout none]

/-- The operations of one call of the reader. -/
def readerOps (limits : RequestLimits) (keepAlive : Bool) (reader : Reader) : List SocketOp :=
  let started := if reader.buffer = [] then none else some reader.now
  readOps limits keepAlive reader.reads started reader.now reader.buffer

/-- The operations of the response of an iteration, as operations on the socket. -/
def replyOps (turn : Turn H U) : List SocketOp := turn.streamOps.map .write

/-- The operations of at most `n` iterations of `handle_stream`. -/
def socketOps (server : Server H U) (env : ℕ → Env H) : ℕ → Conn → List SocketOp
  | 0, _ => []
  | n + 1, conn =>
    readerOps server.limits (0 < conn.handled) conn.reader ++
      match server.turn env conn with
      | none => []
      | some (turn, conn) =>
        replyOps turn ++ if turn.continues then socketOps server env n conn else []

/-! ## The protocol is kept -/

/-- A timeout that `nextWait` computes is not zero. -/
lemma ne_zero_of_nextWait {limits : RequestLimits} {keepAlive : Bool} {started : Option ℕ}
    {now wait : ℕ} (h : nextWait limits keepAlive started now = .ok wait) : wait ≠ 0 := by
  cases started with
  | none => exact (nextWait_none_iff.1 h).2.ne'
  | some startedAt => exact (nextWait_some_iff.1 h).2.ne'

/-- A read is issued with its timeout. -/
lemma exec_issue {timeout : Option ℕ} {wait : ℕ} (hwait : wait ≠ 0) (ops : List SocketOp) :
    System.exec Socket.step ⟨timeout, false, true⟩ (.setReadTimeout (some wait) :: .read :: ops) =
      System.exec Socket.step ⟨some wait, false, true⟩ ops := by
  have hset : Socket.step ⟨timeout, false, true⟩ (.setReadTimeout (some wait)) =
      some ⟨some wait, false, true⟩ := if_neg fun heq => hwait (Option.some.inj heq)
  rw [System.exec_cons, hset, Option.bind_some, System.exec_cons]
  rfl

/-- **A call of the reader keeps to the protocol**, and leaves no timeout behind when it returns.

**Proof sketch.** Induction on the reads to come, along the branches of the loop. -/
theorem exec_readOps (limits : RequestLimits) (keepAlive : Bool) (reads : List Read)
    (started : Option ℕ) (now : ℕ) (buffer : Bytes) (timeout : Option ℕ) :
    ∃ timeout', System.exec Socket.step ⟨timeout, false, true⟩
        (readOps limits keepAlive reads started now buffer) = some ⟨timeout', false, true⟩ ∧
      ((readLoop limits keepAlive reads started now buffer).isSome → timeout' = none) := by
  have hreset : ∀ timeout, System.exec Socket.step ⟨timeout, false, true⟩ [.setReadTimeout none] =
      some ⟨none, false, true⟩ := fun _ => rfl
  induction reads generalizing started now buffer timeout with
  | nil =>
    unfold readOps readLoop
    rcases takeFramedRequest buffer limits false with ⟨status | _ | raw, rest⟩
    · exact ⟨none, hreset timeout, fun _ => rfl⟩
    · cases hwait : nextWait limits keepAlive started now with
      | error outcome => exact ⟨none, hreset timeout, fun _ => rfl⟩
      | ok wait =>
        refine ⟨some wait, exec_issue (ne_zero_of_nextWait hwait) [], fun h => ?_⟩
        cases h
    · exact ⟨none, hreset timeout, fun _ => rfl⟩
  | cons read reads ih =>
    unfold readOps readLoop
    rcases takeFramedRequest buffer limits false with ⟨status | _ | raw, rest⟩
    · exact ⟨none, hreset timeout, fun _ => rfl⟩
    · cases hwait : nextWait limits keepAlive started now with
      | error outcome => exact ⟨none, hreset timeout, fun _ => rfl⟩
      | ok wait =>
        simp only [exec_issue (ne_zero_of_nextWait hwait)]
        rcases read.result with error | (_ | ⟨byte, chunk⟩)
        · exact ⟨none, hreset (some wait), fun _ => rfl⟩
        · exact ⟨none, hreset (some wait), fun _ => rfl⟩
        · exact ih _ _ _ _
    · exact ⟨none, hreset timeout, fun _ => rfl⟩

/-- A response keeps to the protocol: it is written and flushed, and the stream is shut down when
the connection is to be closed or the fallback went out. -/
lemma exec_replyOps (turn : Turn H U) :
    System.exec Socket.step Socket.new (replyOps turn) = some ⟨none, false, !turn.shuts⟩ := by
  unfold replyOps Turn.streamOps Turn.shuts
  cases turn.reply? with
  | none => rfl
  | some reply =>
    simp only [Reply.send, sendResponse]
    cases responseHead reply.response reply.method reply.close reply.cors reply.origin with
    | none => cases reply.close <;> rfl
    | some header =>
      simp only
      cases responseHasContent reply.method reply.response <;> cases reply.close <;> rfl

/-- The loop goes on behind a turn that leaves the stream open. -/
lemma shuts_of_continues {turn : Turn H U} (h : turn.continues = true) : turn.shuts = false := by
  cases turn with
  | answered exchange reply =>
    obtain ⟨hsent, hclose⟩ := Bool.and_eq_true_iff.1 h
    show (reply.close || !reply.send.2) = false
    rw [hsent]
    simpa using hclose
  | _ => cases h

/-- The socket behind a run of the loop. -/
lemma exec_socketOps (server : Server H U) (env : ℕ → Env H) (n : ℕ) (conn : Conn) :
    ∃ timeout, System.exec Socket.step Socket.new (socketOps server env n conn) =
        some ⟨timeout, false, (server.run env n conn).turns.all fun turn => !turn.1.shuts⟩ ∧
      ((server.run env n conn).next = none → timeout = none) := by
  induction n generalizing conn with
  | zero => exact ⟨none, rfl, fun _ => rfl⟩
  | succ n ih =>
    obtain ⟨timeout, hreader, hreturns⟩ := exec_readOps server.limits (0 < conn.handled)
      conn.reader.reads (if conn.reader.buffer = [] then none else some conn.reader.now)
      conn.reader.now conn.reader.buffer none
    have hops : System.exec Socket.step Socket.new
        (readerOps server.limits (0 < conn.handled) conn.reader) = some ⟨timeout, false, true⟩ :=
      hreader
    show ∃ timeout, System.exec Socket.step Socket.new (socketOps server env (n + 1) conn) =
        some ⟨timeout, false,
          (Loop.run (server.turn env) Turn.continues (n + 1) conn).turns.all _⟩ ∧
      ((Loop.run (server.turn env) Turn.continues (n + 1) conn).next = none → timeout = none)
    unfold socketOps Loop.run
    rw [System.exec_append, hops, Option.bind_some]
    rcases hturn : server.turn env conn with _ | ⟨turn, conn'⟩
    · refine ⟨timeout, rfl, fun h => ?_⟩
      cases h
    obtain ⟨outcome, hread⟩ := Server.exists_readRequest hturn
    obtain rfl := hreturns (by
      unfold readRequest at hread
      rw [hread]
      rfl)
    simp only
    rw [System.exec_append]
    have hreply := exec_replyOps turn
    unfold Socket.new at hreply
    rw [hreply, Option.bind_some]
    cases hcont : turn.continues with
    | false =>
      refine ⟨none, ?_, fun _ => rfl⟩
      simp [System.exec]
    | true =>
      obtain ⟨timeout, hrest, hend⟩ := ih conn'
      refine ⟨timeout, ?_, hend⟩
      simp only [if_true, Loop.Trace.cons, List.all_cons, shuts_of_continues hcont]
      exact hrest

/-! ## Runs -/

/-- A call of the reader writes nothing. -/
lemma stream_readOps (limits : RequestLimits) (keepAlive : Bool) (reads : List Read)
    (started : Option ℕ) (now : ℕ) (buffer : Bytes) :
    (readOps limits keepAlive reads started now buffer).filterMap SocketOp.stream? = [] := by
  induction reads generalizing started now buffer with
  | nil =>
    unfold readOps
    rcases takeFramedRequest buffer limits false with ⟨status | _ | raw, rest⟩
    · rfl
    · cases nextWait limits keepAlive started now <;> rfl
    · rfl
  | cons read reads ih =>
    unfold readOps
    rcases takeFramedRequest buffer limits false with ⟨status | _ | raw, rest⟩
    · rfl
    · cases nextWait limits keepAlive started now with
      | error outcome => rfl
      | ok wait =>
        simp only [List.filterMap_cons, SocketOp.stream?]
        rcases read.result with error | (_ | ⟨byte, chunk⟩)
        · rfl
        · rfl
        · exact ih _ _ _
    · rfl

/-- What a run writes are its responses. -/
lemma stream_socketOps (server : Server H U) (env : ℕ → Env H) (n : ℕ) (conn : Conn) :
    (socketOps server env n conn).filterMap SocketOp.stream? =
      (server.run env n conn).turns.flatMap fun turn => turn.1.streamOps := by
  have hreply : ∀ turn : Turn H U,
      (replyOps turn).filterMap SocketOp.stream? = turn.streamOps := by
    intro turn
    unfold replyOps
    rw [List.filterMap_map]
    exact List.filterMap_some
  induction n generalizing conn with
  | zero => rfl
  | succ n ih =>
    show _ = (Loop.run (server.turn env) Turn.continues (n + 1) conn).turns.flatMap _
    unfold socketOps readerOps Loop.run
    rw [List.filterMap_append, stream_readOps, List.nil_append]
    rcases server.turn env conn with _ | ⟨turn, conn'⟩
    · rfl
    · simp only [List.filterMap_append, hreply]
      cases turn.continues with
      | false => simp
      | true =>
        simp only [if_true, Loop.Trace.cons, List.flatMap_cons, ih conn']
        rfl

/-- A connection that is handed over was answered with a response that leaves it open. -/
lemma shuts_of_handover {server : Server H U} {env : ℕ → Env H} {conn conn' : Conn}
    {turn : Turn H U} (hturn : server.turn env conn = some (turn, conn'))
    (hhandover : turn.handover?.isSome) : turn.shuts = false ∧ turn.continues = false := by
  rcases Server.turn_cases hturn with ⟨rfl, -⟩ | ⟨response, rfl, -⟩ | ⟨raw, -, -, rfl⟩
  · cases hhandover
  · cases hhandover
  · rcases Server.answer_cases server (env conn.handled) conn'.handled raw
      (parseRaw (env conn.handled) raw server.routes server.filesSources) conn'.reader.reads with
      ⟨upgrade, hcase, hvalid⟩ | ⟨close, hcase, -⟩
    · rw [hcase]
      refine ⟨?_, rfl⟩
      show (false || !Prod.snd _) = false
      rw [Reply.send_snd, hvalid]
      rfl
    · rw [hcase] at hhandover
      cases hhandover

/-- **Every run keeps to the protocol of the socket**, whatever the client sends and the handlers
answer:

* the operations of a run are all in their place, and write the responses of its turns;
* behind every turn nothing is pending, and the stream has been shut down exactly when a response
  asked for it;
* when the loop has been left, no read timeout is left on the stream;
* an upgrade handler gets the stream in the state of a new one.

**Proof sketch.** Induction on the turns. A call of the reader takes back its timeout wherever it
returns, and a response in front of which no timeout is set leaves none behind. -/
theorem socket_discipline (server : Server H U) (env : ℕ → Env H) (n now : ℕ)
    (reads : List Read) :
    ∃ socket, System.exec Socket.step Socket.new (socketOps server env n (.start now reads)) =
        some socket ∧
      (socketOps server env n (.start now reads)).filterMap SocketOp.stream? =
        (server.run env n (.start now reads)).turns.flatMap (fun turn => turn.1.streamOps) ∧
      socket.pending = false ∧
      socket.isOpen = ((server.run env n (.start now reads)).turns.all fun turn =>
        !turn.1.shuts) ∧
      ((server.run env n (.start now reads)).next = none → socket.timeout = none) ∧
      ∀ turn ∈ (server.run env n (.start now reads)).turns, turn.1.handover?.isSome →
        socket = Socket.new := by
  obtain ⟨timeout, hexec, hend⟩ := exec_socketOps server env n (.start now reads)
  refine ⟨_, hexec, stream_socketOps server env n _, rfl, rfl, hend, ?_⟩
  rintro ⟨turn, conn⟩ hmem hhandover
  obtain ⟨before, after, hturns⟩ := List.append_of_mem hmem
  obtain ⟨conn₀, -, hturn⟩ := Server.run_turn hturns
  obtain ⟨hshuts, hleft⟩ := shuts_of_handover hturn hhandover
  obtain ⟨rfl, hnext⟩ := (Loop.run_spec hturns).1 hleft
  have hbefore : ∀ turn ∈ before, turn.1.shuts = false := by
    rintro ⟨first, conn₁⟩ hfirst
    obtain ⟨front, back, rfl⟩ := List.append_of_mem hfirst
    refine shuts_of_continues (Bool.of_not_eq_false fun hstop => ?_)
    rw [List.append_assoc, List.cons_append] at hturns
    have hnil := ((Loop.run_spec hturns).1 hstop).1
    exact absurd hnil (by simp)
  have hopen : ((server.run env n (.start now reads)).turns.all fun turn =>
      !turn.1.shuts) = true := by
    rw [hturns, List.all_append, List.all_cons, List.all_nil, hshuts]
    simpa using hbefore
  rw [hopen, hend hnext]
  rfl

end Sync

end Httpageboy
