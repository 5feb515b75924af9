import Httpageboy.Framing.Limits
import Httpageboy.Framing.RoundTrip
import Httpageboy.Framing.Segmentation
import Httpageboy.Runtime.CloseDiscipline

set_option relaxedAutoImplicit false
set_option autoImplicit false

/-!
# What the limits do to a connection

`set_body_limit` and `set_header_limit` of a server. The limits for sizes are only read by the
framer, which is called again and again while the bytes of a request arrive. Whatever the client
sends, tighter limits cut the run of a connection short, with one response `413` or `431`, or they
make no difference at all.

## Main results

* `Httpageboy.readLoop_limited` — a call of the reader under tighter limits.
* `Httpageboy.run_limited` — a run of the connection loop under tighter limits.
-/

namespace Httpageboy

variable {H U : Type} {limits limits' : RequestLimits}

/-! ## The reader -/

/-- The timeouts do not depend on the sizes. -/
lemma nextWait_tighter (h : limits.Tighter limits') (keepAlive : Bool) (started : Option ℕ)
    (now : ℕ) : nextWait limits keepAlive started now = nextWait limits' keepAlive started now := by
  unfold nextWait
  rw [h.requestTimeout, h.idleTimeout, h.keepAliveTimeout]

/-- The request that ends with the stream, under tighter limits. -/
lemma finishRead_limited (h : limits.Tighter limits') (unfinished : StatusCode) (reader : Reader) :
    finishRead limits unfinished reader = finishRead limits' unfinished reader ∨
      ∃ status, OverLimit status ∧
        finishRead limits unfinished reader = (.error (errorResponse status), reader) := by
  unfold finishRead
  rcases takeFramedRequest_limited h reader.buffer true with hsame | ⟨status, hover, herror⟩
  · exact .inl (by rw [hsame])
  · exact .inr ⟨status, hover, by rw [herror]⟩

/-- **A call of the reader under tighter limits** does the same, or ends with a rejection.

**Proof sketch.** Induction on the reads to come. The framer does the same in front of each of
them, or rejects. -/
theorem readLoop_limited (h : limits.Tighter limits') (keepAlive : Bool) (reads : List Read)
    (started : Option ℕ) (now : ℕ) (buffer : Bytes) :
    readLoop limits keepAlive reads started now buffer =
        readLoop limits' keepAlive reads started now buffer ∨
      ∃ status reader, OverLimit status ∧
        readLoop limits keepAlive reads started now buffer =
          some (.error (errorResponse status), reader) := by
  induction reads generalizing started now buffer with
  | nil =>
    unfold readLoop
    rcases takeFramedRequest_limited h buffer false with hsame | ⟨status, hover, herror⟩
    · exact .inl (by rw [hsame, nextWait_tighter h])
    · exact .inr ⟨status, _, hover, by rw [herror]⟩
  | cons read reads ih =>
    unfold readLoop
    rcases takeFramedRequest_limited h buffer false with hsame | ⟨status, hover, herror⟩
    · rw [hsame, nextWait_tighter h]
      rcases takeFramedRequest buffer limits' false with ⟨status | _ | raw, rest⟩
      · exact .inl rfl
      · cases nextWait limits' keepAlive started now with
        | error outcome => exact .inl rfl
        | ok wait =>
          simp only
          rcases read.result with (_ | _) | (_ | ⟨byte, chunk⟩)
          · simp only
            by_cases hstarted : started = none
            · exact .inl (by rw [if_pos hstarted, if_pos hstarted])
            · rw [if_neg hstarted, if_neg hstarted]
              rcases finishRead_limited h .requestTimeout ⟨rest, now + wait, reads⟩ with
                hfinish | ⟨status, hover, hfinish⟩
              · exact .inl (by rw [hfinish])
              · exact .inr ⟨status, _, hover, by rw [hfinish]⟩
          · exact .inl rfl
          · simp only
            by_cases hempty : rest = []
            · exact .inl (by rw [if_pos hempty, if_pos hempty])
            · rw [if_neg hempty, if_neg hempty]
              rcases finishRead_limited h .badRequest
                ⟨rest, now + min read.elapsed wait, reads⟩ with
                hfinish | ⟨status, hover, hfinish⟩
              · exact .inl (by rw [hfinish])
              · exact .inr ⟨status, _, hover, by rw [hfinish]⟩
          · exact ih _ _ _
      · exact .inl rfl
    · exact .inr ⟨status, _, hover, by rw [herror]⟩

/-! ## The connection -/

namespace Server

/-- A server with other limits. -/
def withLimits (server : Server H U) (limits : RequestLimits) : Server H U :=
  { server with limits := limits }

/-- The response that rejects a request, as the connection loop sends it. -/
def rejection (server : Server H U) (status : StatusCode) : Turn H U :=
  .rejected
    { response := errorResponse status
      method := none
      close := true
      cors := server.cors
      origin := none }

/-- What becomes of a framed request does not depend on the sizes. -/
lemma answer_withLimits {server : Server H U} (h : server.limits.Tighter limits') (env : Env H)
    (handled : ℕ) (raw : Bytes) (routed : Routed H U) (stream : List Read) :
    server.answer env handled raw routed stream =
      (server.withLimits limits').answer env handled raw routed stream := by
  have hcloses : ∀ response : Response, server.closes handled routed response =
      (server.withLimits limits').closes handled routed response := by
    intro response
    unfold closes withLimits
    rw [h.maxRequests]
  have hrespond : server.respond env raw routed =
      (server.withLimits limits').respond env raw routed := rfl
  have hreply : server.reply routed = (server.withLimits limits').reply routed := rfl
  unfold answer
  simp only [hcloses, hrespond, hreply]
  rfl

/-- An iteration under tighter limits. -/
lemma turn_limited {server : Server H U} (h : server.limits.Tighter limits') (env : ℕ → Env H)
    (conn : Conn) :
    server.turn env conn = (server.withLimits limits').turn env conn ∨
      ∃ status conn', OverLimit status ∧
        server.turn env conn = some (server.rejection status, conn') := by
  rcases readLoop_limited h (0 < conn.handled) conn.reader.reads
    (if conn.reader.buffer = [] then none else some conn.reader.now) conn.reader.now
    conn.reader.buffer with hsame | ⟨status, reader, hover, herror⟩
  · have hread : readRequest server.limits (0 < conn.handled) conn.reader =
        readRequest limits' (0 < conn.handled) conn.reader := hsame
    refine .inl ?_
    unfold turn parseStream
    rw [hread]
    simp only [answer_withLimits h]
    rfl
  · have hread : readRequest server.limits (0 < conn.handled) conn.reader =
        some (.error (errorResponse status), reader) := herror
    refine .inr ⟨status, ⟨reader, conn.handled⟩, hover, ?_⟩
    unfold turn parseStream
    rw [hread]
    rfl

end Server

/-- **Tighter limits only cut a connection short.** For every client and every handler, a run under
tighter limits is the run under the looser ones, or it is a front of that run and a response `413`
or `431`, behind which the connection is closed. So nothing that is answered under both is answered
differently, and no request is accepted only because the limits are tighter.

**Proof sketch.** Induction on the turns: each of them is the same, or rejects. -/
theorem run_limited {server : Server H U} (h : server.limits.Tighter limits') (env : ℕ → Env H)
    (n : ℕ) (conn : Conn) :
    server.run env n conn = (server.withLimits limits').run env n conn ∨
      ∃ before status conn', OverLimit status ∧
        before <+: ((server.withLimits limits').run env n conn).turns ∧
        server.run env n conn = ⟨before ++ [(server.rejection status, conn')], none⟩ := by
  induction n generalizing conn with
  | zero => exact .inl rfl
  | succ n ih =>
    show Loop.run (server.turn env) Turn.continues (n + 1) conn =
        Loop.run ((server.withLimits limits').turn env) Turn.continues (n + 1) conn ∨
      ∃ before status conn', OverLimit status ∧
        before <+:
          (Loop.run ((server.withLimits limits').turn env) Turn.continues (n + 1) conn).turns ∧
        Loop.run (server.turn env) Turn.continues (n + 1) conn =
          ⟨before ++ [(server.rejection status, conn')], none⟩
    unfold Loop.run
    rcases Server.turn_limited h env conn with hsame | ⟨status, conn', hover, herror⟩
    · rw [hsame]
      rcases (server.withLimits limits').turn env conn with _ | ⟨turn, conn'⟩
      · exact .inl rfl
      simp only
      cases turn.continues with
      | false => exact .inl rfl
      | true =>
        simp only [if_true]
        rcases ih conn' with hrest | ⟨before, status, conn'', hover, hfront, hrest⟩
        · exact .inl (congrArg (Loop.Trace.cons (turn, conn')) hrest)
        · refine .inr ⟨(turn, conn') :: before, status, conn'', hover,
            List.cons_prefix_cons.2 ⟨rfl, hfront⟩, ?_⟩
          exact congrArg (Loop.Trace.cons (turn, conn')) hrest
    · refine .inr ⟨[], status, conn', hover, List.nil_prefix, ?_⟩
      rw [herror]
      rfl

/-- A server that allows no more than 20 bytes of head. -/
def tightServer : Server Unit Unit :=
  (rootServer none).withLimits { RequestLimits.default with headerBytes := 20 }

/-- The reads of a client whose second request has a longer head. -/
def longerReads : List Read := [⟨0, .ok shortRequest⟩, ⟨0, .ok plainRequest.wire⟩]

/-- The second request is rejected by the tighter server. -/
theorem run_limited_twenty :
    ∃ before status conn', OverLimit status ∧
      before <+: ((tightServer.withLimits RequestLimits.default).run
        (fun _ => constantEnv Response.new) 20 (.start 0 longerReads)).turns ∧
      tightServer.run (fun _ => constantEnv Response.new) 20 (.start 0 longerReads) =
        ⟨before ++ [(tightServer.rejection status, conn')], none⟩ := by
  have htighter : tightServer.limits.Tighter RequestLimits.default :=
    ⟨by decide, by decide, rfl, rfl, rfl, rfl⟩
  refine (run_limited htighter _ 20 (.start 0 longerReads)).resolve_left fun heq => ?_
  have hraws := congrArg (fun trace => trace.turns.map fun turn => turn.1.raw?) heq
  revert hraws
  decide +kernel

end Httpageboy
