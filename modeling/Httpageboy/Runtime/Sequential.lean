import Httpageboy.Framing.RoundTrip
import Httpageboy.Framing.Segmentation
import Httpageboy.Runtime.Server

set_option relaxedAutoImplicit false
set_option autoImplicit false

/-!
# A connection as a function of what the client sends

The connection loop meets the bytes of its client in reads of any size. Two levels say what it
makes of them without the reads. On the lower one a connection is a function of the whole string,
from the front of which each iteration takes a request. On the upper one it is a function of the
requests themselves, as the client meant them.

## Main definitions

* `Httpageboy.Server.serve` — a connection as a function of a string.
* `Httpageboy.Server.serveRequests` — a connection as a function of requests.
* `Httpageboy.Punctual` — no deadline expires in a run.

## Main results

* `Httpageboy.Server.run_eq_serve` — the loop refines the function of the string.
* `Httpageboy.Server.serve_wire` — which refines the function of the requests.
* `Httpageboy.run_segmentation` — so a connection does not depend on how its bytes arrive.
* `Httpageboy.run_pipeline` — pipelined requests are answered as they were meant.
* `Httpageboy.run_cutOff` — a request that is cut off is not dispatched.
-/

namespace Httpageboy

open Search

variable {H U : Type}

/-! ## Turns without the stream -/

namespace Turn

/-- An iteration, without the stream it hands over. -/
def settled : Turn H U → Turn H U
  | ended => ended
  | rejected reply => rejected reply
  | answered exchange reply => answered exchange reply
  | upgraded exchange reply upgrade _ => upgraded exchange reply upgrade []

/-- What is settled leaves the connection as open as it was. -/
lemma continues_settled (turn : Turn H U) : turn.settled.continues = turn.continues := by
  cases turn <;> rfl

/-- The handlers invoked in an iteration. -/
def invoked : Turn H U → List (Invocation H U)
  | ended => []
  | rejected _ => []
  | answered exchange _ => exchange.invoked
  | upgraded exchange _ _ _ => exchange.invoked

end Turn

/-- The turns of a run, without the streams they hand over. -/
def settledTurns (trace : Loop.Trace Conn (Turn H U)) : List (Turn H U) :=
  trace.turns.map fun turn => turn.1.settled

/-- The bytes that the client receives in some turns. -/
def received (turns : List (Turn H U)) : Bytes :=
  turns.flatMap fun turn => (turn.reply?.map Reply.bytes).getD []

/-- No deadline of a request expires in a run. -/
def Punctual (trace : Loop.Trace Conn (Turn H U)) : Prop :=
  ∀ turn ∈ trace.turns, ∀ reply, turn.1 = .rejected reply → reply.response ≠ timedOut

namespace Server

variable (server : Server H U)

/-! ## A connection as a function of a string -/

/-- What an iteration makes of the outcome of its call of the reader. -/
def settle (env : ℕ → Env H) (handled : ℕ) : StreamRead Bytes → Turn H U
  | .ready raw =>
    server.answer (env handled) (handled + 1) raw
      (parseRaw (env handled) raw server.routes server.filesSources) []
  | .idle => .ended
  | .closed => .ended
  | .error response =>
    .rejected
      { response := response
        method := none
        close := true
        cors := server.cors
        origin := none }

/-- A connection whose client sends the given string and ends the stream: at most `n` turns, when
`handled` requests came before. Each turn takes the front of the string. -/
def serve (env : ℕ → Env H) : ℕ → ℕ → Bytes → List (Turn H U)
  | 0, _, _ => []
  | n + 1, handled, s =>
    let turn := server.settle env handled (front server.limits s).1
    turn :: if turn.continues then serve env n (handled + 1) (front server.limits s).2 else []

/-- What is decided about a request does not depend on the stream that may be handed over. -/
lemma settled_answer (env : Env H) (handled : ℕ) (raw : Bytes) (routed : Routed H U)
    (stream : List Read) :
    (server.answer env handled raw routed stream).settled =
      server.answer env handled raw routed [] := by
  unfold answer
  generalize server.respond env raw routed = exchange
  rcases hupgrade : (if exchange.response.status = .switchingProtocols then
      routed.request.upgradeHandler server.routes else none) with _ | upgrade
  · simp only [hupgrade]
    rfl
  · simp only [hupgrade]
    cases (server.reply routed exchange.response false).send.2 <;> rfl

/-- An iteration is what it makes of the outcome of its call of the reader. -/
lemma turn_of_readRequest (env : ℕ → Env H) {conn : Conn} {outcome : StreamRead Bytes}
    {reader : Reader}
    (h : readRequest server.limits (0 < conn.handled) conn.reader = some (outcome, reader)) :
    ∃ turn conn', server.turn env conn = some (turn, conn') ∧
      turn.settled = server.settle env conn.handled outcome ∧ conn'.reader = reader ∧
      (turn.continues = true → conn'.handled = conn.handled + 1) := by
  unfold turn parseStream
  rw [h]
  cases outcome with
  | ready raw => exact ⟨_, _, rfl, server.settled_answer _ _ _ _ _, rfl, fun _ => rfl⟩
  | idle => exact ⟨_, _, rfl, rfl, rfl, fun hcont => Bool.noConfusion hcont⟩
  | closed => exact ⟨_, _, rfl, rfl, rfl, fun hcont => Bool.noConfusion hcont⟩
  | error response => exact ⟨_, _, rfl, rfl, rfl, fun hcont => Bool.noConfusion hcont⟩

variable {server}

/-- Only a request lets the loop go on. -/
lemma ready_of_continues {env : ℕ → Env H} {handled : ℕ} {outcome : StreamRead Bytes}
    (h : (server.settle env handled outcome).continues = true) : ∃ raw, outcome = .ready raw := by
  cases outcome with
  | ready raw => exact ⟨raw, rfl⟩
  | _ => cases h

/-- **The loop refines the function of the string**, however the string is cut into reads, as long
as no deadline expires. When it may take more turns than the string has bytes, it is left.

**Proof sketch.** Induction on the turns. The call of the reader comes to the front of what the
buffer and the reads to come hold together, and behind a request the rest of it is shorter. -/
theorem run_eq_serve (hidle : 0 < server.limits.idleTimeout)
    (hkeep : 0 < server.limits.keepAliveTimeout) (env : ℕ → Env H) {n : ℕ} (conn : Conn)
    {pieces : List Bytes} (hcut : Cut pieces n conn.reader.reads)
    (hword : FitsWord server.limits (conn.reader.buffer ++ pieces.flatten))
    (htime : Punctual (server.run env n conn)) :
    settledTurns (server.run env n conn) =
        server.serve env n conn.handled (conn.reader.buffer ++ pieces.flatten) ∧
      ((conn.reader.buffer ++ pieces.flatten).length < n →
        (server.run env n conn).next = none) := by
  induction n generalizing conn pieces with
  | zero => exact ⟨rfl, fun hlt => absurd hlt (Nat.not_lt_zero _)⟩
  | succ n ih =>
    obtain ⟨outcome, reader, hread, hanswer⟩ :=
      readRequest_front hidle hkeep (decide (0 < conn.handled)) hcut hword
    obtain ⟨turn, conn', hturn, hsettled, rfl, hhandled⟩ :=
      server.turn_of_readRequest env hread
    have hrun : server.run env (n + 1) conn =
        if turn.continues then .cons (turn, conn') (server.run env n conn')
        else ⟨[(turn, conn')], none⟩ := by
      show Loop.run _ _ (n + 1) conn = _
      rw [Loop.run, hturn]
      rfl
    have hfirst : (turn, conn') ∈ (server.run env (n + 1) conn).turns := by
      rw [hrun]
      cases turn.continues <;> exact List.mem_cons_self
    rcases hanswer with rfl | ⟨hfront, hrest⟩
    · -- the deadline has expired
      have hrejected : turn = .rejected ⟨timedOut, none, true, server.cors, none⟩ := by
        cases turn <;> cases hsettled
        rfl
      exact absurd rfl (htime _ hfirst _ hrejected)
    subst hfront
    unfold serve
    simp only [← hsettled, Turn.continues_settled]
    cases hcont : turn.continues with
    | false =>
      rw [hrun, hcont]
      exact ⟨rfl, fun _ => rfl⟩
    | true =>
      have hgo : (server.settle env conn.handled
          (front server.limits (conn.reader.buffer ++ pieces.flatten)).1).continues = true := by
        rw [← hsettled, Turn.continues_settled, hcont]
      obtain ⟨raw, hraw⟩ := ready_of_continues hgo
      obtain ⟨pieces', hcut', hbuffer⟩ := hrest raw hraw
      have hlen := length_front (Prod.ext hraw rfl)
      rw [hrun, hcont] at htime ⊢
      have hrec := ih conn' hcut'
        (by rw [hbuffer]; exact hword.mono (Nat.le_of_lt hlen))
        fun later hlater => htime later (List.mem_cons_of_mem _ hlater)
      rw [hbuffer, hhandled hcont] at hrec
      refine ⟨congrArg (turn.settled :: ·) hrec.1, fun hn => hrec.2 ?_⟩
      exact Nat.lt_of_lt_of_le hlen (Nat.lt_succ_iff.1 hn)

/-! ## A connection as a function of requests -/

variable (server)

/-- What becomes of a request as it was meant, when `handled` requests came before it. -/
def answerRequest (env : ℕ → Env H) (handled : ℕ) (w : WireRequest) : Turn H U :=
  server.answer (env handled) (handled + 1) w.raw
    ((w.request server.routes).route (env handled) server.routes server.filesSources) []

/-- A connection whose client sends the given requests, up to the one behind which it is closed or
handed over, and what it comes to when it is still open at the end. -/
def serveRequests (env : ℕ → Env H) (finish : Turn H U) : ℕ → List WireRequest → List (Turn H U)
  | _, [] => [finish]
  | handled, w :: ws =>
    let turn := server.answerRequest env handled w
    turn :: if turn.continues then serveRequests env finish (handled + 1) ws else []

end Server

/-- The front of a string that starts with a request is that request. -/
lemma front_wire {limits : RequestLimits} {w : WireRequest} (h : w.Within limits) (t : Bytes) :
    front limits (w.wire ++ t) = (.ready w.raw, t) := by
  unfold front frame
  rw [w.takeFramedRequest_wire false h t]

namespace Server

variable (server : Server H U)

/-- The front of such a string becomes what the request means. -/
lemma settle_wire (env : ℕ → Env H) (handled : ℕ) (w : WireRequest) :
    server.settle env handled (.ready w.raw) = server.answerRequest env handled w := by
  have hrouted : parseRaw (env handled) w.raw server.routes server.filesSources =
      (w.request server.routes).route (env handled) server.routes server.filesSources := by
    unfold parseRaw
    rw [w.parseRawOnly_raw]
  exact congrArg (server.answer (env handled) (handled + 1) w.raw · []) hrouted

/-- **The function of the string refines that of the requests**: requests are served as they were
meant, and what stands behind them comes to what it comes to alone.

**Proof sketch.** Induction on the requests: the first one is framed whole (`front_wire`), and its
turn leaves the others to be served. -/
theorem serve_wire (env : ℕ → Env H) {n : ℕ} (handled : ℕ) {ws : List WireRequest}
    (h : ∀ w ∈ ws, w.Within server.limits) (hn : ws.length < n) {t : Bytes} {finish : Turn H U}
    (hstop : finish.continues = false)
    (hfinish : ∀ handled, server.settle env handled (front server.limits t).1 = finish) :
    server.serve env n handled (ws.flatMap WireRequest.wire ++ t) =
      server.serveRequests env finish handled ws := by
  induction ws generalizing n handled with
  | nil =>
    obtain ⟨n, rfl⟩ := Nat.exists_eq_succ_of_ne_zero (Nat.pos_iff_ne_zero.1 hn)
    rw [List.flatMap_nil, List.nil_append]
    unfold serve serveRequests
    simp only [hfinish handled, hstop, Bool.false_eq_true, if_false]
  | cons w ws ih =>
    obtain ⟨n, rfl⟩ := Nat.exists_eq_succ_of_ne_zero (Nat.ne_zero_of_lt hn)
    have hrest := ih (handled + 1) (fun v hv => h v (List.mem_cons_of_mem _ hv))
      (Nat.succ_lt_succ_iff.1 hn)
    rw [List.flatMap_cons, List.append_assoc]
    unfold serve serveRequests
    simp only [front_wire (h w List.mem_cons_self), server.settle_wire, hrest]

end Server

/-! ## Requests that are cut off -/

/-- At the end of the bytes the framer decides as before, unless they may be the body of a request
without a declared length. -/
lemma takeFramedRequest_idleEnd (buffer : Bytes) (limits : RequestLimits) :
    takeFramedRequest buffer limits true = takeFramedRequest buffer limits false ∨
      ∃ head tail, BlankSplit buffer head tail ∧ extractBodyHeaders head = .ok .none ∧
        unframedBody (methodToken head) = true := by
  unfold takeFramedRequest
  cases hpos : position crlfcrlf buffer with
  | none => exact .inl rfl
  | some separator =>
    simp only
    split_ifs with hlong
    · exact .inl rfl
    cases hhead : Utf8.decode (buffer.take separator) with
    | none => exact .inl rfl
    | some head =>
      simp only
      cases hframing : extractBodyHeaders head with
      | error status => exact .inl rfl
      | ok framing =>
        simp only
        cases framing with
        | none =>
          by_cases hmethod : unframedBody (methodToken head) = true
          · exact .inr ⟨head, _, .of_position hpos hhead, hframing, hmethod⟩
          · left
            simp only [takeBody, if_neg hmethod]
        | length length => exact .inl rfl
        | chunked => exact .inl rfl

/-- A request that is cut off in front of its last byte is rejected at the end of the stream.

**Proof sketch.** What the framer decides on the bytes it decides on the whole request, which is
taken whole; so it waits. It still waits at the end of the stream: the head, if it is complete, is
the one of the request, which does not leave the length of its body open. -/
lemma front_cutOff {limits : RequestLimits} {w : WireRequest} (h : w.Within limits) {p t : Bytes}
    (hwire : w.wire = p ++ t) (hp : p ≠ []) (ht : t ≠ []) :
    front limits p = (.error (errorResponse .badRequest), p) := by
  have hword : FitsWord limits (p ++ t) := by
    rw [← hwire]
    exact .inr h.word
  have hwhole := w.takeFramedRequest_wire false h []
  rw [List.append_nil, hwire] at hwhole
  have hwait : (takeFramedRequest p limits false).1 = .ok none := by
    by_contra hdecided
    have happend := takeFramedRequest_append t hword hdecided
    rw [hwhole] at happend
    exact ht (List.append_eq_nil_iff.1 (congrArg Prod.snd happend).symm).2
  have hframe : ∀ idleEnd, (takeFramedRequest p limits idleEnd).1 = .ok none →
      frame limits idleEnd p = .ok none := by
    intro idleEnd hnone
    exact (frame_eq_none (Prod.ext hnone rfl)).1
  have hend : (takeFramedRequest p limits true).1 = .ok none := by
    rcases takeFramedRequest_idleEnd p limits with hsame | ⟨head, tail, hsplit, hframing, hmethod⟩
    · rw [hsame, hwait]
    · -- the head is complete, and that of the request
      exfalso
      have hsplit' := hsplit.append t
      rw [← hwire] at hsplit'
      obtain ⟨rfl, -⟩ := (w.blankSplit w.body.wire).unique hsplit'
      have hbody : w.body.body.length ≤ usizeMax := by
        have hle : w.body.body.length ≤ w.body.wire.length := by
          cases hbody : w.body with
          | absent => exact Nat.le_refl _
          | counted body => exact Nat.le_refl _
          | chunked coding => exact coding.length_body_le
        have hfits := h.word
        simp only [WireRequest.wire, List.length_append] at hfits
        omega
      rw [w.extractBodyHeaders_head hbody] at hframing
      have habsent : w.body = .absent := by
        cases hkind : w.body with
        | absent => rfl
        | _ =>
          rw [hkind] at hframing
          cases hframing
      have hallowed := w.absent_method habsent
      rw [w.methodToken_head] at hmethod
      simp only [List.mem_cons, List.not_mem_nil, or_false] at hallowed
      revert hmethod
      rcases hallowed with hm | hm | hm | hm | hm <;> rw [hm] <;> decide
  unfold front atEnd
  rw [hframe false hwait]
  simp only [if_neg hp, hframe true hend]

/-! ## Runs -/

variable {server : Server H U}

/-- A run from a connection just accepted is the function of the string. -/
lemma settledTurns_run (hidle : 0 < server.limits.idleTimeout)
    (hkeep : 0 < server.limits.keepAliveTimeout) (env : ℕ → Env H) {s : Bytes}
    (hword : FitsWord server.limits s) {n : ℕ} {pieces : List Bytes} {reads : List Read}
    (hcut : Cut pieces n reads) (hs : pieces.flatten = s) {now : ℕ}
    (htime : Punctual (server.run env n (.start now reads))) :
    settledTurns (server.run env n (.start now reads)) = server.serve env n 0 s ∧
      (s.length < n → (server.run env n (.start now reads)).next = none) := by
  have hbuffer : (Conn.start now reads).reader.buffer ++ pieces.flatten = s := hs
  have hrun := Server.run_eq_serve hidle hkeep env (.start now reads) hcut
    (by rwa [hbuffer]) htime
  rwa [hbuffer] at hrun

/-- **A connection does not depend on how its bytes arrive.** For every string a client sends and
every two ways of cutting it into reads, as long as no deadline expires, the connection takes the
same turns: it dispatches the same requests, invokes the same handlers with the same requests,
writes the same bytes and ends in the same way. When it may take more turns than the string has
bytes, it is left.

**Proof sketch.** Both runs are the function of the string, by `Server.run_eq_serve`. -/
theorem run_segmentation (hidle : 0 < server.limits.idleTimeout)
    (hkeep : 0 < server.limits.keepAliveTimeout) (env : ℕ → Env H) {s : Bytes}
    (hword : FitsWord server.limits s) {n : ℕ} {pieces₁ pieces₂ : List Bytes}
    {reads₁ reads₂ : List Read} (hcut₁ : Cut pieces₁ n reads₁) (hcut₂ : Cut pieces₂ n reads₂)
    (hs₁ : pieces₁.flatten = s) (hs₂ : pieces₂.flatten = s) {now₁ now₂ : ℕ}
    (htime₁ : Punctual (server.run env n (.start now₁ reads₁)))
    (htime₂ : Punctual (server.run env n (.start now₂ reads₂))) :
    settledTurns (server.run env n (.start now₁ reads₁)) =
        settledTurns (server.run env n (.start now₂ reads₂)) ∧
      (s.length < n → (server.run env n (.start now₁ reads₁)).next = none) := by
  obtain ⟨hturns₁, hleft⟩ := settledTurns_run hidle hkeep env hword hcut₁ hs₁ htime₁
  obtain ⟨hturns₂, -⟩ := settledTurns_run hidle hkeep env hword hcut₂ hs₂ htime₂
  exact ⟨hturns₁.trans hturns₂.symm, hleft⟩

/-- **Pipelined requests are answered as they were meant**, in whatever pieces they arrive. The
turns of the connection are those of the requests themselves, one after the other: each is routed,
handled and answered, up to the first one behind which the connection is closed or handed over, and
when there is none, the connection ends with the stream.

**Proof sketch.** The run is the function of the string, and that is the function of the
requests. -/
theorem run_pipeline (hidle : 0 < server.limits.idleTimeout)
    (hkeep : 0 < server.limits.keepAliveTimeout) (env : ℕ → Env H) {ws : List WireRequest}
    (hwithin : ∀ w ∈ ws, w.Within server.limits)
    (hword : FitsWord server.limits (ws.flatMap WireRequest.wire)) {n : ℕ} (hn : ws.length < n)
    {pieces : List Bytes} {reads : List Read} (hcut : Cut pieces n reads)
    (hs : pieces.flatten = ws.flatMap WireRequest.wire) {now : ℕ}
    (htime : Punctual (server.run env n (.start now reads))) :
    settledTurns (server.run env n (.start now reads)) = server.serveRequests env .ended 0 ws := by
  rw [(settledTurns_run hidle hkeep env hword hcut hs htime).1]
  have hserve : server.serve env n 0 (ws.flatMap WireRequest.wire ++ []) =
      server.serveRequests env .ended 0 ws := server.serve_wire env 0 hwithin hn rfl fun _ => rfl
  rwa [List.append_nil] at hserve

/-- The handlers that are invoked for some requests do not depend on what comes behind them, when
that invokes none. -/
lemma Server.invoked_serveRequests (env : ℕ → Env H) {finish finish' : Turn H U}
    (h : finish.invoked = []) (h' : finish'.invoked = []) (handled : ℕ) (ws : List WireRequest) :
    (server.serveRequests env finish handled ws).flatMap Turn.invoked =
      (server.serveRequests env finish' handled ws).flatMap Turn.invoked := by
  induction ws generalizing handled with
  | nil =>
    simp only [serveRequests, List.flatMap_cons, List.flatMap_nil, h, h']
  | cons w ws ih =>
    simp only [serveRequests, List.flatMap_cons]
    congr 1
    split
    · exact ih (handled + 1)
    · rfl

/-- **A request that is cut off is not dispatched.** When the stream ends inside a request, behind
any number of complete ones, the complete ones are answered as if it was not there, and no handler
is invoked but for them; if the connection is still open, it ends with a `400` that closes it.

**Proof sketch.** The function of the string comes to a rejection behind the requests, because the
bytes of the last one are the front of a request and not one themselves. -/
theorem run_cutOff (hidle : 0 < server.limits.idleTimeout)
    (hkeep : 0 < server.limits.keepAliveTimeout) (env : ℕ → Env H) {ws : List WireRequest}
    (hwithin : ∀ w ∈ ws, w.Within server.limits) {w : WireRequest} (hw : w.Within server.limits)
    {p t : Bytes} (hwire : w.wire = p ++ t) (hp : p ≠ []) (ht : t ≠ [])
    (hword : FitsWord server.limits (ws.flatMap WireRequest.wire ++ p)) {n : ℕ}
    (hn : ws.length < n) {pieces : List Bytes} {reads : List Read} (hcut : Cut pieces n reads)
    (hs : pieces.flatten = ws.flatMap WireRequest.wire ++ p) {now : ℕ}
    (htime : Punctual (server.run env n (.start now reads))) :
    settledTurns (server.run env n (.start now reads)) =
        server.serveRequests env
          (.rejected ⟨errorResponse .badRequest, none, true, server.cors, none⟩) 0 ws ∧
      (settledTurns (server.run env n (.start now reads))).flatMap Turn.invoked =
        (server.serveRequests env .ended 0 ws).flatMap Turn.invoked := by
  have hturns : settledTurns (server.run env n (.start now reads)) =
      server.serveRequests env
        (.rejected ⟨errorResponse .badRequest, none, true, server.cors, none⟩) 0 ws := by
    rw [(settledTurns_run hidle hkeep env hword hcut hs htime).1]
    refine server.serve_wire env 0 hwithin hn rfl fun handled => ?_
    rw [front_cutOff hw hwire hp ht]
    rfl
  refine ⟨hturns, ?_⟩
  rw [hturns]
  exact Server.invoked_serveRequests env rfl rfl 0 ws

/-! ### Two requests, and a part of a third -/

/-- A run whose rejections have other statuses is punctual. -/
lemma punctual_of_all {trace : Loop.Trace Conn (Turn H U)}
    (h : (trace.turns.all fun turn =>
      match turn.1 with
      | .rejected reply => reply.response.status ≠ .requestTimeout
      | _ => true) = true) : Punctual trace := by
  intro turn hturn reply hreply htimeout
  have hstatus := List.all_eq_true.1 h turn hturn
  rw [hreply] at hstatus
  simp [htimeout, timedOut, errorResponse] at hstatus

/-- Reads that deliver two pieces of a string and the end of the stream. -/
def twoReads (s : Bytes) (i : ℕ) : List Read :=
  ⟨1, .ok (s.take i)⟩ :: ⟨2, .ok (s.drop i)⟩ :: eofReads

/-- Two reads cut a string in two. -/
lemma cut_twoReads {s : Bytes} {i : ℕ} (hi : 0 < i) (hlt : i < s.length)
    (hlen : s.length ≤ 4096) : Cut [s.take i, s.drop i] 20 (twoReads s i) := by
  have htake : (s.take i).length = i := List.length_take_of_le (Nat.le_of_lt hlt)
  have hdrop : (s.drop i).length = s.length - i := List.length_drop
  refine .piece rfl (List.ne_nil_of_length_pos (by omega)) (by omega) ?_
  exact .piece rfl (List.ne_nil_of_length_pos (by omega)) (by omega) cut_eofReads

/-- The two pieces make up the string. -/
lemma flatten_twoReads (s : Bytes) (i : ℕ) : [s.take i, s.drop i].flatten = s := by
  rw [List.flatten_cons, List.flatten_cons, List.flatten_nil, List.append_nil,
    List.take_append_drop]

/-- No header is there to be plain. -/
lemma plainHeader_of_mem_nil : ∀ entry ∈ ([] : List (Str × Str)), PlainHeader entry :=
  fun _ hentry => absurd hentry List.not_mem_nil

/-- A request with a counted body. -/
def countedRequest : WireRequest where
  method := .post
  target := "/add".toList
  headers := []
  body := .counted (Utf8.encode "ab".toList)
  target_ne := by decide
  target_length := by decide
  target_space := Str.not_isWhitespace_of_all (by decide)
  headers_plain := plainHeader_of_mem_nil
  absent_method := by
    intro h
    cases h

/-- It is within the limits. -/
lemma countedRequest_within : countedRequest.Within RequestLimits.default where
  head := by decide
  body := by decide
  sizes := by simp [countedRequest]
  trailers := by simp [countedRequest]
  word := by decide

/-- The requests of the pipeline. -/
def twoRequests : List WireRequest := [plainRequest, countedRequest]

/-- They are within the limits. -/
lemma twoRequests_within : ∀ w ∈ twoRequests, w.Within RequestLimits.default := by
  intro w hw
  simp only [twoRequests, List.mem_cons, List.not_mem_nil, or_false] at hw
  rcases hw with rfl | rfl
  · exact plainRequest_within
  · exact countedRequest_within

/-- The runs of the examples: a string in two pieces. -/
def runTwoReads (s : Bytes) (now i : ℕ) : Loop.Trace Conn (Turn Unit Unit) :=
  (rootServer none).run (fun _ => constantEnv Response.new) 20 (.start now (twoReads s i))

/-- They are cut in two anywhere. -/
lemma cut_twoRequests {i : ℕ} (hi : 0 < i) (hlt : i < 78) :
    Cut [(twoRequests.flatMap WireRequest.wire).take i,
      (twoRequests.flatMap WireRequest.wire).drop i] 20
      (twoReads (twoRequests.flatMap WireRequest.wire) i) := by
  have hlen : (twoRequests.flatMap WireRequest.wire).length = 78 := by decide +kernel
  exact cut_twoReads hi (by omega) (by omega)

/-- They are in time. -/
lemma punctual_twoRequests : Punctual (runTwoReads (twoRequests.flatMap WireRequest.wire) 0 5) :=
  punctual_of_all (by decide +kernel)

/-- The two requests, cut early, and cut later and after a while, take the same turns. -/
theorem run_segmentation_two :
    settledTurns (runTwoReads (twoRequests.flatMap WireRequest.wire) 0 5) =
      settledTurns (runTwoReads (twoRequests.flatMap WireRequest.wire) 7 40) :=
  (run_segmentation (by decide) (by decide) (fun _ => constantEnv Response.new) (.inl (by decide))
    (cut_twoRequests (by decide) (by decide)) (cut_twoRequests (by decide) (by decide))
    (flatten_twoReads _ _) (flatten_twoReads _ _) punctual_twoRequests
    (punctual_of_all (by decide +kernel))).1

/-- The two requests are served one after the other. -/
theorem run_pipeline_two :
    settledTurns (runTwoReads (twoRequests.flatMap WireRequest.wire) 0 5) =
      (rootServer none).serveRequests (fun _ => constantEnv Response.new) .ended 0 twoRequests :=
  run_pipeline (by decide) (by decide) _ twoRequests_within (.inl (by decide)) (by decide)
    (cut_twoRequests (by decide) (by decide)) (flatten_twoReads _ _) punctual_twoRequests

/-- The second request, when it is cut off, invokes nothing. -/
theorem run_cutOff_two :
    (settledTurns (runTwoReads ([plainRequest].flatMap WireRequest.wire ++
        countedRequest.wire.take 39) 0 5)).flatMap Turn.invoked =
      ((rootServer none).serveRequests (fun _ => constantEnv Response.new) .ended 0
        [plainRequest]).flatMap Turn.invoked := by
  have hlen : ([plainRequest].flatMap WireRequest.wire ++ countedRequest.wire.take 39).length =
      74 := by
    decide +kernel
  exact (run_cutOff (by decide) (by decide) _
    (fun w hw => twoRequests_within w (List.mem_cons.2 (.inl (List.mem_singleton.1 hw))))
    countedRequest_within (List.take_append_drop 39 _).symm (by decide +kernel) (by decide +kernel)
    (.inl (by decide)) (by decide) (cut_twoReads (by decide) (by omega) (by omega))
    (flatten_twoReads _ _) (punctual_of_all (by decide +kernel))).2

end Httpageboy
