import Httpageboy.Framing.Locality
import Httpageboy.Framing.Segmentation
import Httpageboy.Runtime.Server

set_option relaxedAutoImplicit false
set_option autoImplicit false

/-!
# Handing a connection over

Behind a `101` response an upgrade handler gets the request and the stream. The receive buffer of
the connection loop stays behind, and with it what the last read delivered beyond the end of the
request. So the handler can read everything that follows the request exactly when the client's
bytes were cut there.

## Main definitions

* `Httpageboy.Receives` — the bytes that one call of the reader takes for a request.
* `Httpageboy.Received` — the same for all requests of a run so far.

## Main results

* `Httpageboy.readLoop_ready` — a call of the reader that returns a request.
* `Httpageboy.Server.run_received` — every run takes the requests off what it reads, in order.
* `Httpageboy.handover_iff` — when no byte is lost.
-/

namespace Httpageboy

variable {H U : Type}

/-! ## One request -/

/-- The framer takes the raw request off these bytes, with something behind them. -/
def Transmits (limits : RequestLimits) (wire raw : Bytes) : Prop :=
  ∃ rest idleEnd, takeFramedRequest (wire ++ rest) limits idleEnd = (.ok (some raw), rest)

/-- With a receive buffer and some reads, the bytes `wire` are taken for a request, and `rest` is
left over. Nothing was read any more once they were complete. -/
structure Receives (limits : RequestLimits) (buffer : Bytes) (used : List Read)
    (wire raw rest : Bytes) : Prop where
  bytes : buffer ++ unread used = wire ++ rest
  taken : ∃ idleEnd, takeFramedRequest (wire ++ rest) limits idleEnd = (.ok (some raw), rest)
  early : ∀ pre suf, used = pre ++ suf →
    unread suf = [] ∨ (buffer ++ unread pre).length < wire.length

/-- A request that is taken off the buffer, when the last reads have delivered nothing. -/
lemma exists_receives {limits : RequestLimits} {idleEnd : Bool} {buffer raw rest : Bytes}
    {used : List Read} (hused : unread used = [])
    (h : takeFramedRequest buffer limits idleEnd = (.ok (some raw), rest)) :
    ∃ wire, Receives limits buffer used wire raw rest := by
  obtain ⟨wire, rfl, -⟩ := takeFramedRequest_local h
  refine ⟨wire, ?_, ⟨idleEnd, h⟩, ?_⟩
  · rw [hused, List.append_nil]
  · intro pre suf hsplit
    left
    rw [hsplit, unread_append, List.append_eq_nil_iff] at hused
    exact hused.2

/-- One more read in front, when the buffer did not hold a request yet. -/
lemma Receives.cons {limits : RequestLimits} {buffer wire raw rest : Bytes} {read : Read}
    {used : List Read} (hwait : (takeFramedRequest buffer limits false).1 = .ok none)
    (h : Receives limits (buffer ++ read.bytes) used wire raw rest) :
    Receives limits buffer (read :: used) wire raw rest := by
  have hbytes : buffer ++ unread (read :: used) = wire ++ rest := by
    rw [unread_cons, ← List.append_assoc]
    exact h.bytes
  refine ⟨hbytes, h.taken, ?_⟩
  intro pre suf hsplit
  cases pre with
  | nil =>
    rw [List.nil_append] at hsplit
    rw [← hsplit, unread_nil, List.append_nil]
    obtain ⟨idleEnd, htaken⟩ := h.taken
    exact length_lt_of_incomplete hwait hbytes htaken
  | cons first pre =>
    obtain ⟨rfl, hrest⟩ := List.cons.inj hsplit
    rw [unread_cons, ← List.append_assoc]
    exact h.early pre suf hrest

/-- The call at the end of the stream, or when the client is silent, takes a request off the
buffer. -/
lemma takeFramedRequest_of_finishRead {limits : RequestLimits} {unfinished : StatusCode}
    {reader reader' : Reader} {raw : Bytes}
    (h : finishRead limits unfinished reader = (.ready raw, reader')) :
    takeFramedRequest reader.buffer limits true = (.ok (some raw), reader'.buffer) ∧
      reader'.reads = reader.reads := by
  unfold finishRead at h
  rcases hcall : takeFramedRequest reader.buffer limits true with ⟨status | _ | raw', buffer'⟩
  · simp [hcall] at h
  · simp [hcall] at h
  · simp only [hcall, Prod.mk.injEq, StreamRead.ready.injEq] at h
    obtain ⟨rfl, rfl⟩ := h
    exact ⟨rfl, rfl⟩

/-- Without a read there is no request. -/
lemma nextWait_ne_ready {limits : RequestLimits} {keepAlive : Bool} {started : Option ℕ} {now : ℕ}
    {outcome : StreamRead Bytes} (h : nextWait limits keepAlive started now = .error outcome)
    (raw : Bytes) : outcome ≠ .ready raw := by
  rintro rfl
  unfold nextWait at h
  cases started with
  | none =>
    simp only at h
    split_ifs at h
    all_goals cases h
  | some startedAt =>
    simp only at h
    split_ifs at h
    all_goals cases h

/-- Everything a call of the reader that returns a request can do: take it off the buffer, or make
one more read while there is none, and then take what there is at the end, or go on. -/
lemma readLoop_ready_cases {limits : RequestLimits} {keepAlive : Bool} {reads : List Read}
    {started : Option ℕ} {now : ℕ} {buffer raw : Bytes} {reader : Reader}
    (h : readLoop limits keepAlive reads started now buffer = some (.ready raw, reader)) :
    (takeFramedRequest buffer limits false = (.ok (some raw), reader.buffer) ∧
      reader.reads = reads) ∨
    ∃ read later, reads = read :: later ∧ (takeFramedRequest buffer limits false).1 = .ok none ∧
      ((read.bytes = [] ∧ takeFramedRequest buffer limits true = (.ok (some raw), reader.buffer) ∧
          reader.reads = later) ∨
        ∃ started' now', readLoop limits keepAlive later started' now' (buffer ++ read.bytes) =
          some (.ready raw, reader)) := by
  unfold readLoop at h
  rcases hcall : takeFramedRequest buffer limits false with ⟨status | _ | raw', buffer'⟩
  · simp [hcall] at h
  · obtain ⟨-, rfl⟩ := frame_eq_none hcall
    simp only [hcall] at h
    cases hwait : nextWait limits keepAlive started now with
    | error outcome =>
      simp only [hwait, Option.some.injEq, Prod.mk.injEq] at h
      exact absurd h.1 (nextWait_ne_ready hwait raw)
    | ok wait =>
      cases reads with
      | nil => simp [hwait] at h
      | cons read later =>
        simp only [hwait] at h
        refine .inr ⟨read, later, rfl, rfl, ?_⟩
        split at h
        · next hresult =>
          by_cases hempty : buffer' = []
          · rw [if_pos hempty] at h
            simp at h
          · rw [if_neg hempty, Option.some.injEq] at h
            exact .inl ⟨by rw [Read.bytes, hresult], takeFramedRequest_of_finishRead h⟩
        · next chunk hne hresult =>
          have hbytes : read.bytes = chunk := by rw [Read.bytes, hresult]
          rw [hbytes]
          exact .inr ⟨_, _, h⟩
        · next hresult =>
          by_cases hstarted : started = none
          · rw [if_pos hstarted] at h
            simp at h
          · rw [if_neg hstarted, Option.some.injEq] at h
            exact .inl ⟨by rw [Read.bytes, hresult], takeFramedRequest_of_finishRead h⟩
        · simp at h
  · simp only [hcall, Option.some.injEq, Prod.mk.injEq, StreamRead.ready.injEq] at h
    obtain ⟨rfl, rfl⟩ := h
    exact .inl ⟨rfl, rfl⟩

/-- **A call of the reader that returns a request** uses up some of the reads, takes the bytes of
the request and keeps what is left over in the buffer.

**Proof sketch.** Induction on the reads. The framer is asked before every read, so a read is
made only while the request is not complete. -/
theorem readLoop_ready {limits : RequestLimits} {keepAlive : Bool} {reads : List Read}
    {started : Option ℕ} {now : ℕ} {buffer raw : Bytes} {reader : Reader}
    (h : readLoop limits keepAlive reads started now buffer = some (.ready raw, reader)) :
    ∃ used wire, reads = used ++ reader.reads ∧
      Receives limits buffer used wire raw reader.buffer := by
  induction reads generalizing started now buffer with
  | nil =>
    rcases readLoop_ready_cases h with ⟨htaken, hreads⟩ | ⟨read, later, hreads, -⟩
    · obtain ⟨wire, hreceives⟩ := exists_receives unread_nil htaken
      exact ⟨[], wire, hreads.symm, hreceives⟩
    · cases hreads
  | cons read reads ih =>
    rcases readLoop_ready_cases h with ⟨htaken, hreads⟩ | ⟨_, _, hreads, hwait, hlater⟩
    · obtain ⟨wire, hreceives⟩ := exists_receives unread_nil htaken
      exact ⟨[], wire, hreads.symm, hreceives⟩
    · cases hreads
      rcases hlater with ⟨hempty, htaken, hreads⟩ | ⟨started', now', hmore⟩
      · have hused : unread [read] = [] := by
          rw [unread_cons, hempty]
          rfl
        obtain ⟨wire, hreceives⟩ := exists_receives hused htaken
        exact ⟨[read], wire, by rw [hreads]; rfl, hreceives⟩
      · obtain ⟨used, wire, hreads, hreceives⟩ := ih hmore
        exact ⟨read :: used, wire, by rw [hreads]; rfl, hreceives.cons hwait⟩

/-! ## All requests of a run -/

/-- The framed requests of some turns, in order. -/
def raws (turns : List (Turn H U × Conn)) : List Bytes := turns.filterMap fun turn => turn.1.raw?

/-- What the turns so far have taken off the reads: the bytes of one request after the other, and
some bytes in the buffer. Nothing was read any more once the last request was complete. -/
structure Received (limits : RequestLimits) (reads : List Read) (past : List (Turn H U × Conn))
    (reader : Reader) (used : List Read) (wires : List Bytes) : Prop where
  reads : reads = used ++ reader.reads
  transmits : List.Forall₂ (Transmits limits) wires (raws past)
  bytes : unread used = wires.flatten ++ reader.buffer
  early : ∀ pre suf, used = pre ++ suf →
    unread suf = [] ∨ (unread pre).length < wires.flatten.length

/-- One more request.

**Proof sketch.** Where the reads are cut before the last call, the bytes so far are those of the
earlier requests and the buffer, and `Receives.early` says that the buffer is shorter than the
request. -/
lemma Received.append {limits : RequestLimits} {reads : List Read} {past : List (Turn H U × Conn)}
    {reader : Reader} {used : List Read} {wires : List Bytes} {used' : List Read}
    {wire raw : Bytes} {turn : Turn H U} {conn : Conn}
    (h : Received limits reads past reader used wires)
    (hreads : reader.reads = used' ++ conn.reader.reads)
    (hreceives : Receives limits reader.buffer used' wire raw conn.reader.buffer)
    (hraw : turn.raw? = some raw) :
    Received limits reads (past ++ [(turn, conn)]) conn.reader (used ++ used')
      (wires ++ [wire]) := by
  have hflatten : (wires ++ [wire]).flatten = wires.flatten ++ wire := by simp
  refine ⟨?_, ?_, ?_, ?_⟩
  · rw [h.reads, hreads, List.append_assoc]
  · have hraws : raws (past ++ [(turn, conn)]) = raws past ++ [raw] := by
      simp [raws, hraw]
    rw [hraws]
    obtain ⟨idleEnd, htaken⟩ := hreceives.taken
    exact List.rel_append h.transmits (.cons ⟨_, idleEnd, htaken⟩ .nil)
  · rw [unread_append, h.bytes, hflatten, List.append_assoc, hreceives.bytes, ← List.append_assoc]
  · intro pre suf hsplit
    rw [hflatten, List.length_append]
    rcases List.append_eq_append_iff.1 hsplit with ⟨mid, rfl, hsuf⟩ | ⟨mid, hused, rfl⟩
    · -- the cut is in the reads of the last call
      rcases hreceives.early mid suf hsuf with hnil | hlt
      · exact .inl hnil
      · right
        have hlen := congrArg List.length h.bytes
        rw [List.length_append] at hlt hlen
        rw [unread_append, List.length_append]
        omega
    · rcases h.early pre mid hused with hnil | hlt
      · -- behind the cut, only the last call has read something
        rcases hreceives.early [] used' rfl with hnil' | hlt'
        · left
          rw [unread_append, hnil, hnil']
          rfl
        · right
          have hlen := congrArg List.length h.bytes
          rw [hused, unread_append, hnil, List.append_nil, List.length_append] at hlen
          rw [unread_nil, List.append_nil] at hlt'
          omega
      · right
        omega

/-- **Every run takes the requests off what it reads, in order.**

**Proof sketch.** Induction on the turns: each one frames a front of the bytes that have come and
leaves the rest in the buffer, in front of what is still to be read. -/
theorem Server.run_received {server : Server H U} {env : ℕ → Env H} {n now : ℕ} {reads : List Read}
    {before after : List (Turn H U × Conn)} {turn : Turn H U} {conn : Conn} {raw : Bytes}
    (hturns : (server.run env n (.start now reads)).turns = before ++ (turn, conn) :: after)
    (hraw : turn.raw? = some raw) :
    ∃ used wires,
      Received server.limits reads (before ++ [(turn, conn)]) conn.reader used wires := by
  have hturn : ∀ (past : List (Turn H U × Conn)) (conn₀ : Conn) turn (conn : Conn) raw,
      (∃ used wires, Received server.limits reads past conn₀.reader used wires) →
      server.turn env conn₀ = some (turn, conn) → turn.raw? = some raw →
      ∃ used wires,
        Received server.limits reads (past ++ [(turn, conn)]) conn.reader used wires := by
    intro past conn₀ turn conn raw hpast h hraw
    rcases Server.turn_cases h with ⟨rfl, -⟩ | ⟨response, rfl, -⟩ | ⟨raw', hread, -, hanswer⟩
    · cases hraw
    · cases hraw
    · obtain ⟨used, wires, hreceived⟩ := hpast
      obtain ⟨used', wire, hreads, hreceives⟩ := readLoop_ready hread
      have hraw' : turn.raw? = some raw' := by
        rw [hanswer]
        apply Server.raw?_answer
      exact ⟨_, _, hreceived.append hreads hreceives hraw'⟩
  have hstep : ∀ (past : List (Turn H U × Conn)) (conn₀ : Conn) turn (conn : Conn),
      (∃ used wires, Received server.limits reads past conn₀.reader used wires) →
      server.turn env conn₀ = some (turn, conn) → turn.continues = true →
      ∃ used wires,
        Received server.limits reads (past ++ [(turn, conn)]) conn.reader used wires := by
    intro past conn₀ turn conn hpast h hcont
    cases turn with
    | answered exchange reply => exact hturn past conn₀ _ conn exchange.raw hpast h rfl
    | _ => cases hcont
  have hstart : Received server.limits reads ([] : List (Turn H U × Conn))
      (Conn.start now reads).reader
      [] [] := by
    refine ⟨rfl, .nil, rfl, fun pre suf hsplit => .inl ?_⟩
    rw [(List.append_eq_nil_iff.1 hsplit.symm).2, unread_nil]
  obtain ⟨conn₀, hpast, hcall⟩ := Loop.run_history hstep ⟨[], [], hstart⟩ hturns
  exact hturn before conn₀ turn conn raw hpast hcall hraw

/-- The stream that is handed over is what the reader has not read. -/
lemma Server.stream_of_upgraded {server : Server H U} {env : ℕ → Env H} {n now : ℕ}
    {reads stream : List Read} {before after : List (Turn H U × Conn)} {exchange : Exchange H U}
    {reply : Reply} {upgrade : U} {conn : Conn}
    (hturns : (server.run env n (.start now reads)).turns =
      before ++ (.upgraded exchange reply upgrade stream, conn) :: after) :
    conn.reader.reads = stream := by
  obtain ⟨conn₀, -, hturn⟩ := Server.run_turn hturns
  rcases Server.turn_cases hturn with ⟨h, -⟩ | ⟨response, h, -⟩ | ⟨raw, -, -, hanswer⟩
  · cases h
  · cases h
  · rcases Server.answer_cases server (env conn₀.handled) conn.handled raw
        (parseRaw (env conn₀.handled) raw server.routes server.filesSources) conn.reader.reads with
      ⟨upgrade', hcase, -⟩ | ⟨close, hcase, -⟩
    · rw [hcase] at hanswer
      cases hanswer
      rfl
    · rw [hcase] at hanswer
      cases hanswer

/-- **When no byte is lost at an upgrade.** In every run that hands the connection over, let
`following` be what the client sent behind the bytes of the requests that were framed, the last of
which is the one that is upgraded. What the upgrade handler can still read is a suffix of it. It is
all of it exactly when the reads are cut at the end of that request.

**Proof sketch.** The reads made so far have delivered the bytes of the requests and the buffer,
so what is lost is the buffer. Nothing was read any more once the last request was complete:
where the reads are cut at its end, they were read that far and no further. -/
theorem handover_iff {server : Server H U} {env : ℕ → Env H} {n now : ℕ} {reads stream : List Read}
    {before after : List (Turn H U × Conn)} {exchange : Exchange H U} {reply : Reply} {upgrade : U}
    {conn : Conn}
    (hturns : (server.run env n (.start now reads)).turns =
      before ++ (.upgraded exchange reply upgrade stream, conn) :: after) :
    ∃ wires following,
      List.Forall₂ (Transmits server.limits) wires (raws before ++ [exchange.raw]) ∧
      unread reads = wires.flatten ++ following ∧
      unread stream <:+ following ∧
      (following = unread stream ↔
        ∃ pre suf, reads = pre ++ suf ∧ unread pre = wires.flatten) := by
  obtain ⟨used, wires, h⟩ := Server.run_received hturns rfl
  have hstream : conn.reader.reads = stream := Server.stream_of_upgraded hturns
  have hreads : reads = used ++ stream := by rw [h.reads, hstream]
  have hwires := h.transmits
  have hraws : raws (before ++ [((.upgraded exchange reply upgrade stream : Turn H U), conn)]) =
      raws before ++ [exchange.raw] := by simp [raws, Turn.raw?]
  rw [hraws] at hwires
  refine ⟨wires, conn.reader.buffer ++ unread stream, hwires, ?_, List.suffix_append _ _, ?_⟩
  · rw [hreads, unread_append, h.bytes, List.append_assoc]
  rw [List.append_left_eq_self]
  constructor
  · intro hempty
    refine ⟨used, stream, hreads, ?_⟩
    rw [h.bytes, hempty, List.append_nil]
  · intro hcut
    obtain ⟨pre, suf, hsplit, hpre⟩ := hcut
    have hlen := congrArg List.length h.bytes
    have hlen' := congrArg List.length hpre
    rw [List.length_append] at hlen
    apply List.eq_nil_of_length_eq_zero
    rw [hreads] at hsplit
    rcases List.append_eq_append_iff.1 hsplit with ⟨mid, rfl, -⟩ | ⟨mid, hused, -⟩
    · rw [unread_append, List.length_append] at hlen'
      omega
    · rcases h.early pre mid hused with hnil | hlt
      · rw [hused, unread_append, hnil, List.append_nil] at hlen
        omega
      · omega

/-- A run of one turn, which hands the connection over. -/
lemma Turn.exists_handover {α : Type} {turns : List (Turn H U × Conn)}
    {f : Exchange H U × List Read → α} {a : α}
    (h : (turns.map fun turn => turn.1.handover?.map f) = [some a]) :
    ∃ exchange reply upgrade stream conn,
      turns = [(.upgraded exchange reply upgrade stream, conn)] ∧ f (exchange, stream) = a := by
  obtain ⟨⟨turn, conn⟩, rfl⟩ : ∃ turn, turns = [turn] :=
    List.length_eq_one_iff.1 (by simpa using congrArg List.length h)
  have hturn : turn.handover?.map f = some a := (List.cons.inj h).1
  cases turn with
  | upgraded exchange reply upgrade stream =>
    exact ⟨exchange, reply, upgrade, stream, conn, rfl, Option.some.inj hturn⟩
  | _ => cases hturn

/-- A response that accepts an upgrade. -/
def switching : Response where
  status := .switchingProtocols
  headers := [("Upgrade".toList, "echo".toList), ("Connection".toList, "Upgrade".toList)]
  body := []

/-- The first message of the protocol that is switched to. -/
def hello : Bytes := Utf8.encode "hello".toList

/-- The run of a server with an upgrade, on these reads. -/
def upgradeRun (reads : List Read) : Loop.Trace Conn (Turn Unit Unit) :=
  (rootServer (some ())).run (fun _ => constantEnv switching) 1 (.start 0 reads)

/-- A message that comes behind the request is handed over. -/
lemma upgradeRun_late :
    ((upgradeRun [⟨0, .ok shortRequest⟩, ⟨0, .ok hello⟩]).turns.map fun turn =>
      turn.1.handover?.map fun handover => unread handover.2) = [some hello] := by
  unfold shortRequest hello
  rewrite [String.toList_ofList, String.toList_ofList]
  decide

/-- Bytes that come in a read of their own reach the upgrade handler. -/
theorem handover_iff_late :
    ∃ exchange reply upgrade stream conn,
      (upgradeRun [⟨0, .ok shortRequest⟩, ⟨0, .ok hello⟩]).turns =
        [(.upgraded exchange reply upgrade stream, conn)] ∧
      ∃ wires following,
        List.Forall₂ (Transmits (rootServer (some ())).limits) wires ([] ++ [exchange.raw]) ∧
        unread [⟨0, .ok shortRequest⟩, ⟨0, .ok hello⟩] = wires.flatten ++ following ∧
        unread stream <:+ following ∧
        (following = unread stream ↔ ∃ pre suf,
          [⟨0, .ok shortRequest⟩, ⟨0, .ok hello⟩] = pre ++ suf ∧ unread pre = wires.flatten) := by
  obtain ⟨exchange, reply, upgrade, stream, conn, hturns, -⟩ :=
    Turn.exists_handover upgradeRun_late
  have hhandover := handover_iff
    (hturns.trans (List.nil_append [(Turn.upgraded exchange reply upgrade stream, conn)]).symm)
  exact ⟨exchange, reply, upgrade, stream, conn, hturns, hhandover⟩

/-- The client sends its first message with the request or right behind it, and the connection is
handed over either way; but in the first case the upgrade handler finds nothing on the stream and
nothing in the request. -/
theorem upgradeRun_loses_hello :
    unread [⟨0, .ok (shortRequest ++ hello)⟩] = unread [⟨0, .ok shortRequest⟩, ⟨0, .ok hello⟩] ∧
    ((upgradeRun [⟨0, .ok (shortRequest ++ hello)⟩]).turns.map fun turn =>
      turn.1.handover?.map fun handover =>
        (handover.1.raw, handover.1.request.body, unread handover.2)) =
      [some (shortRequest, [], [])] ∧
    ((upgradeRun [⟨0, .ok shortRequest⟩, ⟨0, .ok hello⟩]).turns.map fun turn =>
      turn.1.handover?.map fun handover =>
        (handover.1.raw, handover.1.request.body, unread handover.2)) =
      [some (shortRequest, [], hello)] := by
  unfold shortRequest hello
  rewrite [String.toList_ofList, String.toList_ofList]
  decide

end Httpageboy
