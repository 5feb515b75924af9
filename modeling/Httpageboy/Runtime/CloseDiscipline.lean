import Httpageboy.Framing.Conservation
import Httpageboy.Runtime.Deadline

set_option relaxedAutoImplicit false
set_option autoImplicit false

/-!
# Closing a connection

Whether a response announces that the connection is closed, and whether the loop then stops,
are decided in different places. The two agree in every run. Behind a response without the
announcement the reader is called again; with a keep-alive timeout of zero, and nothing left over,
that call ends the connection without a read. What a client asks for is another matter: a
`Connection: close` is lost when its request is framed and then rejected.

## Main definitions

* `Httpageboy.Reader.Attempts`, `Httpageboy.Server.ReadsOn` — a connection is read on.
* `Httpageboy.Server.EndsBehind` — the server ends the connection straight behind a response.
* `Httpageboy.requestsClose` — the head of a framed request asks to close the connection.

## Main results

* `Httpageboy.Server.continues_eq` — an iteration goes on exactly when its response does not
  announce the close.
* `Httpageboy.run_discipline` — the discipline of the connection loop.
* `Httpageboy.closeHonoured_iff` — when the close a client asks for is announced.
-/

namespace Httpageboy

open Search

variable {H U : Type}

/-! ## Announcements -/

/-- A field that announces the close. -/
def closeEntry (entry : Str × Str) : Bool :=
  Str.eqIgnoreAsciiCase entry.1 "connection".toList &&
    (entry.2.splitOn ',').any fun token => Str.eqIgnoreAsciiCase (Str.trim token) "close".toList

/-- Header entries announce the close when one of them does. -/
lemma headersClose_eq_any (headers : List (Str × Str)) :
    headersClose headers = headers.any closeEntry := by
  unfold headersClose
  rw [List.any_flatMap]
  induction headers with
  | nil => rfl
  | cons entry headers ih =>
    rw [List.filter_cons, List.any_cons, ← ih]
    cases hname : Str.eqIgnoreAsciiCase entry.1 "connection".toList with
    | false => simp only [closeEntry, hname, Bool.false_and, Bool.false_or, Bool.false_eq_true,
        if_false]
    | true => simp only [closeEntry, hname, Bool.true_and, if_true, List.any_cons]

/-- The header that announces the close is one that does. -/
lemma closeEntry_close : closeEntry ("Connection".toList, "close".toList) = true := by
  decide

/-- A field of another name announces nothing. -/
lemma closeEntry_of_ne {entry : Str × Str}
    (h : Str.eqIgnoreAsciiCase entry.1 "connection".toList = false) : closeEntry entry = false := by
  simp only [closeEntry, h, Bool.false_and]

/-- A policy announces nothing. -/
lemma corsLines_closeEntry (cors : Option CorsPolicy) (origin : Option Str) :
    (corsLines cors origin).any closeEntry = false := by
  refine List.any_eq_false.2 fun entry hentry => ?_
  cases cors with
  | none => simp [corsLines] at hentry
  | some policy =>
    have hname := CorsPolicy.name_mem_headerNames hentry
    rw [closeEntry_of_ne (CorsPolicy.ne_of_mem_headerNames _ hname).2.2]
    exact Bool.false_ne_true

namespace Reply

/-- The fallback announces the close. -/
lemma announcesClose_of_invalid {reply : Reply} (h : reply.valid = false) :
    reply.announcesClose = true := by
  unfold announcesClose entries
  rw [headersClose_eq_any, h]
  simp only [Bool.false_eq_true, if_false, List.any_cons, closeEntry_close, Bool.true_or,
    Bool.or_true]

/-- A reply that closes the connection announces it. -/
lemma announcesClose_of_close {reply : Reply} (h : reply.close = true) :
    reply.announcesClose = true := by
  cases hvalid : reply.valid with
  | false => exact announcesClose_of_invalid hvalid
  | true =>
    unfold announcesClose entries headEntries closeEntries
    rw [headersClose_eq_any, hvalid, h]
    simp only [if_true, List.any_append, List.any_cons, closeEntry_close, Bool.true_or,
      Bool.or_true]

/-- A reply that leaves the connection open announces nothing but what the handler does. -/
lemma announcesClose_of_open {reply : Reply} (hvalid : reply.valid = true)
    (hclose : reply.close = false) (hheaders : headersClose reply.response.headers = false) :
    reply.announcesClose = false := by
  rw [headersClose_eq_any] at hheaders
  have hkept : (keptHeaders reply.response false).any closeEntry = false := by
    refine List.any_eq_false.2 fun entry hentry => ?_
    exact List.any_eq_false.1 hheaders entry (List.mem_of_mem_filter hentry)
  have hlength : (lengthEntries reply.response reply.method).any closeEntry = false := by
    unfold lengthEntries
    cases responseHasContent reply.method reply.response with
    | false => rfl
    | true =>
      have hname : Str.eqIgnoreAsciiCase "Content-Length".toList "connection".toList = false := by
        rewrite [String.toList_ofList, String.toList_ofList]
        decide
      simp only [if_true, List.any_cons, List.any_nil, Bool.or_false]
      exact closeEntry_of_ne hname
  unfold announcesClose entries headEntries closeEntries
  rw [headersClose_eq_any, hvalid, hclose]
  simp only [if_true, List.any_append, hkept, hlength, corsLines_closeEntry, Bool.or_false,
    Bool.false_eq_true, if_false, List.any_nil]

end Reply

/-! ## Announced and closed -/

/-- An answer announces the close exactly when the loop stops behind it. -/
lemma continues_answered {server : Server H U} {handled : ℕ} {routed : Routed H U}
    {exchange : Exchange H U} {close : Bool}
    (h : close = server.closes handled routed exchange.response ∨
      (close = false ∧ (server.reply routed exchange.response close).valid = false)) :
    (Turn.answered exchange (server.reply routed exchange.response close)).continues =
      !(server.reply routed exchange.response close).announcesClose := by
  have hreply : (server.reply routed exchange.response close).close = close := rfl
  unfold Turn.continues
  simp only [Reply.send_snd, hreply]
  cases hvalid : (server.reply routed exchange.response close).valid with
  | false =>
    rw [Reply.announcesClose_of_invalid hvalid]
    rfl
  | true =>
    rcases h with hcloses | ⟨-, hinvalid⟩
    · cases close with
      | true =>
        rw [Reply.announcesClose_of_close hreply]
        rfl
      | false =>
        have hheaders : headersClose exchange.response.headers = false := by
          have hall := hcloses.symm
          unfold Server.closes at hall
          rw [Bool.or_eq_false_iff, Bool.or_eq_false_iff] at hall
          exact hall.1.2
        rw [Reply.announcesClose_of_open hvalid hreply hheaders]
        rfl
    · rw [hvalid] at hinvalid
      cases hinvalid

/-- The turn hands the connection over. -/
def Turn.HandedOver (turn : Turn H U) : Prop :=
  ∃ exchange reply upgrade stream, turn = .upgraded exchange reply upgrade stream

/-- **An iteration goes on exactly when its response does not announce the close**, unless it
hands the connection over. -/
theorem Server.continues_eq {server : Server H U} {env : ℕ → Env H} {conn conn' : Conn}
    {turn : Turn H U} {reply : Reply} (h : server.turn env conn = some (turn, conn'))
    (hreply : turn.reply? = some reply) (hupgraded : ¬ turn.HandedOver) :
    turn.continues = !reply.announcesClose := by
  rcases Server.turn_cases h with ⟨rfl, -⟩ | ⟨response, rfl, -⟩ | ⟨raw, -, -, rfl⟩
  · cases hreply
  · cases hreply
    rw [Reply.announcesClose_of_close rfl]
    rfl
  · rcases Server.answer_cases server (env conn.handled) conn'.handled raw
        (parseRaw (env conn.handled) raw server.routes server.filesSources) conn'.reader.reads with
      ⟨upgrade, hanswer, -⟩ | ⟨close, hanswer, hclose⟩
    · exact absurd ⟨_, _, _, _, hanswer⟩ hupgraded
    · rw [hanswer] at hreply ⊢
      cases hreply
      exact continues_answered hclose

/-- While the loop goes on, the requests it may still handle become fewer, and some are left. -/
lemma Server.rank_lt {server : Server H U} {env : ℕ → Env H} {conn conn' : Conn} {turn : Turn H U}
    (h : server.turn env conn = some (turn, conn')) (hcont : turn.continues = true) :
    server.limits.maxRequests - conn'.handled < server.limits.maxRequests - conn.handled ∧
      0 < server.limits.maxRequests - conn'.handled := by
  rcases Server.turn_cases h with ⟨rfl, -⟩ | ⟨response, rfl, -⟩ | ⟨raw, -, hhandled, rfl⟩
  · cases hcont
  · cases hcont
  · rcases Server.answer_cases server (env conn.handled) conn'.handled raw
        (parseRaw (env conn.handled) raw server.routes server.filesSources) conn'.reader.reads with
      ⟨upgrade, hanswer, -⟩ | ⟨close, hanswer, hclose⟩
    · rw [hanswer] at hcont
      cases hcont
    · rw [hanswer] at hcont
      simp only [Turn.continues, Reply.send_snd, Bool.and_eq_true, Bool.not_eq_true'] at hcont
      obtain ⟨hvalid, hopen⟩ := hcont
      rcases hclose with hcloses | ⟨-, hinvalid⟩
      · have hopen : close = false := hopen
        rw [hopen] at hcloses
        have hall := hcloses.symm
        unfold Server.closes at hall
        rw [Bool.or_eq_false_iff, decide_eq_false_iff_not] at hall
        have hlt := hall.2
        omega
      · rw [hvalid] at hinvalid
        cases hinvalid

/-! ### What follows a response -/

/-- Another read is attempted: a call of the reader has issued one, or it is blocked in its
first. -/
def Reader.Attempts (limits : RequestLimits) (keepAlive : Bool) (reader : Reader) : Prop :=
  reader.issued limits keepAlive ≠ [] ∨ readRequest limits keepAlive reader = none

/-- What a call of the reader does between two requests. With nothing left over, and no time to
wait, it ends idle without a read. Otherwise it attempts a read, or what is left over is a request
or is rejected.

**Proof sketch.** By the way in which the run of the reader ends (`readRequest_run`). Only when
nothing is left over and there is no time to wait does it end without a read and without a result
about a request. -/
lemma readRequest_keepAlive (limits : RequestLimits) (reader : Reader) :
    ((reader.buffer = [] ∧ limits.keepAliveTimeout = 0) ∧ reader.issued limits true = [] ∧
      readRequest limits true reader = some (.idle, reader)) ∨
    ((reader.buffer ≠ [] ∨ 0 < limits.keepAliveTimeout) ∧
      (reader.Attempts limits true ∨
        ∃ outcome reader', readRequest limits true reader = some (outcome, reader') ∧
          ¬ (outcome = .idle ∨ outcome = .closed))) := by
  obtain ⟨buffer, now, reads⟩ := reader
  have hempty : takeFramedRequest [] limits false = (.ok none, []) := rfl
  have hwaits : ∀ {wait : ℕ}, nextWait limits true (if buffer = [] then none else some now) now =
      .ok wait → buffer ≠ [] ∨ 0 < limits.keepAliveTimeout := by
    intro wait hwait
    by_cases hnil : buffer = []
    · rw [if_pos hnil] at hwait
      obtain ⟨rfl, hpos⟩ := nextWait_none_iff.1 hwait
      exact .inr hpos
    · exact .inl hnil
  have hrun := readRequest_run limits true ⟨buffer, now, reads⟩
  unfold Reader.Attempts
  generalize Reader.issued limits true ⟨buffer, now, reads⟩ = issued at hrun ⊢
  generalize readRequest limits true ⟨buffer, now, reads⟩ = result at hrun ⊢
  cases hrun with
  | ready hframe =>
    refine .inr ⟨.inl ?_, .inr ⟨_, _, rfl, by simp⟩⟩
    rintro rfl
    cases hempty.symm.trans hframe
  | rejected hframe =>
    refine .inr ⟨.inl ?_, .inr ⟨_, _, rfl, by simp⟩⟩
    rintro rfl
    cases hempty.symm.trans hframe
  | overdue _ hwait =>
    by_cases hnil : buffer = []
    · rw [if_pos hnil] at hwait
      obtain ⟨hzero, rfl⟩ := nextWait_none_eq_error.1 hwait
      exact .inl ⟨⟨hnil, hzero⟩, rfl, rfl⟩
    · -- what is left over is overdue
      rw [if_neg hnil] at hwait
      rcases nextWait_eq_error hwait with ⟨hnone, -⟩ | ⟨response, rfl⟩
      · cases hnone
      · exact .inr ⟨.inl hnil, .inr ⟨_, _, rfl, by simp⟩⟩
  | blocked _ hwait => exact .inr ⟨hwaits hwait, .inl (.inr rfl)⟩
  | eof _ hwait _ => exact .inr ⟨hwaits hwait, .inl (.inl (List.cons_ne_nil _ _))⟩
  | timedOut _ hwait _ => exact .inr ⟨hwaits hwait, .inl (.inl (List.cons_ne_nil _ _))⟩
  | failed _ hwait _ => exact .inr ⟨hwaits hwait, .inl (.inl (List.cons_ne_nil _ _))⟩
  | chunk _ hwait _ _ _ => exact .inr ⟨hwaits hwait, .inl (.inl (List.cons_ne_nil _ _))⟩

namespace Server

variable {server : Server H U} {env : ℕ → Env H}

/-- The connection is read on: the next iteration attempts a read, or it answers what is left
over. -/
def ReadsOn (server : Server H U) (env : ℕ → Env H) (conn : Conn) : Prop :=
  conn.reader.Attempts server.limits (0 < conn.handled) ∨
    ∃ turn conn' reply, server.turn env conn = some (turn, conn') ∧ turn.reply? = some reply

/-- The server ends the connection straight behind a turn that leaves `conn`: the loop is left, or
the next call of the reader ends without a read and without a response. -/
def EndsBehind (server : Server H U) (run : Loop.Trace Conn (Turn H U)) (conn : Conn)
    (after : List (Turn H U × Conn)) : Prop :=
  (after = [] ∧ run.next = none) ∨
    ∃ conn', after = [(.ended, conn')] ∧
      conn.reader.issued server.limits (0 < conn.handled) = []

/-- A connection that ends without a read is not read on. -/
lemma not_readsOn_of_ended {conn conn' : Conn} (hturn : server.turn env conn = some (.ended, conn'))
    (hissued : conn.reader.issued server.limits (0 < conn.handled) = []) :
    ¬ server.ReadsOn env conn := by
  rintro ((hissue | hblocked) | ⟨turn, conn'', reply, hcall, hreply⟩)
  · exact hissue hissued
  · obtain ⟨outcome, hread⟩ := exists_readRequest hturn
    rw [hblocked] at hread
    cases hread
  · rw [hturn] at hcall
    cases hcall
    cases hreply

/-- Behind a turn that the loop goes on behind, some request has been handled. -/
lemma handled_pos {conn conn' : Conn} {turn : Turn H U}
    (h : server.turn env conn = some (turn, conn')) (hcont : turn.continues = true) :
    0 < conn'.handled := by
  rcases turn_cases h with ⟨rfl, -⟩ | ⟨response, rfl, -⟩ | ⟨raw, -, hhandled, -⟩
  · cases hcont
  · cases hcont
  · rw [hhandled]
    exact Nat.succ_pos _

/-- **A connection that has handled a request is read on** exactly when bytes are left over or
there is time to wait for more.

**Proof sketch.** The reader is called again when the connection goes on. It reads if bytes are left
over or its idle time is not zero; with neither, it reports an idle end at once, and no read is
issued. -/
theorem readsOn_iff {conn : Conn} (hhandled : 0 < conn.handled) :
    server.ReadsOn env conn ↔
      conn.reader.buffer ≠ [] ∨ 0 < server.limits.keepAliveTimeout := by
  have hkeep : decide (0 < conn.handled) = true := decide_eq_true hhandled
  have hturn : ∀ outcome reader, readRequest server.limits true conn.reader =
      some (outcome, reader) → parseStream (env conn.handled) server.routes server.filesSources
        server.limits (decide (0 < conn.handled)) conn.reader =
          some (outcome.map fun raw => (raw, parseRaw (env conn.handled) raw server.routes
            server.filesSources), reader) := by
    intro outcome reader hread
    rw [hkeep]
    exact parseStream_eq_some_iff.2 ⟨outcome, hread, rfl⟩
  rcases readRequest_keepAlive server.limits conn.reader with
    ⟨⟨hbuffer, hzero⟩, hissued, hread⟩ | ⟨hcond, hreads⟩
  · have hended : server.turn env conn = some (.ended, ⟨conn.reader, conn.handled⟩) := by
      unfold Server.turn
      rw [hturn _ _ hread]
      rfl
    rw [← hkeep] at hissued
    constructor
    · exact fun hreads => absurd hreads (not_readsOn_of_ended hended hissued)
    · rintro (hne | hpos)
      · exact absurd hbuffer hne
      · omega
  · refine ⟨fun _ => hcond, fun _ => ?_⟩
    rcases hreads with hattempts | ⟨outcome, reader, hread, houtcome⟩
    · rw [← hkeep] at hattempts
      exact .inl hattempts
    · right
      unfold Server.turn
      rw [hturn _ _ hread]
      cases outcome with
      | idle => exact absurd (.inl rfl) houtcome
      | closed => exact absurd (.inr rfl) houtcome
      | error response => exact ⟨_, _, _, rfl, rfl⟩
      | ready raw =>
        have hreply : ∃ reply, (server.answer (env conn.handled) (conn.handled + 1) raw
            (parseRaw (env conn.handled) raw server.routes server.filesSources)
              reader.reads).reply? = some reply := by
          rcases Server.answer_cases server (env conn.handled) (conn.handled + 1) raw
              (parseRaw (env conn.handled) raw server.routes server.filesSources) reader.reads with
            ⟨upgrade, hanswer, -⟩ | ⟨close, hanswer, -⟩ <;>
            · rw [hanswer]
              exact ⟨_, rfl⟩
        obtain ⟨reply, hreply⟩ := hreply
        exact ⟨_, _, reply, rfl, hreply⟩

end Server

/-- **The discipline of the connection loop**, in every run from a connection just accepted:
there are at most `max 1 maxRequests` responses; behind a rejection, or a response that
announces the close, the loop is left. Unless the connection is handed over, a response behind
which the loop is left announces the close; a response behind which the server ends the connection
at once does, too, but for a keep-alive timeout of zero with nothing left over. A response without
the announcement is followed by another call of the reader, in which the connection is read on,
with the same exception.

**Proof sketch.** Every iteration that goes on uses up one of the requests that may be handled
and leaves some, which bounds the turns. Announcing and leaving the loop are the same for every
iteration that answers, by `Server.continues_eq`. What the reader does when it is called again is
`Server.readsOn_iff`. -/
theorem run_discipline (server : Server H U) (env : ℕ → Env H) (n now : ℕ) (reads : List Read) :
    ((server.run env n (.start now reads)).turns.filterMap fun turn => turn.1.reply?).length ≤
        max 1 server.limits.maxRequests ∧
    ∀ before turn conn after reply,
      (server.run env n (.start now reads)).turns = before ++ (turn, conn) :: after →
      turn.reply? = some reply →
      (((∃ rejection, turn = .rejected rejection) ∨ reply.announcesClose = true) →
        after = [] ∧ (server.run env n (.start now reads)).next = none) ∧
      (¬ turn.HandedOver → after = [] → (server.run env n (.start now reads)).next = none →
        reply.announcesClose = true) ∧
      (¬ turn.HandedOver →
        server.EndsBehind (server.run env n (.start now reads)) conn after →
        reply.announcesClose = true ∨
          (conn.reader.buffer = [] ∧ server.limits.keepAliveTimeout = 0)) ∧
      (¬ turn.HandedOver → reply.announcesClose = false →
        (after = [] → (server.run env n (.start now reads)).next = some conn) ∧
        (∀ turn' conn' later, after = (turn', conn') :: later →
          server.turn env conn = some (turn', conn')) ∧
        (server.ReadsOn env conn ↔
          conn.reader.buffer ≠ [] ∨ 0 < server.limits.keepAliveTimeout)) := by
  constructor
  · have hrank : ∀ conn turn conn', server.turn env conn = some (turn, conn') →
        turn.continues = true →
        server.limits.maxRequests - conn'.handled < server.limits.maxRequests - conn.handled ∧
          0 < server.limits.maxRequests - conn'.handled :=
      fun conn turn conn' h hcont => Server.rank_lt h hcont
    have hturns := Loop.run_length hrank n (Conn.start now reads)
    exact Nat.le_trans (List.length_filterMap_le _ _) hturns
  · intro before turn conn after reply hturns hreply
    obtain ⟨conn₀, -, hturn⟩ := Server.run_turn hturns
    obtain ⟨hlast, hnext⟩ := Loop.run_spec hturns
    have hstop : turn.continues = false → after = [] ∧
        (server.run env n (.start now reads)).next = none := hlast
    have hopen : ¬ turn.HandedOver → reply.announcesClose = false → turn.continues = true := by
      intro hupgraded hsilent
      rw [Server.continues_eq hturn hreply hupgraded, hsilent]
      rfl
    have hleft : ¬ turn.HandedOver → after = [] →
        (server.run env n (.start now reads)).next = none → reply.announcesClose = true := by
      intro hupgraded hafter hleft
      by_contra hsilent
      have hsome := hnext (hopen hupgraded (by simpa using hsilent)) hafter
      rw [Server.run] at hleft
      rw [hleft] at hsome
      cases hsome
    have hcalled : ∀ turn' conn' later, after = (turn', conn') :: later →
        server.turn env conn = some (turn', conn') := by
      rintro turn' conn' later rfl
      exact Loop.run_consecutive hturns
    have hreads : ¬ turn.HandedOver → reply.announcesClose = false →
        (server.ReadsOn env conn ↔
          conn.reader.buffer ≠ [] ∨ 0 < server.limits.keepAliveTimeout) := by
      intro hupgraded hsilent
      exact Server.readsOn_iff (Server.handled_pos hturn (hopen hupgraded hsilent))
    refine ⟨fun hends => hstop ?_, hleft, fun hupgraded hends => ?_, fun hupgraded hsilent =>
      ⟨fun hafter => hnext (hopen hupgraded hsilent) hafter, hcalled, hreads hupgraded hsilent⟩⟩
    · by_cases hupgraded : turn.HandedOver
      · obtain ⟨exchange, reply', upgrade, stream, rfl⟩ := hupgraded
        rfl
      · rcases hends with ⟨rejection, rfl⟩ | hannounced
        · rfl
        · rw [Server.continues_eq hturn hreply hupgraded, hannounced]
          rfl
    · by_contra hneither
      rw [not_or, Bool.not_eq_true] at hneither
      obtain ⟨hsilent, hexception⟩ := hneither
      rcases hends with ⟨hafter, hnone⟩ | ⟨conn', hafter, hissued⟩
      · rw [hleft hupgraded hafter hnone] at hsilent
        cases hsilent
      · -- the reader is called again, and does not read on
        have hcall := hcalled _ _ _ hafter
        have hcond : conn.reader.buffer ≠ [] ∨ 0 < server.limits.keepAliveTimeout := by
          by_cases hbuffer : conn.reader.buffer = []
          · exact .inr (Nat.pos_of_ne_zero fun hzero => hexception ⟨hbuffer, hzero⟩)
          · exact .inl hbuffer
        exact Server.not_readsOn_of_ended hcall hissued ((hreads hupgraded hsilent).2 hcond)

/-- A server whose connections are not kept alive while nothing comes. -/
def impatientServer : Server Unit Unit :=
  { rootServer none with
    limits := { RequestLimits.default with keepAliveTimeout := 0 } }

/-- A request that does not ask to close the connection. -/
def plainRead : List Read := [⟨0, .ok (Utf8.encode "GET / HTTP/1.1\r\n\r\n".toList)⟩]

/-- With a keep-alive timeout of zero the code ends the connection straight behind a response that
does not announce it. -/
theorem run_impatient :
    ¬ ∀ (server : Server Unit Unit) (env : ℕ → Env Unit) (n now : ℕ) (reads : List Read)
      (before : List (Turn Unit Unit × Conn)) (turn : Turn Unit Unit) (conn : Conn)
      (after : List (Turn Unit Unit × Conn)) (reply : Reply),
      (server.run env n (.start now reads)).turns = before ++ (turn, conn) :: after →
      turn.reply? = some reply → ¬ turn.HandedOver →
      server.EndsBehind (server.run env n (.start now reads)) conn after →
      reply.announcesClose = true := by
  intro h
  have hrun : ((impatientServer.run (fun _ => constantEnv Response.new) 2
      (.start 0 plainRead)).turns.map fun turn =>
        (turn.1.reply?.map Reply.announcesClose, turn.1.answer?.isSome,
          (turn.2.reader.issued impatientServer.limits (0 < turn.2.handled)).length)) =
      [(some false, true, 0), (none, false, 0)] := by
    unfold plainRead
    rewrite [String.toList_ofList]
    decide
  obtain ⟨⟨first, conn⟩, rest, hturns, hfirst, hrest⟩ := List.map_eq_cons_iff.1 hrun
  obtain ⟨⟨second, conn'⟩, last, rfl, hsecond, hlast⟩ := List.map_eq_cons_iff.1 hrest
  obtain rfl := List.map_eq_nil_iff.1 hlast
  simp only [Prod.mk.injEq] at hfirst hsecond
  obtain ⟨hsilent, hanswer, hissued⟩ := hfirst
  obtain ⟨reply, hreply, hopen⟩ := Option.map_eq_some_iff.1 hsilent
  have hended : second = .ended := by
    cases second with
    | ended => rfl
    | _ => cases hsecond.1
  have hannounced := h impatientServer _ 2 0 plainRead [] first conn [(second, conn')] reply hturns
    hreply (by rintro ⟨_, _, _, _, rfl⟩; cases hanswer)
    (.inr ⟨conn', by rw [hended], List.length_eq_zero_iff.1 hissued⟩)
  rw [hopen] at hannounced
  cases hannounced

/-! ## What the client asks for -/

/-- A header line that asks to close the connection: a `Connection` field with a `close` token. -/
def closeLine (line : Str) : Bool :=
  match Str.splitOnce ':' line with
  | some entry => closeEntry entry
  | none => false

/-- The head of a framed request asks to close the connection. -/
def requestsClose (raw : Bytes) : Bool :=
  match position crlfcrlf raw with
  | none => false
  | some separator =>
    match Utf8.decode (raw.take separator) with
    | none => false
    | some head => (headerLines head).any closeLine

/-- White space in front of a value does not change what it asks for. -/
lemma closeEntry_trimStart (name value : Str) :
    closeEntry (name, Str.trimStart value) = closeEntry (name, value) := by
  have hany : ∀ s : Str, (s.splitOn ',').any (fun token =>
      Str.eqIgnoreAsciiCase (Str.trim token) "close".toList) =
        ((s.splitOn ',').map Str.trim).any fun token =>
          Str.eqIgnoreAsciiCase token "close".toList := by
    intro s
    rw [List.any_map]
    rfl
  simp only [closeEntry, hany,
    Str.map_trim_splitOn_trimStart (by decide : Str.isWhitespace ',' = false)]

/-- An accepted request wants the close that its head asks for. -/
lemma wantsClose_of_requestsClose {raw : Bytes} {routes : Routes H U} {request : Request}
    (hparse : parseRawOnly raw routes = .ok request) (hclose : requestsClose raw = true) :
    request.wantsClose = true := by
  unfold parseRawOnly at hparse
  unfold requestsClose at hclose
  cases hpos : position crlfcrlf raw with
  | none => simp [hpos] at hparse
  | some separator =>
    cases hhead : Utf8.decode (raw.take separator) with
    | none => simp [hpos, hhead] at hparse
    | some head =>
      simp only [hpos, hhead] at hparse hclose
      obtain ⟨-, -, -, -, -, -, -, -, -, rfl⟩ := parseHead_eq_ok_iff.1 hparse
      obtain ⟨line, hline, hasks⟩ := List.any_eq_true.1 hclose
      unfold closeLine at hasks
      cases hsplit : Str.splitOnce ':' line with
      | none => simp [hsplit] at hasks
      | some entry =>
        obtain ⟨name, value⟩ := entry
        simp only [hsplit] at hasks
        unfold Request.wantsClose
        rw [headersClose_eq_any]
        refine List.any_eq_true.2 ⟨(name, Str.trimStart value), ?_, ?_⟩
        · exact List.mem_filterMap.2 ⟨line, hline, by rw [hsplit]; rfl⟩
        · rw [closeEntry_trimStart]
          exact hasks

/-- A rejection has no headers. -/
lemma headers_of_parseRawOnly {raw : Bytes} {routes : Routes H U} {response : Response}
    (h : parseRawOnly raw routes = .error response) : response.headers = [] := by
  unfold parseRawOnly parseHead at h
  repeat' split at h
  all_goals
    cases h
    try rfl

/-- Routing leaves the headers of the request as they are. -/
lemma headers_route (env : Env H) (request : Request) (routes : Routes H U)
    (fileBases : List Str) :
    (request.route env routes fileBases).request.headers = request.headers := by
  unfold Request.route invoke
  repeat' split
  all_goals rfl

/-- The request line of a framed request has a known method, a target that is not too long and
the version that is served. -/
def AcceptableLine (raw : Bytes) : Prop :=
  ∃ separator head requestLine method path, position crlfcrlf raw = some separator ∧
    Utf8.decode (raw.take separator) = some head ∧
    (splitPair '\r' '\n' head).head? = some requestLine ∧
    Str.splitWhitespace requestLine = [method, path, httpVersion] ∧ method ∈ allowed ∧
    (Utf8.encode path).length ≤ maxUri

/-- A framed request is accepted when its request line is acceptable. -/
lemma exists_parseRawOnly_iff {raw : Bytes} (routes : Routes H U) :
    (∃ request, parseRawOnly raw routes = .ok request) ↔ AcceptableLine raw := by
  unfold AcceptableLine parseRawOnly
  cases hpos : position crlfcrlf raw with
  | none => simp
  | some separator =>
    cases hhead : Utf8.decode (raw.take separator) with
    | none => simp [hhead]
    | some head =>
      simp only [hhead, parseHead_eq_ok_iff]
      constructor
      · intro h
        obtain ⟨request, line, method, path, version, hline, hwords, hmethod, rfl, hpath, -⟩ := h
        refine ⟨separator, head, line, method, path, rfl, hhead, ?_, hwords, hmethod, hpath⟩
        rw [hline]
        rfl
      · intro h
        obtain ⟨_, _, line, method, path, hsep, hdecode, hline, hwords, hmethod, hpath⟩ := h
        cases hsep
        rw [hhead] at hdecode
        cases hdecode
        refine ⟨_, line, method, path, httpVersion, ?_, hwords, hmethod, rfl, hpath, rfl⟩
        unfold headerLines
        cases hlines : splitPair '\r' '\n' head with
        | nil => simp [hlines] at hline
        | cons first lines =>
          rw [hlines] at hline
          cases hline
          rfl

/-- The condition under which the close that a framed request asks for is announced: its request
line is acceptable, or it is the last one the connection may carry, or the response cannot be
written because of the policy. -/
def AcceptsClose (server : Server H U) (handled : ℕ) (raw : Bytes) : Prop :=
  AcceptableLine raw ∨ server.limits.maxRequests ≤ handled ∨
    (corsLines server.cors none).all validEntry = false

/-- A reply announces the close when it closes the connection or is replaced by the fallback. -/
lemma announcesClose_of_closes {server : Server H U} {routed : Routed H U} {response : Response}
    {close : Bool} (h : close = true ∨ (server.reply routed response close).valid = false) :
    (server.reply routed response close).announcesClose = true := by
  rcases h with h | h
  · exact Reply.announcesClose_of_close h
  · exact Reply.announcesClose_of_invalid h

/-- A rejected request is answered with a response without headers; the response announces the
close when the request is the last one the connection may carry, or when the policy cannot be
written. -/
lemma announcesClose_rejected_iff {server : Server H U} {handled : ℕ} {routed : Routed H U}
    {response : Response} {close : Bool} (hrequest : routed.request = Request.default)
    (hheaders : response.headers = [])
    (hdecision : close = server.closes handled routed response ∨
      (close = false ∧ (server.reply routed response close).valid = false)) :
    (server.reply routed response close).announcesClose = true ↔
      server.limits.maxRequests ≤ handled ∨
        (corsLines server.cors none).all validEntry = false := by
  have hvalid : (server.reply routed response close).valid =
      (corsLines server.cors none).all validEntry := by
    simp only [Reply.valid, Server.reply, headValid, hheaders, hrequest, List.all_nil,
      Bool.true_and]
    rfl
  have hcloses : server.closes handled routed response =
      decide (server.limits.maxRequests ≤ handled) := by
    unfold Server.closes
    rw [hheaders, hrequest]
    rfl
  rw [hcloses, hvalid] at hdecision
  constructor
  · intro hannounced
    by_contra hneither
    rw [not_or, Bool.not_eq_false] at hneither
    obtain ⟨hmore, hgood⟩ := hneither
    have hopen : close = false := by
      rcases hdecision with hlimit | ⟨hopen, -⟩
      · rw [hlimit, decide_eq_false hmore]
      · exact hopen
    have hsilent : (server.reply routed response close).announcesClose = false := by
      apply Reply.announcesClose_of_open
      · rw [hvalid, hgood]
      · exact hopen
      · show headersClose response.headers = false
        rw [hheaders]
        rfl
    rw [hsilent] at hannounced
    cases hannounced
  · intro hcondition
    apply announcesClose_of_closes
    rw [hvalid]
    rcases hcondition with hlimit | hbad
    · rcases hdecision with hdecision | ⟨-, hinvalid⟩
      · left
        rw [hdecision, decide_eq_true hlimit]
      · exact .inr hinvalid
    · exact .inr hbad

/-- The answer to a framed request that asks for the close announces it under that condition
only. -/
lemma announcesClose_iff {server : Server H U} {env : Env H} {handled : ℕ} {raw : Bytes}
    {stream : List Read} {exchange : Exchange H U} {reply : Reply}
    (hanswer : server.answer env handled raw
      (parseRaw env raw server.routes server.filesSources) stream = .answered exchange reply)
    (hclose : requestsClose raw = true) :
    reply.announcesClose = true ↔ AcceptsClose server handled raw := by
  generalize hrouted : parseRaw env raw server.routes server.filesSources = routed at hanswer
  rcases Server.answer_cases server env handled raw routed stream with
    ⟨upgrade, hupgraded, -⟩ | ⟨close, hcase, hdecision⟩
  · rw [hupgraded] at hanswer
    cases hanswer
  rw [hcase] at hanswer
  cases hanswer
  unfold AcceptsClose
  rw [← exists_parseRawOnly_iff server.routes]
  unfold parseRaw at hrouted
  cases hparse : parseRawOnly raw server.routes with
  | ok request =>
    simp only [hparse] at hrouted
    have hwants : routed.request.wantsClose = true := by
      have haccepted := wantsClose_of_requestsClose hparse hclose
      unfold Request.wantsClose at haccepted ⊢
      rw [← hrouted, headers_route]
      exact haccepted
    refine ⟨fun _ => .inl ⟨request, rfl⟩, fun _ => announcesClose_of_closes ?_⟩
    rcases hdecision with hcloses | ⟨-, hinvalid⟩
    · left
      rw [hcloses]
      simp only [Server.closes, hwants, Bool.true_or]
    · exact .inr hinvalid
  | error response =>
    simp only [hparse] at hrouted
    have hresponse : (server.respond env raw routed).response = response := by
      rw [← hrouted]
      rfl
    have hrequest : routed.request = Request.default := by
      rw [← hrouted]
    rw [hresponse] at hdecision ⊢
    rw [announcesClose_rejected_iff hrequest (headers_of_parseRawOnly hparse) hdecision]
    simp

/-- **When the close that a client asks for is honoured.** In every run, a framed request whose
head asks to close the connection, and which is not handed over, is the last one and its
response announces the close, exactly when its request line is acceptable, or it is the last one
the connection may carry, or the response cannot be written because of the policy.

**Proof sketch.** An accepted request keeps its headers, and the loop reads the wish from them.
A rejected one is replaced by the default request, which wants nothing, and its response has no
headers; then only the count of requests and the fallback close the connection. -/
theorem closeHonoured_iff {server : Server H U} {env : ℕ → Env H} {n now : ℕ} {reads : List Read}
    {before after : List (Turn H U × Conn)} {exchange : Exchange H U} {reply : Reply} {conn : Conn}
    (hturns : (server.run env n (.start now reads)).turns =
      before ++ (.answered exchange reply, conn) :: after)
    (hclose : requestsClose exchange.raw = true) :
    (reply.announcesClose = true ∧ after = [] ∧
        (server.run env n (.start now reads)).next = none) ↔
      AcceptsClose server (before.length + 1) exchange.raw := by
  obtain ⟨conn₀, hhandled, hturn⟩ := Server.run_turn hturns
  have hcontinues := Server.continues_eq hturn rfl (by rintro ⟨_, _, _, _, h⟩; cases h)
  rcases Server.turn_cases hturn with ⟨h, -⟩ | ⟨response, h, -⟩ | ⟨raw, -, hnext, hanswer⟩
  · cases h
  · cases h
  obtain rfl : exchange.raw = raw := by
    have hraw := Server.raw?_answer server (env conn₀.handled) conn.handled raw
      (parseRaw (env conn₀.handled) raw server.routes server.filesSources) conn.reader.reads
    rw [← hanswer] at hraw
    exact Option.some.inj hraw
  rw [hhandled] at hnext
  rw [← hnext, ← announcesClose_iff hanswer.symm hclose]
  constructor
  · intro h
    exact h.1
  · intro hannounced
    refine ⟨hannounced, (Loop.run_spec hturns).1 ?_⟩
    rw [hcontinues, hannounced]
    rfl

/-- A run of one turn, which answers. -/
lemma Turn.exists_answer {α : Type} {turns : List (Turn H U × Conn)} {f : Exchange H U × Reply → α}
    {a : α} (h : (turns.map fun turn => turn.1.answer?.map f) = [some a]) :
    ∃ exchange reply conn, turns = [(.answered exchange reply, conn)] ∧
      f (exchange, reply) = a := by
  obtain ⟨⟨turn, conn⟩, rfl⟩ : ∃ turn, turns = [turn] :=
    List.length_eq_one_iff.1 (by simpa using congrArg List.length h)
  have hturn : turn.answer?.map f = some a := (List.cons.inj h).1
  cases turn with
  | answered exchange reply => exact ⟨exchange, reply, conn, rfl, Option.some.inj hturn⟩
  | _ => cases hturn

/-- A client that asks to close the connection, with a request line that is accepted or not, and
sends one more request. -/
def closingRead (method : String) : List Read :=
  [⟨0, .ok (Utf8.encode (method.toList ++
    " / HTTP/1.1\r\nConnection: close\r\n\r\nGET / HTTP/1.1\r\n\r\n".toList))⟩]

/-- A request that is accepted and asks to close: the equivalence applies to its turn. -/
theorem closeHonoured_iff_get :
    ∃ exchange reply conn,
      ((rootServer none).run (fun _ => constantEnv Response.new) 2
          (.start 0 (closingRead "GET"))).turns = [(.answered exchange reply, conn)] ∧
        requestsClose exchange.raw = true ∧
        ((reply.announcesClose = true ∧ ([] : List (Turn Unit Unit × Conn)) = [] ∧
            ((rootServer none).run (fun _ => constantEnv Response.new) 2
              (.start 0 (closingRead "GET"))).next = none) ↔
          AcceptsClose (rootServer none) 1 exchange.raw) := by
  have hrun : (((rootServer none).run (fun _ => constantEnv Response.new) 2
      (.start 0 (closingRead "GET"))).turns.map fun turn =>
        turn.1.answer?.map fun answer => requestsClose answer.1.raw) = [some true] := by
    unfold closingRead
    rewrite [String.toList_ofList, String.toList_ofList]
    decide
  obtain ⟨exchange, reply, conn, hturns, hclose⟩ := Turn.exists_answer hrun
  have hhonoured := closeHonoured_iff
    (hturns.trans (List.nil_append [(Turn.answered exchange reply, conn)]).symm) hclose
  exact ⟨exchange, reply, conn, hturns, hclose, hhonoured⟩

/-- The code answers a rejected request that asks for the close without announcing it, and
dispatches the next request. -/
theorem closingRead_not_honoured :
    (((rootServer none).run (fun _ => constantEnv Response.new) 2
      (.start 0 (closingRead "FOO"))).turns.map fun turn =>
        turn.1.answer?.map fun answer =>
          (requestsClose answer.1.raw, answer.2.status, answer.2.announcesClose,
            answer.1.invoked.length)) =
      [some (true, .methodNotAllowed, false, 0), some (false, .notFound, false, 1)] := by
  unfold closingRead
  rewrite [String.toList_ofList, String.toList_ofList]
  decide

end Httpageboy
