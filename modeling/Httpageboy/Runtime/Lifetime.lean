import Httpageboy.Runtime.CloseDiscipline
import Httpageboy.Runtime.Deadline
import Httpageboy.Runtime.Memory

set_option relaxedAutoImplicit false
set_option autoImplicit false

/-!
# The lifetime of a connection

No client can hold a connection for ever by what it sends, or by sending nothing. Every call of
the reader returns after a bounded number of reads, because each of them delivers a byte and an
incomplete request is bounded, and after a bounded time, because of the deadlines. The loop makes a
bounded number of calls. Only reads have a timeout: a write to a client that does not read, a
handler and an upgrade handler may last for as long as they like, and are taken to return here.

## Main definitions

* `Httpageboy.turnTime` — the bound on the time of one iteration.
* `Httpageboy.lifetime` — the bound on the time of a connection.

## Main results

* `Httpageboy.now_readRequest_le` — a call of the reader returns after a bounded time.
* `Httpageboy.connection_ends` — every connection ends, after bounded reads and in bounded time.
-/

namespace Httpageboy

variable {H U : Type}

/-! ## One call of the reader -/

/-- The clock behind a call, when the request has not started in front of it. -/
def turnTime (limits : RequestLimits) (handled : ℕ) : ℕ :=
  firstWait limits (0 < handled) + limits.requestTimeout

/-- A call of the reader takes no longer than the wait for the first byte and the time for the
request. -/
lemma now_readRequest_le {limits : RequestLimits} {handled : ℕ} {reader reader' : Reader}
    {outcome : StreamRead Bytes}
    (h : readRequest limits (0 < handled) reader = some (outcome, reader')) :
    reader'.now ≤ reader.now + turnTime limits handled := by
  have hrun := readRequest_run limits (0 < handled) reader
  rw [hrun.now_eq h]
  unfold turnTime
  by_cases hempty : reader.buffer = []
  · rw [if_pos hempty] at hrun
    have htotal := hrun.totalTime_le
    omega
  · rw [if_neg hempty] at hrun
    have htotal := hrun.totalTime_le_of_started rfl le_rfl
    omega

/-! ## One iteration -/

namespace Server

variable {server : Server H U} {env : ℕ → Env H}

/-- An iteration that finds enough reads comes to an end, and leaves all but a bounded number of
them. -/
lemma exists_turn (hlimits : server.limits.headerBytes < usizeMax ∧
    server.limits.bodyBytes < usizeMax) {conn : Conn}
    (hreads : turnReads server.limits ≤ conn.reader.reads.length) :
    ∃ turn conn', server.turn env conn = some (turn, conn') ∧
      conn.reader.reads.length ≤ conn'.reader.reads.length + turnReads server.limits := by
  obtain ⟨outcome, reader, hread, hleft⟩ :=
    (readRequest_run server.limits (0 < conn.handled) conn.reader).returns hlimits (by omega)
  have hturn : ∃ turn handled, server.turn env conn = some (turn, ⟨reader, handled⟩) := by
    unfold Server.turn parseStream
    rw [hread]
    cases outcome <;> exact ⟨_, _, rfl⟩
  obtain ⟨turn, handled, hturn⟩ := hturn
  exact ⟨turn, _, hturn, by simp only; omega⟩

end Server

/-! ## Connections -/

/-- The time of a connection that carries `m` requests: the first one may be waited for as long as
for a byte of it, and the others as long as the connection is kept alive. -/
def lifetime (limits : RequestLimits) (m : ℕ) : ℕ :=
  limits.idleTimeout + limits.requestTimeout +
    (m - 1) * (limits.keepAliveTimeout + limits.requestTimeout)

/-- The time of one more request. -/
lemma lifetime_succ (limits : RequestLimits) (m : ℕ) :
    lifetime limits (m + 1) = (if m = 0 then 0 else lifetime limits m) + turnTime limits m := by
  unfold lifetime turnTime firstWait
  cases m with
  | zero => simp
  | succ m =>
    simp only [Nat.succ_ne_zero, if_false, Nat.zero_lt_succ, decide_true, if_true,
      Nat.add_sub_cancel]
    rw [Nat.succ_mul]
    omega

namespace Server

variable {server : Server H U} {env : ℕ → Env H}

/-- When the reads are enough for all requests that the loop may still handle, so are those behind
an iteration that it goes on behind. -/
lemma reads_of_turn (hlimits : server.limits.headerBytes < usizeMax ∧
    server.limits.bodyBytes < usizeMax) {conn conn' : Conn} {turn : Turn H U}
    (hreads : max 1 (server.limits.maxRequests - conn.handled) * turnReads server.limits ≤
      conn.reader.reads.length)
    (hturn : server.turn env conn = some (turn, conn')) (hcont : turn.continues = true) :
    max 1 (server.limits.maxRequests - conn'.handled) * turnReads server.limits ≤
      conn'.reader.reads.length := by
  have hone : turnReads server.limits ≤ conn.reader.reads.length :=
    le_trans (Nat.le_mul_of_pos_left _ (by omega)) hreads
  obtain ⟨turn', conn'', hturn', hleft⟩ := @exists_turn _ _ server env hlimits _ hone
  obtain ⟨-, rfl⟩ := Prod.mk.inj (Option.some.inj (hturn.symm.trans hturn'))
  obtain ⟨hlt, hpos⟩ := rank_lt hturn hcont
  have hmore : (max 1 (server.limits.maxRequests - conn'.handled) + 1) *
      turnReads server.limits ≤ conn.reader.reads.length :=
    le_trans (Nat.mul_le_mul_right _ (by omega)) hreads
  rw [Nat.succ_mul] at hmore
  omega

/-- A loop that finds enough reads for all requests it may still handle is left.

**Proof sketch.** Induction on the turns. Every iteration comes to an end with its reads, and one
behind which the loop goes on uses up one of the requests and leaves some. -/
lemma next_run_eq_none (hlimits : server.limits.headerBytes < usizeMax ∧
    server.limits.bodyBytes < usizeMax) {n : ℕ} {conn : Conn}
    (hn : max 1 (server.limits.maxRequests - conn.handled) ≤ n)
    (hreads : max 1 (server.limits.maxRequests - conn.handled) * turnReads server.limits ≤
      conn.reader.reads.length) : (server.run env n conn).next = none := by
  induction n generalizing conn with
  | zero => omega
  | succ n ih =>
    have hone : turnReads server.limits ≤ conn.reader.reads.length :=
      le_trans (Nat.le_mul_of_pos_left _ (by omega)) hreads
    have hturn : ∃ turn conn', server.turn env conn = some (turn, conn') ∧
        conn.reader.reads.length ≤ conn'.reader.reads.length + turnReads server.limits :=
      exists_turn hlimits hone
    obtain ⟨turn, conn', hturn, -⟩ := hturn
    have hrun : server.run env (n + 1) conn =
        if turn.continues then .cons (turn, conn') (server.run env n conn')
        else ⟨[(turn, conn')], none⟩ := by
      show Loop.run _ _ (n + 1) conn = _
      rw [Loop.run, hturn]
      rfl
    rw [hrun]
    cases hcont : turn.continues with
    | false => rfl
    | true =>
      obtain ⟨hlt, hpos⟩ := rank_lt hturn hcont
      exact ih (by omega) (reads_of_turn hlimits hreads hturn hcont)

end Server

/-- More requests take more time. -/
lemma lifetime_mono (limits : RequestLimits) {m m' : ℕ} (h : m ≤ m') :
    lifetime limits m ≤ lifetime limits m' :=
  Nat.add_le_add_left (Nat.mul_le_mul_right _ (Nat.sub_le_sub_right h 1)) _

/-- A connection at the head of the loop: it has handled one request in every turn, within the
lifetime of these requests. -/
def Paced (limits : RequestLimits) (now : ℕ) (past : List (Turn H U × Conn)) (conn : Conn) : Prop :=
  conn.handled = past.length ∧
    conn.reader.now ≤ now + if past.length = 0 then 0 else lifetime limits past.length

/-- An iteration keeps within the lifetime of one more request. -/
lemma Paced.now_le {server : Server H U} {env : ℕ → Env H} {now : ℕ}
    {past : List (Turn H U × Conn)} {conn conn' : Conn} {turn : Turn H U}
    (h : Paced server.limits now past conn) (hturn : server.turn env conn = some (turn, conn')) :
    conn'.reader.now ≤ now + lifetime server.limits (past.length + 1) := by
  obtain ⟨hhandled, hnow⟩ := h
  obtain ⟨outcome, hread⟩ := Server.exists_readRequest hturn
  have hle := now_readRequest_le hread
  rw [hhandled] at hle
  rw [lifetime_succ]
  omega

/-- The clock behind a turn of a run: the turns in front of it have carried one request each. -/
lemma now_of_mem_run {server : Server H U} {env : ℕ → Env H} {n now : ℕ} {reads : List Read}
    {before after : List (Turn H U × Conn)} {turn : Turn H U} {conn : Conn}
    (hturns : (server.run env n (.start now reads)).turns = before ++ (turn, conn) :: after) :
    conn.reader.now ≤ now + lifetime server.limits (before.length + 1) := by
  have hbody : ∀ (past : List (Turn H U × Conn)) (conn : Conn) turn conn',
      Paced server.limits now past conn → server.turn env conn = some (turn, conn') →
      turn.continues = true → Paced server.limits now (past ++ [(turn, conn')]) conn' := by
    intro past conn turn conn' hpaced hturn hcont
    have hnow := hpaced.now_le hturn
    unfold Paced
    rw [List.length_append, List.length_singleton, if_neg (Nat.succ_ne_zero _)]
    refine ⟨?_, hnow⟩
    rcases Server.turn_cases hturn with ⟨rfl, -⟩ | ⟨response, rfl, -⟩ | ⟨raw, -, hhandled, -⟩
    · cases hcont
    · cases hcont
    · rw [hhandled, hpaced.1]
  have hstart : Paced server.limits now ([] : List (Turn H U × Conn)) (.start now reads) :=
    ⟨rfl, Nat.le_refl now⟩
  obtain ⟨conn₀, hpaced, hturn⟩ := Loop.run_history hbody hstart hturns
  exact hpaced.now_le hturn

/-- **Every connection ends**, whatever the client sends and however slowly, as far as the writes,
the handlers and the upgrade handlers return. In every run the time spent in reads stays within the
lifetime of a connection that carries as many requests as it may. When the limits are below the
largest machine word, the loop is left after a bounded number of reads.

**Proof sketch.** An iteration takes a bounded time and a bounded number of reads
(`now_readRequest_le`, `ReaderRun.returns`), and there are no more of them than requests the
connection may carry. -/
theorem connection_ends (server : Server H U) (env : ℕ → Env H) (n now : ℕ) (reads : List Read) :
    (∀ turn ∈ (server.run env n (.start now reads)).turns,
      turn.2.reader.now ≤ now + lifetime server.limits (max 1 server.limits.maxRequests)) ∧
    (server.limits.headerBytes < usizeMax ∧ server.limits.bodyBytes < usizeMax →
      max 1 server.limits.maxRequests ≤ n →
      max 1 server.limits.maxRequests * turnReads server.limits ≤ reads.length →
      (server.run env n (.start now reads)).next = none) := by
  constructor
  · rintro ⟨turn, conn⟩ hmem
    obtain ⟨before, after, hturns⟩ := List.append_of_mem hmem
    have hrank : ∀ conn turn conn', server.turn env conn = some (turn, conn') →
        turn.continues = true →
        server.limits.maxRequests - conn'.handled < server.limits.maxRequests - conn.handled ∧
          0 < server.limits.maxRequests - conn'.handled :=
      fun conn turn conn' h hcont => Server.rank_lt h hcont
    have hlength : (server.run env n (.start now reads)).turns.length ≤
        max 1 server.limits.maxRequests := Loop.run_length hrank n (.start now reads)
    rw [hturns, List.length_append, List.length_cons] at hlength
    refine (now_of_mem_run hturns).trans (Nat.add_le_add_left (lifetime_mono _ ?_) _)
    omega
  · intro hlimits hn hreads
    exact Server.next_run_eq_none hlimits hn hreads

/-- A server that carries two requests of eight bytes a connection. -/
def smallServer : Server Unit Unit :=
  { rootServer none with
    limits := { RequestLimits.default with headerBytes := 8, bodyBytes := 0, maxRequests := 2 } }

/-- A client that sends one byte after the other. -/
theorem connection_ends_small :
    (smallServer.run (fun _ => constantEnv Response.new) 2
      (.start 0 (List.replicate 66 ⟨5, .ok [71]⟩))).next = none :=
  (connection_ends smallServer (fun _ => constantEnv Response.new) 2 0 _).2 (by decide) (by decide)
    (by rw [List.length_replicate]; decide)

end Httpageboy
