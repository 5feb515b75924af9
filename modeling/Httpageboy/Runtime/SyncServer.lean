import Httpageboy.Runtime.Accept
import Httpageboy.Runtime.PoolLedger

set_option relaxedAutoImplicit false
set_option autoImplicit false

/-!
# The synchronous server as a whole

`Server::run_until_shutdown` with the thread pool behind it, as a transition system. Its thread
polls for the signal, accepts without blocking, passes each stream to `handle_stream`, which gives
the pool one job, and calls `stop` when the signal has come. Clients connect, `accept` fails and
the signal is sent at any time, and the workers take their steps in between. The jobs are the
streams, and a predicate says for which of them a handler panics.

The calls of the pool are the continuation of the thread of the server: it goes on when none is
left. The lock around the pool is never poisoned, because only this thread takes it.

## Main definitions

* `Httpageboy.SyncServer` — the thread of the server, its listener and its pool.
* `Httpageboy.SyncServer.Step` — a step of the server or of a worker.
* `Httpageboy.SyncServer.Event` — a client, a failure, or the signal.

## Main results

* `Httpageboy.SyncServer.refines` — the pool of the server is a pool that is given the accepted
  streams, and no others.
* `Httpageboy.SyncServer.shutdown_graceful` — what the server does in every run, and how it ends.
-/

namespace Httpageboy

/-- Where the thread of `run_until_shutdown` is: in front of `try_recv`, in front of `accept`, or
in `stop`. -/
inductive Phase where
  | polling
  | accepting
  | stopping
  deriving DecidableEq, Repr

/-- A server with `n` workers. The backlog holds the outcomes of `accept` to come; `accept` would
block when there is none. `signals` is the number of messages of `shutdown_rx`. The last field
keeps account of the outcomes that `accept` has returned. -/
structure SyncServer (n : ℕ) (E S : Type) where
  pool : ThreadPool n S
  phase : Phase
  backlog : List (Accepted E S)
  signals : ℕ
  outcomes : List (Accepted E S)

namespace SyncServer

variable {n : ℕ} {E S : Type} {panics : S → Prop} {server server' : SyncServer n E S}

/-- The streams that were accepted, in order. -/
def accepted (server : SyncServer n E S) : List S := server.outcomes.filterMap Except.toOption

/-- An outcome with a stream. -/
lemma filterMap_ok (outcomes : List (Accepted E S)) (stream : S) :
    (outcomes ++ [Except.ok stream]).filterMap Except.toOption =
      outcomes.filterMap Except.toOption ++ [stream] := List.filterMap_append

/-- An outcome without a stream. -/
lemma filterMap_error (outcomes : List (Accepted E S)) (error : E) :
    (outcomes ++ [Except.error error]).filterMap Except.toOption =
      outcomes.filterMap Except.toOption := by
  rw [List.filterMap_append, List.filterMap_cons_none (by rfl), List.filterMap_nil,
    List.append_nil]

/-- `Server::new`, with a pool that has nothing to do. -/
def start (n : ℕ) (E S : Type) : SyncServer n E S where
  pool := { ThreadPool.start n [] with calls := [] }
  phase := .polling
  backlog := []
  signals := 0
  outcomes := []

/-- One step of the server or of a worker. -/
inductive Step (panics : S → Prop) (server : SyncServer n E S) : SyncServer n E S → Prop
  /-- `try_recv` finds no message. -/
  | poll (hphase : server.phase = .polling) (hcalls : server.pool.calls = [])
      (hsignals : server.signals = 0) :
      Step panics server { server with phase := .accepting }
  /-- `try_recv` finds a message: the loop is left, and `stop` is called. The calls behind it are
  those of the `Drop` of the pool. -/
  | leave {signals : ℕ} (hphase : server.phase = .polling) (hcalls : server.pool.calls = [])
      (hsignals : server.signals = signals + 1) :
      Step panics server
        { server with
          phase := .stopping
          signals := signals
          pool := { server.pool with calls := ThreadPool.stop n ++ ThreadPool.stop n } }
  /-- `accept` returns a stream, which is passed to `handle_stream`. -/
  | accept {stream : S} {backlog : List (Accepted E S)} (hphase : server.phase = .accepting)
      (hbacklog : server.backlog = .ok stream :: backlog) :
      Step panics server
        { server with
          phase := .polling
          backlog := backlog
          outcomes := server.outcomes ++ [.ok stream]
          pool := { server.pool with calls := ThreadPool.run stream } }
  /-- `accept` returns an error, which is ignored. -/
  | acceptFailed {error : E} {backlog : List (Accepted E S)} (hphase : server.phase = .accepting)
      (hbacklog : server.backlog = .error error :: backlog) :
      Step panics server
        { server with
          phase := .polling
          backlog := backlog
          outcomes := server.outcomes ++ [.error error] }
  /-- `accept` would block, and the thread sleeps for a moment. -/
  | wouldBlock (hphase : server.phase = .accepting) (hbacklog : server.backlog = []) :
      Step panics server { server with phase := .polling }
  /-- A call of the pool, or a step of a worker. -/
  | pool {pool : ThreadPool n S} (hpool : ThreadPool.Step panics server.pool pool) :
      Step panics server { server with pool := pool }

/-- What happens around the server: there is something to accept, or the signal is sent. -/
inductive Event (server : SyncServer n E S) : SyncServer n E S → Prop
  | arrive (outcome : Accepted E S) :
      Event server { server with backlog := server.backlog ++ [outcome] }
  | signal : Event server { server with signals := server.signals + 1 }

/-- Something happens, in or around the server. -/
def Next (panics : S → Prop) (server server' : SyncServer n E S) : Prop :=
  server.Step panics server' ∨ server.Event server'

/-- `run_until_shutdown` has returned. -/
def Returned (server : SyncServer n E S) : Prop :=
  server.phase = .stopping ∧ server.pool.StopReturned

/-! ## The pool of the server -/

/-- A pool that has more calls to make behind its own. -/
def withCalls (pool : ThreadPool n S) (calls : List (Call n S)) : ThreadPool n S :=
  { pool with calls := pool.calls ++ calls }

/-- The steps of a pool do not depend on the calls behind its own. -/
lemma step_withCalls {pool pool' : ThreadPool n S} (h : ThreadPool.Step panics pool pool')
    (calls : List (Call n S)) :
    ThreadPool.Step panics (withCalls pool calls) (withCalls pool' calls) := by
  have hfront : ∀ {call : Call n S} {rest : List (Call n S)}, pool.calls = call :: rest →
      (withCalls pool calls).calls = call :: (rest ++ calls) := by
    intro call rest hcalls
    show pool.calls ++ calls = _
    rw [hcalls]
    rfl
  cases h with
  | send hcalls hopen => exact .send (hfront hcalls) hopen
  | sendFailed hcalls hclosed => exact .sendFailed (hfront hcalls) hclosed
  | join hcalls hthread hended => exact .join (hfront hcalls) hthread hended
  | joinTaken hcalls hthread => exact .joinTaken (hfront hcalls) hthread
  | lock hw hfree => exact .lock hw hfree
  | recvJob hw hqueue => exact .recvJob hw hqueue
  | recvTerminate hw hqueue => exact .recvTerminate hw hqueue
  | finish hw hok => exact .finish hw hok
  | panic hw hpanics => exact .panic hw hpanics

/-- A pool without a call makes the calls behind its own. -/
lemma withCalls_of_nil {pool : ThreadPool n S} (hcalls : pool.calls = [])
    (calls : List (Call n S)) : withCalls pool calls = { pool with calls := calls } := by
  unfold withCalls
  rw [hcalls, List.nil_append]

/-- A step makes at most one call. -/
lemma calls_of_step {pool pool' : ThreadPool n S} (h : ThreadPool.Step panics pool pool') :
    pool'.calls = pool.calls ∨ ∃ call, pool.calls = call :: pool'.calls := by
  cases h with
  | send hcalls | sendFailed hcalls | join hcalls | joinTaken hcalls => exact .inr ⟨_, hcalls⟩
  | _ => exact .inl rfl

/-- The pool of the server is one that is given the accepted streams. While the loop goes on,
nothing has been fixed about the streams to come: whatever they are, the pool has got as far as one
that will be given them too. -/
structure Refines (panics : S → Prop) (server : SyncServer n E S) : Prop where
  stopping : server.phase = .stopping →
    System.Reachable (ThreadPool.Step panics) (ThreadPool.start n server.accepted) server.pool
  serving : server.phase ≠ .stopping → ∀ later : List S,
    System.Reachable (ThreadPool.Step panics) (ThreadPool.start n (server.accepted ++ later))
      (withCalls server.pool
        (later.flatMap ThreadPool.run ++ ThreadPool.stop n ++ ThreadPool.stop n))
  calls : server.phase ≠ .stopping → server.pool.calls = [] ∨
    server.phase = .polling ∧ ∃ stream, server.pool.calls = ThreadPool.run stream

/-- A server that leaves its loop has a pool that will be given no other stream. -/
lemma Refines.leave (h : server.Refines panics) (hphase : server.phase = .polling)
    (hcalls : server.pool.calls = []) {signals : ℕ} :
    Refines panics
      { server with
        phase := .stopping
        signals := signals
        pool := { server.pool with calls := ThreadPool.stop n ++ ThreadPool.stop n } } := by
  refine ⟨fun _ => ?_, fun hne => absurd rfl hne, fun hne => absurd rfl hne⟩
  have hserving := h.serving (by rw [hphase]; nofun) []
  rw [withCalls_of_nil hcalls, List.append_nil] at hserving
  exact hserving

/-- A server that accepts a stream has a pool to which this stream comes first. -/
lemma Refines.accept (h : server.Refines panics) (hphase : server.phase = .accepting)
    {stream : S} {backlog : List (Accepted E S)} :
    Refines panics
      { server with
        phase := .polling
        backlog := backlog
        outcomes := server.outcomes ++ [.ok stream]
        pool := { server.pool with calls := ThreadPool.run stream } } := by
  have hserving : server.phase ≠ .stopping := by rw [hphase]; nofun
  have hcalls : server.pool.calls = [] := by
    rcases h.calls hserving with hnil | ⟨hpolling, -⟩
    · exact hnil
    · rw [hphase] at hpolling
      cases hpolling
  refine ⟨nofun, fun _ later => ?_, fun _ => .inr ⟨rfl, stream, rfl⟩⟩
  have hnext := h.serving hserving (stream :: later)
  rw [withCalls_of_nil hcalls] at hnext
  unfold accepted
  rw [filterMap_ok, List.append_assoc]
  exact hnext

/-- A step of the pool. -/
lemma Refines.pool (h : server.Refines panics) {pool : ThreadPool n S}
    (hpool : ThreadPool.Step panics server.pool pool) :
    Refines panics { server with pool := pool } := by
  refine ⟨fun hphase => (h.stopping hphase).next hpool,
    fun hphase later => (h.serving hphase later).next (step_withCalls hpool _), fun hphase => ?_⟩
  show pool.calls = [] ∨ server.phase = .polling ∧ ∃ stream, pool.calls = ThreadPool.run stream
  rcases calls_of_step hpool with hsame | ⟨call, hcall⟩
  · rw [hsame]
    exact h.calls hphase
  · refine .inl ?_
    rcases h.calls hphase with hnil | ⟨-, stream, hrun⟩
    · rw [hnil] at hcall
      cases hcall
    · rw [hrun] at hcall
      exact (List.cons.inj hcall).2.symm

/-- Whatever happens, the server keeps to its pool. -/
lemma Refines.next (h : server.Refines panics) (hnext : Next panics server server') :
    server'.Refines panics := by
  rcases hnext with hstep | hevent
  · cases hstep with
    | poll hphase hcalls =>
      have hserving : server.phase ≠ .stopping := by rw [hphase]; nofun
      exact ⟨nofun, fun _ => h.serving hserving, fun _ => .inl hcalls⟩
    | leave hphase hcalls => exact h.leave hphase hcalls
    | accept hphase => exact h.accept hphase
    | acceptFailed hphase =>
      have hserving : server.phase ≠ .stopping := by rw [hphase]; nofun
      refine ⟨nofun, fun _ later => ?_, fun _ => (h.calls hserving).imp_right ?_⟩
      · unfold accepted
        rw [filterMap_error]
        exact h.serving hserving later
      · exact fun hpolling => ⟨rfl, hpolling.2⟩
    | wouldBlock hphase =>
      have hserving : server.phase ≠ .stopping := by rw [hphase]; nofun
      exact ⟨nofun, fun _ => h.serving hserving,
        fun _ => (h.calls hserving).imp_right fun hpolling => ⟨rfl, hpolling.2⟩⟩
    | pool hpool => exact h.pool hpool
  · cases hevent with
    | arrive outcome => exact ⟨h.stopping, h.serving, h.calls⟩
    | signal => exact ⟨h.stopping, h.serving, h.calls⟩

/-- **The server refines the pool.** In every run, the pool of the server has come to where a pool
comes that is given the accepted streams, and those still to come.

**Proof sketch.** Induction on the run, for all lists of streams to come at once: the one that is
accepted is the first of those that were to come. -/
theorem refines (h : System.Reachable (Next panics) (start n E S) server) :
    server.Refines panics := by
  refine h.invariant (I := fun other => other.Refines panics) ?_ fun _ _ hother => hother.next
  exact ⟨nofun, fun _ later => .refl _, fun _ => .inl rfl⟩

/-! ## The end of the loop -/

/-- **The server does not get stuck.** -/
lemma Refines.progress (h : server.Refines panics) :
    server.Returned ∨ ∃ server', server.Step panics server' := by
  cases hphase : server.phase with
  | stopping =>
    obtain ⟨received, hledger⟩ := ThreadPool.exists_ledger (h.stopping hphase)
    rcases hledger.progress with hreturned | ⟨pool, hpool⟩
    · exact .inl ⟨hphase, hreturned⟩
    · exact .inr ⟨_, .pool hpool⟩
  | polling =>
    refine .inr ?_
    rcases h.calls (by rw [hphase]; nofun) with hnil | ⟨-, stream, hrun⟩
    · cases hsignals : server.signals with
      | zero => exact ⟨_, .poll hphase hnil hsignals⟩
      | succ signals => exact ⟨_, .leave hphase hnil hsignals⟩
    · by_cases hopen : server.pool.Connected
      · exact ⟨_, .pool (.send hrun hopen)⟩
      · exact ⟨_, .pool (.sendFailed hrun hopen)⟩
  | accepting =>
    refine .inr ?_
    cases hbacklog : server.backlog with
    | nil => exact ⟨_, .wouldBlock hphase hbacklog⟩
    | cons outcome backlog =>
      cases outcome with
      | ok stream => exact ⟨_, .accept hphase hbacklog⟩
      | error error => exact ⟨_, .acceptFailed hphase hbacklog⟩

/-- What is left to do for a server that has been sent the signal: it accepts one more stream at
most before it sees the signal, and then makes the calls of two `stop`s. -/
def remaining (server : SyncServer n E S) : ℕ :=
  server.pool.remaining +
    match server.phase with
    | .polling => 16 * n + 1
    | .accepting => 16 * n + 6
    | .stopping => 0

/-- Every step uses up something, once the signal has been sent. -/
lemma Step.remaining_lt (h : server.Step panics server')
    (hsignal : server.phase ≠ .stopping → 0 < server.signals) :
    server'.remaining < server.remaining := by
  unfold remaining
  cases h with
  | poll hphase _ hsignals =>
    have hpos := hsignal (by rw [hphase]; nofun)
    omega
  | leave hphase hcalls =>
    rw [hphase]
    unfold ThreadPool.remaining
    simp only [hcalls, List.length_append, ThreadPool.length_stop, List.length_nil]
    omega
  | accept hphase =>
    rw [hphase]
    unfold ThreadPool.remaining
    simp only [ThreadPool.run, List.length_cons, List.length_nil]
    omega
  | acceptFailed hphase =>
    rw [hphase]
    simp only
    omega
  | wouldBlock hphase =>
    rw [hphase]
    simp only
    omega
  | pool hpool => exact Nat.add_lt_add_right hpool.remaining_lt _

/-- A signal that was sent stays there until the loop is left. -/
lemma Next.signalled (h : Next panics server server')
    (hsignal : server.phase ≠ .stopping → 0 < server.signals) :
    server'.phase ≠ .stopping → 0 < server'.signals := by
  intro hne
  rcases h with hstep | hevent
  · cases hstep with
    | poll hphase => exact hsignal (by rw [hphase]; nofun)
    | leave => exact absurd rfl hne
    | accept hphase => exact hsignal (by rw [hphase]; nofun)
    | acceptFailed hphase => exact hsignal (by rw [hphase]; nofun)
    | wouldBlock hphase => exact hsignal (by rw [hphase]; nofun)
    | pool => exact hsignal hne
  · cases hevent with
    | arrive => exact hsignal hne
    | signal => exact Nat.succ_pos _

/-- **The server returns** once the signal has been sent, whatever happens around it. -/
theorem returns_amid (h : server.Refines panics)
    (hsignal : 0 < server.signals) :
    System.InevitableAmid (Step panics) Event Returned server := by
  apply System.inevitableAmid_of_rank (I := fun other => other.Refines panics ∧
    (other.phase ≠ .stopping → 0 < other.signals)) remaining
  · intro s t hs hstep
    have hnext : Next panics s t := .inl hstep
    exact ⟨hs.1.next hnext, hnext.signalled hs.2⟩
  · intro s t hs hevent
    have hnext : Next panics s t := .inr hevent
    exact ⟨hs.1.next hnext, hnext.signalled hs.2⟩
  · exact fun s hs => hs.1.progress
  · exact fun s t hs _ hstep => hstep.remaining_lt hs.2
  · intro s t _ hevent
    cases hevent <;> exact le_rfl
  · exact ⟨h, fun _ => hsignal⟩

/-- **At most one stream is accepted** behind the signal: the one of an `accept` in front of which
the thread was when the signal was sent. -/
lemma accepted_of_signalled {later : SyncServer n E S} (hsignal : 0 < server.signals)
    (h : System.Reachable (Next panics) server later) :
    later.accepted = server.accepted ∨
      ∃ stream, later.accepted = server.accepted ++ [stream] := by
  have hall : (later.phase ≠ .stopping → 0 < later.signals) ∧
      (later.phase = .accepting → later.accepted = server.accepted) ∧
      (later.accepted = server.accepted ∨
        ∃ stream, later.accepted = server.accepted ++ [stream]) := by
    refine h.invariant (I := fun other => (other.phase ≠ .stopping → 0 < other.signals) ∧
      (other.phase = .accepting → other.accepted = server.accepted) ∧
      (other.accepted = server.accepted ∨
        ∃ stream, other.accepted = server.accepted ++ [stream])) ?_ ?_
    · exact ⟨fun _ => hsignal, fun _ => rfl, .inl rfl⟩
    · rintro other next ⟨hpending, haccepting, hsame⟩ hnext
      refine ⟨hnext.signalled hpending, ?_⟩
      rcases hnext with hstep | hevent
      · cases hstep with
        | poll hphase _ hnone =>
          -- the signal is seen
          have hpos := hpending (by rw [hphase]; nofun)
          omega
        | leave => exact ⟨nofun, hsame⟩
        | @accept stream _ hphase =>
          refine ⟨nofun, .inr ⟨stream, ?_⟩⟩
          rw [← haccepting hphase]
          exact filterMap_ok _ _
        | acceptFailed hphase =>
          refine ⟨nofun, .inl ?_⟩
          rw [← haccepting hphase]
          exact filterMap_error _ _
        | wouldBlock => exact ⟨nofun, hsame⟩
        | pool => exact ⟨haccepting, hsame⟩
      · cases hevent with
        | arrive => exact ⟨haccepting, hsame⟩
        | signal => exact ⟨haccepting, hsame⟩
  exact hall.2.2

/-- The pool of the server has an account of the accepted streams. -/
lemma Refines.exists_account (h : server.Refines panics) :
    ∃ calls received, ThreadPool.Ledger panics server.accepted
        { server.pool with calls := calls } received ∧
      ThreadPool.toCome { server.pool with calls := calls } = server.pool.toCome := by
  by_cases hphase : server.phase = .stopping
  · obtain ⟨received, hledger⟩ := ThreadPool.exists_ledger (h.stopping hphase)
    exact ⟨server.pool.calls, received, hledger, rfl⟩
  · -- nothing comes behind the accepted streams
    obtain ⟨received, hledger⟩ := ThreadPool.exists_ledger (h.serving hphase [])
    rw [List.append_nil] at hledger
    refine ⟨_, received, hledger, ?_⟩
    unfold ThreadPool.toCome ThreadPool.toSend
    rw [List.flatMap_nil, List.nil_append, List.filterMap_append, List.filterMap_append,
      List.filterMap_append, List.filterMap_append, ThreadPool.filterMap_message?_stop,
      List.filterMap_replicate_of_none (by rfl), List.append_nil, List.append_nil]

/-- Every accepted stream is with a worker or has been, or waits for one, or was dropped. -/
lemma Refines.accepted_eq (h : server.Refines panics) :
    ∃ started : List S,
      server.accepted = started ++ server.pool.waiting ++ server.pool.lost ++
        server.pool.toCome ∧
      (started : Multiset S) = server.pool.taken := by
  obtain ⟨calls, received, hledger, htoCome⟩ := h.exists_account
  have hjobs := hledger.jobs_eq
  rw [htoCome] at hjobs
  exact ⟨_, hjobs, hledger.taken⟩

/-- **The server shuts down gracefully.** In every run, whatever connects, fails or panics:

* the accepted streams are, in their order, those that workers have taken, those that wait in the
  queue, those that were dropped because no worker is left, and one that is being handed over;
* once the signal has been sent, the server returns, whatever happens around it, when the handling
  of every stream ends or panics, and accepts one more stream at most;
* when it has returned, all workers have ended, and a front of the accepted streams has been
  served, each once. It is all of them when handlers panic for fewer than `n` streams.

**Proof sketch.** The server refines the pool, whose account says what becomes of the streams.
Behind the signal every step uses up something, and no event adds to it. -/
theorem shutdown_graceful [DecidablePred panics]
    (h : System.Reachable (Next panics) (start n E S) server) :
    (∃ started : List S,
      server.accepted = started ++ server.pool.waiting ++ server.pool.lost ++
        server.pool.toCome ∧
      (started : Multiset S) = server.pool.taken) ∧
    (0 < server.signals →
      System.InevitableAmid (Step panics) Event Returned server ∧
      ∀ later, System.Reachable (Next panics) server later →
        later.accepted = server.accepted ∨
          ∃ stream, later.accepted = server.accepted ++ [stream]) ∧
    (server.Returned → server.pool.Drained panics server.accepted) := by
  have hrefines := refines h
  refine ⟨hrefines.accepted_eq, fun hsignal => ⟨returns_amid hrefines hsignal, fun later hlater =>
    accepted_of_signalled hsignal hlater⟩, ?_⟩
  rintro ⟨hphase, hreturned⟩
  obtain ⟨received, hledger⟩ := ThreadPool.exists_ledger (hrefines.stopping hphase)
  exact hledger.drained hreturned

/-- A client connects to a server with two workers, and the signal is sent before the server has
accepted it. -/
theorem shutdown_graceful_signal :
    ∃ server : SyncServer 2 Unit ℕ,
      System.Reachable (Next (· = 0)) (start 2 Unit ℕ) server ∧ server.backlog = [.ok 7] ∧
      System.InevitableAmid (Step (· = 0)) Event Returned server := by
  have hclient : System.Reachable (Next (· = 0)) (start 2 Unit ℕ) _ :=
    (System.Reachable.refl _).next (.inr (.arrive (.ok 7)))
  have hsignal := hclient.next (.inr .signal)
  exact ⟨_, hsignal, rfl, ((shutdown_graceful hsignal).2.1 Nat.zero_lt_one).1⟩

end SyncServer

end Httpageboy
