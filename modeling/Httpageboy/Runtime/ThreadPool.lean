import Httpageboy.Lib.System

set_option relaxedAutoImplicit false
set_option autoImplicit false

/-!
# The thread pool of the synchronous server

`ThreadPool` with its `Worker`s, as a transition system: the thread that owns the pool makes its
calls of `run` and `stop` one after the other, and each worker goes round its own loop. The steps
of the owner and of the `n` workers interleave in any order. The jobs are values of a type `J`,
and a predicate says which of them panic.

The channel is unbounded and first in, first out. A worker holds the lock of the receiver while it
waits for a message, and has released it when it runs the job. The receiver is shared by the
workers alone, so that the channel is closed when no worker is left. The lock is never poisoned,
because nothing panics under it, and the sender lives as long as the calls that are modelled here.

## Main definitions

* `Httpageboy.ThreadPool` — a pool with its channel, its threads and what its owner has yet to do.
* `Httpageboy.ThreadPool.Step` — one step of the owner or of a worker.
* `Httpageboy.ThreadPool.start` — a new pool with the calls of `run`, of `stop` and of `drop`.

## Main results

* `Httpageboy.ThreadPool.Step.remaining_lt` — every step uses up something.
-/

namespace Httpageboy

variable {n : ℕ} {J : Type}

/-- `Message`. -/
inductive Message (J : Type) where
  | newJob (job : J)
  | terminate
  deriving DecidableEq

/-- Where the thread of a worker is. In its loop it waits for the lock of the receiver, for a
message with the lock held, or for the end of a job; `exited` is behind a `break`, and `unwound`
behind a panic of the job. -/
inductive WorkerState (J : Type) where
  | locking
  | receiving
  | running (job : J)
  | exited
  | unwound
  deriving DecidableEq

/-- The thread of the worker is still in the loop of `Worker::new`. -/
def WorkerState.InLoop : WorkerState J → Prop
  | .locking | .receiving | .running _ => True
  | .exited | .unwound => False

/-- The job that the worker has taken and not finished. -/
def WorkerState.held : WorkerState J → Multiset J
  | .running job => {job}
  | _ => 0

/-- What the owner of the pool does next: `sender.send`, or `thread.take()` of a worker and the
`join` of the handle that was still there. -/
inductive Call (n : ℕ) (J : Type) where
  | send (message : Message J)
  | join (worker : Fin n)

/-- A pool of `n` workers. The last four fields keep account of the run: the jobs that were run to
their end, the workers that received `Terminate`, the jobs that panicked, and the messages that
`send` gave back because the channel was closed. -/
structure ThreadPool (n : ℕ) (J : Type) where
  queue : List (Message J)
  worker : Fin n → WorkerState J
  /-- `worker.thread.is_some()` -/
  thread : Fin n → Bool
  calls : List (Call n J)
  completed : List (Fin n × J)
  terminated : List (Fin n)
  panicked : List (Fin n × J)
  discarded : List (Message J)

namespace ThreadPool

/-- `ThreadPool::run`. -/
def run (job : J) : List (Call n J) := [.send (.newJob job)]

/-- `ThreadPool::stop`: one `Terminate` for each worker, then the joins in the order of the
workers. -/
def stop (n : ℕ) : List (Call n J) :=
  List.replicate n (.send .terminate) ++ (List.finRange n).map .join

/-- `ThreadPool::new`, and the calls to come: `run` for each job, `stop`, and the `stop` of
`Drop`. -/
def start (n : ℕ) (jobs : List J) : ThreadPool n J where
  queue := []
  worker := fun _ => .locking
  thread := fun _ => true
  calls := jobs.flatMap run ++ stop n ++ stop n
  completed := []
  terminated := []
  panicked := []
  discarded := []

/-- The receiver of the channel is still there: a worker that has not ended holds it. -/
def Connected (pool : ThreadPool n J) : Prop := ∃ w, (pool.worker w).InLoop

/-- One step. The owner sends a message, which a closed channel gives back, and joins a worker
whose handle is still there when its thread has ended. A worker takes the lock when no other one
holds it, receives the first message of the queue, and runs the job to its end or to its panic.
That a running job ends is up to the job: its step can be taken at any time. When the last worker
ends, it drops the receiver, and with it the messages that are still queued; here they stay in
`queue`, where no worker receives them any more. -/
inductive Step (panics : J → Prop) (pool : ThreadPool n J) : ThreadPool n J → Prop
  | send {message : Message J} {calls : List (Call n J)}
      (hcalls : pool.calls = .send message :: calls) (hopen : pool.Connected) :
      Step panics pool { pool with calls := calls, queue := pool.queue ++ [message] }
  | sendFailed {message : Message J} {calls : List (Call n J)}
      (hcalls : pool.calls = .send message :: calls) (hclosed : ¬ pool.Connected) :
      Step panics pool { pool with calls := calls, discarded := pool.discarded ++ [message] }
  | join {w : Fin n} {calls : List (Call n J)} (hcalls : pool.calls = .join w :: calls)
      (hthread : pool.thread w = true) (hended : ¬ (pool.worker w).InLoop) :
      Step panics pool
        { pool with calls := calls, thread := Function.update pool.thread w false }
  | joinTaken {w : Fin n} {calls : List (Call n J)} (hcalls : pool.calls = .join w :: calls)
      (hthread : pool.thread w = false) :
      Step panics pool { pool with calls := calls }
  | lock {w : Fin n} (hw : pool.worker w = .locking) (hfree : ∀ v, pool.worker v ≠ .receiving) :
      Step panics pool { pool with worker := Function.update pool.worker w .receiving }
  | recvJob {w : Fin n} {job : J} {queue : List (Message J)} (hw : pool.worker w = .receiving)
      (hqueue : pool.queue = .newJob job :: queue) :
      Step panics pool
        { pool with queue := queue, worker := Function.update pool.worker w (.running job) }
  | recvTerminate {w : Fin n} {queue : List (Message J)} (hw : pool.worker w = .receiving)
      (hqueue : pool.queue = .terminate :: queue) :
      Step panics pool
        { pool with
          queue := queue
          worker := Function.update pool.worker w .exited
          terminated := pool.terminated ++ [w] }
  | finish {w : Fin n} {job : J} (hw : pool.worker w = .running job) (hok : ¬ panics job) :
      Step panics pool
        { pool with
          worker := Function.update pool.worker w .locking
          completed := pool.completed ++ [(w, job)] }
  | panic {w : Fin n} {job : J} (hw : pool.worker w = .running job) (hpanics : panics job) :
      Step panics pool
        { pool with
          worker := Function.update pool.worker w .unwound
          panicked := pool.panicked ++ [(w, job)] }

/-- The first call of `stop` has returned: what is left of the calls belongs to the second one. -/
def StopReturned (pool : ThreadPool n J) : Prop := pool.calls <:+ stop n

/-- The first call of `stop` has not begun: `run` has yet to be called for some jobs. -/
def BeforeStop (pool : ThreadPool n J) : Prop :=
  ∃ later : List J, pool.calls = later.flatMap run ++ stop n ++ stop n

/-! ## The calls of the owner -/

/-- The calls of `run` send the jobs. -/
lemma flatMap_run (jobs : List J) :
    jobs.flatMap (run (n := n)) = (jobs.map Message.newJob).map .send := by
  induction jobs with
  | nil => rfl
  | cons job jobs ih => rw [List.flatMap_cons, ih]; rfl

/-- The length of a call of `stop`. -/
lemma length_stop : (stop n : List (Call n J)).length = 2 * n := by
  unfold stop
  rw [List.length_append, List.length_replicate, List.length_map, List.length_finRange]
  omega

/-! ## Every step uses up something -/

/-- What a worker has yet to do with the message it has, or before it waits for one. -/
def WorkerState.weight : WorkerState J → ℕ
  | .running _ => 2
  | .locking => 1
  | _ => 0

/-- What is left to do: a call weighs more than the message it sends, and a message more than what
the worker that receives it does with it. -/
def remaining (pool : ThreadPool n J) : ℕ :=
  4 * pool.calls.length + 3 * pool.queue.length + ∑ w, WorkerState.weight (pool.worker w)

/-- **Every step uses up something**, whatever order the steps are taken in.

**Proof sketch.** By the step: a call is made, a message is taken, or a worker comes nearer to its
end, and each of them weighs more than what it becomes. -/
theorem Step.remaining_lt {panics : J → Prop} {pool pool' : ThreadPool n J}
    (h : Step panics pool pool') : pool'.remaining < pool.remaining := by
  have hmove : ∀ {w : Fin n} {old : WorkerState J}, pool.worker w = old →
      ∀ state : WorkerState J,
        ∑ v, WorkerState.weight (Function.update pool.worker w state v) + WorkerState.weight old =
          ∑ v, WorkerState.weight (pool.worker v) + WorkerState.weight state := by
    rintro w _ rfl state
    exact System.sum_update WorkerState.weight pool.worker w state
  unfold remaining
  cases h with
  | send hcalls hopen =>
    rw [hcalls]
    simp only [List.length_cons, List.length_append, List.length_nil]
    omega
  | sendFailed hcalls hclosed =>
    rw [hcalls]
    simp only [List.length_cons]
    omega
  | join hcalls hthread hended =>
    rw [hcalls]
    simp only [List.length_cons]
    omega
  | joinTaken hcalls hthread =>
    rw [hcalls]
    simp only [List.length_cons]
    omega
  | lock hw hfree =>
    have hsum := hmove hw .receiving
    simp only [WorkerState.weight] at hsum ⊢
    omega
  | @recvJob w job queue hw hqueue =>
    have hsum := hmove hw (.running job)
    rw [hqueue]
    simp only [WorkerState.weight, List.length_cons] at hsum ⊢
    omega
  | recvTerminate hw hqueue =>
    have hsum := hmove hw .exited
    rw [hqueue]
    simp only [WorkerState.weight, List.length_cons] at hsum ⊢
    omega
  | finish hw hok =>
    have hsum := hmove hw .locking
    simp only [WorkerState.weight] at hsum ⊢
    omega
  | panic hw hpanics =>
    have hsum := hmove hw .unwound
    simp only [WorkerState.weight] at hsum ⊢
    omega

end ThreadPool

end Httpageboy
