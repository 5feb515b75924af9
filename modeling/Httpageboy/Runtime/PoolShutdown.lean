import Httpageboy.Runtime.ThreadPool
import Mathlib.Data.List.Sigma
import Mathlib.Tactic.Abel

set_option relaxedAutoImplicit false
set_option autoImplicit false

/-!
# Graceful shutdown of the thread pool

Jobs and `Terminate` messages share one queue, from which `n` workers take them in any order of
steps. The invariant accounts for every job, which has yet to be received, is being run or has
completed, and for every `Terminate`, which has yet to be received or was the last message of its
worker.

## Main definitions

* `Httpageboy.ThreadPool.Accounts` — the invariant, up to the return of `stop`.
* `Httpageboy.ThreadPool.Stopped` — all jobs have completed, and all workers have exited.

## Main results

* `Httpageboy.ThreadPool.Invariant.step` — every step preserves the invariant.
* `Httpageboy.ThreadPool.stop_graceful` — `stop` returns in every run, and returns from a pool
  that has stopped.
-/

namespace Httpageboy

namespace ThreadPool

variable {n : ℕ} {J : Type} {panics : J → Prop} {jobs : List J} {pool pool' : ThreadPool n J}

/-- The account of a pool whose owner has `ms` to send and `ws` to join before the first `stop`
returns: of the messages that no worker has received, `pending` are the jobs, and `k` the
`Terminate`s behind them. -/
structure Accounts (jobs : List J) (pool : ThreadPool n J) (ms : List (Message J))
    (ws : List (Fin n)) (pending : List J) (k : ℕ) : Prop where
  calls : pool.calls = ms.map .send ++ ws.map .join ++ stop n
  messages : pool.queue ++ ms = pending.map .newJob ++ List.replicate k .terminate
  count : k + pool.terminated.length = n
  nodup : pool.terminated.Nodup
  exited : ∀ w, w ∈ pool.terminated ↔ ¬ (pool.worker w).InLoop
  /-- No `Terminate` is received in front of a job. -/
  fifo : pool.terminated ≠ [] → pending = []
  jobs : (pending : Multiset J) + ∑ w, WorkerState.held (pool.worker w) +
    (pool.completed.map Prod.snd : List J) = (jobs : Multiset J)
  once : ws.Nodup
  thread : ∀ w, pool.thread w = true ↔ w ∈ ws
  /-- A worker is joined when it has ended. -/
  joined : ∀ w, pool.thread w = false → ¬ (pool.worker w).InLoop
  unwound : ∀ w, pool.worker w ≠ .unwound

/-- A pool that has stopped: all workers have left their loop through `Terminate`, of which each
has received one, they have been joined, nothing is left in the queue, and the jobs that were
completed are the jobs that were submitted. -/
structure Stopped (jobs : List J) (pool : ThreadPool n J) : Prop where
  exited : ∀ w, pool.worker w = .exited
  terminated : ∀ w, pool.terminated.count w = 1
  completed : (pool.completed.map Prod.snd).Perm jobs
  queue : pool.queue = []
  thread : ∀ w, pool.thread w = false

/-- The invariant of a pool, from `new` to `drop`. -/
def Invariant (jobs : List J) (pool : ThreadPool n J) : Prop :=
  (∃ ms ws pending k, pool.Accounts jobs ms ws pending k) ∨
    (pool.StopReturned ∧ pool.Stopped jobs)

/-! ## What the account says -/

namespace Accounts

variable {ms : List (Message J)} {ws : List (Fin n)} {pending : List J} {k : ℕ}

/-- A worker in its loop has yet to receive its `Terminate`. -/
lemma pos_of_inLoop (h : pool.Accounts jobs ms ws pending k) {w : Fin n}
    (hw : (pool.worker w).InLoop) : 0 < k := by
  have hnotMem : w ∉ pool.terminated := fun hmem => (h.exited w).1 hmem hw
  have hcons : (w :: pool.terminated).length ≤ (Finset.univ : Finset (Fin n)).card :=
    (List.nodup_cons.2 ⟨hnotMem, h.nodup⟩).length_le_card
  have hcount := h.count
  rw [Finset.card_univ, Fintype.card_fin, List.length_cons] at hcons
  omega

/-- While a worker is in its loop and all messages have been sent, one is in the queue. -/
lemma queue_ne_nil (h : pool.Accounts jobs [] ws pending k) {w : Fin n}
    (hw : (pool.worker w).InLoop) : pool.queue ≠ [] := by
  have hmessages := h.messages
  rw [List.append_nil] at hmessages
  have hlength := congrArg List.length hmessages
  rw [List.length_append, List.length_replicate] at hlength
  have hpos := h.pos_of_inLoop hw
  intro hnil
  rw [hnil, List.length_nil] at hlength
  omega

/-- When no worker is left, all messages have been received. -/
lemma nil_of_ended (h : pool.Accounts jobs ms ws pending k) (hn : 0 < n)
    (hended : ∀ w, ¬ (pool.worker w).InLoop) : pending = [] ∧ k = 0 := by
  have hsubset : List.finRange n ⊆ pool.terminated := fun w _ => (h.exited w).2 (hended w)
  have hlength : n ≤ pool.terminated.length := by
    have hle := ((List.nodup_finRange n).subperm hsubset).length_le
    rwa [List.length_finRange] at hle
  have hcount := h.count
  refine ⟨h.fifo fun hnil => ?_, by omega⟩
  rw [hnil, List.length_nil] at hlength
  omega

/-- As long as there is something to send, the channel is open. -/
lemma connected (h : pool.Accounts jobs ms ws pending k) (hn : 0 < n) (hms : ms ≠ []) :
    pool.Connected := by
  by_contra hclosed
  obtain ⟨rfl, rfl⟩ := h.nil_of_ended hn fun w hw => hclosed ⟨w, hw⟩
  exact hms (List.append_eq_nil_iff.1 h.messages).2

/-- A job that a worker is running has been submitted. -/
lemma mem_of_running (h : pool.Accounts jobs ms ws pending k) {w : Fin n} {job : J}
    (hw : pool.worker w = .running job) : job ∈ jobs := by
  have hheld : job ∈ ∑ v, WorkerState.held (pool.worker v) :=
    Multiset.mem_sum.2 ⟨w, Finset.mem_univ w, by rw [hw]; exact Multiset.mem_singleton_self job⟩
  rw [← Multiset.mem_coe, ← h.jobs]
  exact Multiset.mem_add.2 (.inl (Multiset.mem_add.2 (.inr hheld)))

/-- When `stop` has made all its joins, the pool has stopped. -/
lemma stopped (h : pool.Accounts jobs [] [] pending k) (hn : 0 < n) : pool.Stopped jobs := by
  have hthread : ∀ w, pool.thread w = false := fun w =>
    Bool.eq_false_iff.2 fun htrue => List.not_mem_nil ((h.thread w).1 htrue)
  have hended : ∀ w, ¬ (pool.worker w).InLoop := fun w => h.joined w (hthread w)
  have hexited : ∀ w, pool.worker w = .exited := by
    intro w
    have hw := hended w
    have hunwound := h.unwound w
    cases hstate : pool.worker w with
    | exited => rfl
    | unwound => exact absurd hstate hunwound
    | _ => exact absurd (by rw [hstate]; trivial) hw
  obtain ⟨rfl, rfl⟩ := h.nil_of_ended hn hended
  refine ⟨hexited, fun w => ?_, ?_, (List.append_eq_nil_iff.1 h.messages).1, hthread⟩
  · exact List.count_eq_one_of_mem h.nodup ((h.exited w).2 (hended w))
  · have hheld : ∑ w, WorkerState.held (pool.worker w) = 0 :=
      Finset.sum_eq_zero fun w _ => by rw [hexited w]; rfl
    have hjobs := h.jobs
    rw [hheld] at hjobs
    simpa using hjobs

/-! ## What the steps do to the account -/

/-- A move of a worker that stays in its loop: it may take the first job from the queue, and may
complete the one it has.

**Proof sketch.** Only the balance of the jobs has to be seen: what the worker held before is
replaced by what it holds now, and the difference is in the queue or among the completed jobs. -/
lemma move (h : pool.Accounts jobs ms ws pending k) {w : Fin n} {state : WorkerState J}
    (hw : (pool.worker w).InLoop) (hstate : state.InLoop) {queue : List (Message J)}
    {completed : List (Fin n × J)} {pending' : List J}
    (hmessages : queue ++ ms = pending'.map .newJob ++ List.replicate k .terminate)
    (hpending : pending = [] → pending' = [])
    (hjobs : (pending' : Multiset J) + state.held + (completed.map Prod.snd : List J) =
      pending + (pool.worker w).held + (pool.completed.map Prod.snd : List J)) :
    Accounts jobs
      { pool with
        queue := queue
        worker := Function.update pool.worker w state
        completed := completed } ms ws pending' k := by
  have hother : ∀ v, ¬ (Function.update pool.worker w state v).InLoop ↔
      ¬ (pool.worker v).InLoop :=
    (Function.forall_update_iff pool.worker fun v state =>
      ¬ state.InLoop ↔ ¬ (pool.worker v).InLoop).2
      ⟨not_congr ⟨fun _ => hw, fun _ => hstate⟩, fun _ _ => Iff.rfl⟩
  refine
    { calls := h.calls
      messages := hmessages
      count := h.count
      nodup := h.nodup
      exited := fun v => (h.exited v).trans (hother v).symm
      fifo := fun hne => hpending (h.fifo hne)
      jobs := ?_
      once := h.once
      thread := h.thread
      joined := fun v hv => (hother v).2 (h.joined v hv)
      unwound := (Function.forall_update_iff pool.worker fun _ state => state ≠ .unwound).2
        ⟨?_, fun v _ => h.unwound v⟩ }
  · have hsum := System.sum_update WorkerState.held pool.worker w state
    have hall := h.jobs
    show (pending' : Multiset J) + ∑ v, WorkerState.held (Function.update pool.worker w state v) +
      (completed.map Prod.snd : List J) = (jobs : Multiset J)
    -- the balance of the worker cancels what it held before
    apply add_right_cancel (b := WorkerState.held (pool.worker w))
    calc (pending' : Multiset J) +
          ∑ v, WorkerState.held (Function.update pool.worker w state v) +
          (completed.map Prod.snd : List J) + WorkerState.held (pool.worker w)
        = (pending' : Multiset J) + (completed.map Prod.snd : List J) +
          (∑ v, WorkerState.held (Function.update pool.worker w state v) +
            WorkerState.held (pool.worker w)) := by abel
      _ = (pending' + state.held + (completed.map Prod.snd : List J)) +
          ∑ v, WorkerState.held (pool.worker v) := by rw [hsum]; abel
      _ = (pending + ∑ v, WorkerState.held (pool.worker v) +
          (pool.completed.map Prod.snd : List J)) + WorkerState.held (pool.worker w) := by
        rw [hjobs]; abel
      _ = (jobs : Multiset J) + WorkerState.held (pool.worker w) := by rw [hall]
  · rintro rfl
    exact hstate

/-- A message that has been sent is in the queue. -/
lemma send {message : Message J} (h : pool.Accounts jobs (message :: ms) ws pending k)
    {calls : List (Call n J)} (hcalls : pool.calls = .send message :: calls) :
    Accounts jobs { pool with calls := calls, queue := pool.queue ++ [message] } ms ws pending
      k := by
  have hrest := hcalls.symm.trans h.calls
  refine { h with calls := (List.cons.inj hrest).2, messages := ?_ }
  show pool.queue ++ [message] ++ ms = _
  rw [List.append_assoc]
  exact h.messages

/-- A worker that has ended is joined. -/
lemma join {w : Fin n} (h : pool.Accounts jobs [] (w :: ws) pending k)
    {calls : List (Call n J)} (hcalls : pool.calls = .join w :: calls)
    (hended : ¬ (pool.worker w).InLoop) :
    Accounts jobs { pool with calls := calls, thread := Function.update pool.thread w false } [] ws
      pending k := by
  have hrest := hcalls.symm.trans h.calls
  obtain ⟨hnotMem, honce⟩ := List.nodup_cons.1 h.once
  refine
    { h with
      calls := (List.cons.inj hrest).2
      once := honce
      thread := (Function.forall_update_iff pool.thread fun v there => there = true ↔ v ∈ ws).2
        ⟨?_, fun v hv => ?_⟩
      joined := (Function.forall_update_iff pool.thread fun v there =>
        there = false → ¬ (pool.worker v).InLoop).2
        ⟨fun _ => hended, fun v _ hv => h.joined v hv⟩ }
  · exact ⟨fun hfalse => (Bool.false_ne_true hfalse).elim, fun hmem => absurd hmem hnotMem⟩
  · rw [h.thread v, List.mem_cons]
    exact ⟨fun hmem => hmem.resolve_left hv, .inr⟩

/-- A worker receives its `Terminate`: no job is left in the queue. -/
lemma recvTerminate (h : pool.Accounts jobs ms ws pending k) {w : Fin n}
    {queue : List (Message J)} (hw : pool.worker w = .receiving)
    (hqueue : pool.queue = .terminate :: queue) :
    Accounts jobs
      { pool with
        queue := queue
        worker := Function.update pool.worker w .exited
        terminated := pool.terminated ++ [w] } ms ws [] (k - 1) := by
  have hinLoop : (pool.worker w).InLoop := by rw [hw]; trivial
  have hpos := h.pos_of_inLoop hinLoop
  have hmessages := h.messages
  rw [hqueue] at hmessages
  cases pending with
  | cons job pending => cases hmessages
  | nil =>
    obtain ⟨k, rfl⟩ : ∃ m, k = m + 1 := ⟨k - 1, by omega⟩
    have hnotMem : w ∉ pool.terminated := fun hmem => (h.exited w).1 hmem hinLoop
    have hheld : ∑ v, WorkerState.held (Function.update pool.worker w .exited v) + 0 =
        ∑ v, WorkerState.held (pool.worker v) + 0 := by
      have hsum := System.sum_update WorkerState.held pool.worker w .exited
      rwa [hw] at hsum
    rw [add_zero, add_zero] at hheld
    refine
      { h with
        messages := (List.cons.inj hmessages).2
        count := ?_
        nodup := List.Nodup.append h.nodup (List.nodup_singleton w) (by simpa using hnotMem)
        exited := (Function.forall_update_iff pool.worker fun v state =>
          v ∈ pool.terminated ++ [w] ↔ ¬ state.InLoop).2 ⟨?_, fun v hv => ?_⟩
        fifo := fun _ => rfl
        jobs := ?_
        joined := (Function.forall_update_iff pool.worker fun v state =>
          pool.thread v = false → ¬ state.InLoop).2
          ⟨fun _ hloop => hloop, fun v _ hv => h.joined v hv⟩
        unwound := (Function.forall_update_iff pool.worker fun _ state => state ≠ .unwound).2
          ⟨nofun, fun v _ => h.unwound v⟩ }
    · have hcount := h.count
      show k + 1 - 1 + (pool.terminated ++ [w]).length = n
      rw [List.length_append, List.length_singleton]
      omega
    · exact ⟨fun _ hloop => hloop, fun _ => List.mem_append_right _ (List.mem_singleton_self w)⟩
    · rw [← h.exited v, List.mem_append, List.mem_singleton]
      exact or_iff_left hv
    · have hjobs := h.jobs
      rw [← hheld] at hjobs
      exact hjobs

/-- What the owner has to do before the first `stop` returns: the next call is the first of `ms`,
and the first of `ws` behind them. -/
lemma send_cases (h : pool.Accounts jobs ms ws pending k) (hgo : ¬ (ms = [] ∧ ws = []))
    {message : Message J} {calls : List (Call n J)} (hcalls : pool.calls = .send message :: calls) :
    ∃ rest, ms = message :: rest := by
  have hall := hcalls.symm.trans h.calls
  cases ms with
  | cons first rest =>
    cases (List.cons.inj hall).1
    exact ⟨rest, rfl⟩
  | nil =>
    cases ws with
    | nil => exact absurd ⟨rfl, rfl⟩ hgo
    | cons w ws => cases (List.cons.inj hall).1

/-- A join comes behind all messages. -/
lemma join_cases (h : pool.Accounts jobs ms ws pending k) (hgo : ¬ (ms = [] ∧ ws = []))
    {w : Fin n} {calls : List (Call n J)} (hcalls : pool.calls = .join w :: calls) :
    ms = [] ∧ ∃ rest, ws = w :: rest := by
  have hall := hcalls.symm.trans h.calls
  cases ms with
  | cons first rest => cases (List.cons.inj hall).1
  | nil =>
    cases ws with
    | nil => exact absurd ⟨rfl, rfl⟩ hgo
    | cons v ws =>
      cases (List.cons.inj hall).1
      exact ⟨rfl, ws, rfl⟩

end Accounts

/-! ## The invariant -/

/-- A pool that has stopped makes only the calls of another `stop`, and they change nothing. -/
lemma Stopped.step (h : pool.Stopped jobs) (hreturned : pool.StopReturned)
    (hstep : Step panics pool pool') :
    pool'.StopReturned ∧ pool'.Stopped jobs ∧
      pool' = { pool with calls := pool'.calls, discarded := pool'.discarded } := by
  have hrest : ∀ {call : Call n J} {calls : List (Call n J)}, pool.calls = call :: calls →
      calls <:+ stop n := by
    intro call calls hcalls
    have hsuffix : call :: calls <:+ stop n := hcalls ▸ hreturned
    exact (List.suffix_cons call calls).trans hsuffix
  have hexited : ∀ {w : Fin n} {state : WorkerState J}, pool.worker w = state →
      state = .exited := fun hw => hw.symm.trans (h.exited _)
  cases hstep with
  | send hcalls hopen =>
    obtain ⟨w, hw⟩ := hopen
    rw [h.exited w] at hw
    exact hw.elim
  | sendFailed hcalls hclosed => exact ⟨hrest hcalls, { h with }, rfl⟩
  | @join w calls hcalls hthread hended =>
    rw [h.thread w] at hthread
    exact absurd hthread Bool.false_ne_true
  | joinTaken hcalls hthread => exact ⟨hrest hcalls, { h with }, rfl⟩
  | lock hw _ => cases hexited hw
  | recvJob hw _ => cases hexited hw
  | recvTerminate hw _ => cases hexited hw
  | finish hw _ => cases hexited hw
  | panic hw _ => cases hexited hw

/-- The account before `stop` returns, with something left to do.

**Proof sketch.** By the step. The calls of `stop` have a rule of their own each; a move of a worker
that stays in its loop keeps the balance of the jobs (`move`), and no job panics. -/
lemma Accounts.step {ms : List (Message J)} {ws : List (Fin n)} {pending : List J} {k : ℕ}
    (h : pool.Accounts jobs ms ws pending k) (hgo : ¬ (ms = [] ∧ ws = [])) (hn : 0 < n)
    (hjobs : ∀ job ∈ jobs, ¬ panics job) (hstep : Step panics pool pool') :
    ∃ ms' ws' pending' k', pool'.Accounts jobs ms' ws' pending' k' := by
  cases hstep with
  | send hcalls hopen =>
    obtain ⟨rest, rfl⟩ := h.send_cases hgo hcalls
    exact ⟨_, _, _, _, h.send hcalls⟩
  | sendFailed hcalls hclosed =>
    obtain ⟨rest, rfl⟩ := h.send_cases hgo hcalls
    exact absurd (h.connected hn (List.cons_ne_nil _ _)) hclosed
  | join hcalls hthread hended =>
    obtain ⟨rfl, rest, rfl⟩ := h.join_cases hgo hcalls
    exact ⟨_, _, _, _, h.join hcalls hended⟩
  | @joinTaken w calls hcalls hthread =>
    obtain ⟨rfl, rest, rfl⟩ := h.join_cases hgo hcalls
    have hthere : pool.thread w = true := (h.thread w).2 (List.mem_cons_self)
    rw [hthread] at hthere
    exact absurd hthere Bool.false_ne_true
  | @lock w hw hfree =>
    refine ⟨ms, ws, pending, k, h.move ?_ ?_ h.messages id ?_⟩
    · rw [hw]; trivial
    · trivial
    · rw [hw]; rfl
  | @recvJob w job queue hw hqueue =>
    have hmessages := h.messages
    rw [hqueue] at hmessages
    cases pending with
    | nil =>
      cases k with
      | zero => cases hmessages
      | succ k => cases (List.cons.inj hmessages).1
    | cons first pending =>
      cases (List.cons.inj hmessages).1
      refine ⟨ms, ws, pending, k, h.move ?_ ?_ (List.cons.inj hmessages).2
        (fun hnil => absurd hnil (List.cons_ne_nil job pending)) ?_⟩
      · rw [hw]; trivial
      · trivial
      · rw [hw, ← Multiset.cons_coe, ← Multiset.singleton_add,
          add_comm ({job} : Multiset J)]
        show (pending : Multiset J) + {job} + _ = pending + {job} + 0 + _
        rw [add_zero]
  | recvTerminate hw hqueue => exact ⟨_, _, _, _, h.recvTerminate hw hqueue⟩
  | @finish w job hw hok =>
    refine ⟨ms, ws, pending, k, h.move ?_ ?_ h.messages id ?_⟩
    · rw [hw]; trivial
    · trivial
    · rw [hw, List.map_append, ← Multiset.coe_add]
      show (pending : Multiset J) + 0 + (_ + {job}) = pending + {job} + _
      abel
  | panic hw hpanics => exact absurd hpanics (hjobs _ (h.mem_of_running hw))

/-- **Every step preserves the invariant.** -/
theorem Invariant.step (h : pool.Invariant jobs) (hn : 0 < n)
    (hjobs : ∀ job ∈ jobs, ¬ panics job) (hstep : Step panics pool pool') :
    pool'.Invariant jobs := by
  rcases h with ⟨ms, ws, pending, k, h⟩ | ⟨hreturned, h⟩
  · by_cases hgo : ms = [] ∧ ws = []
    · obtain ⟨rfl, rfl⟩ := hgo
      have hreturned : pool.StopReturned := by
        unfold StopReturned
        rw [h.calls]
        exact List.suffix_refl _
      obtain ⟨hreturned', h', -⟩ := (h.stopped hn).step hreturned hstep
      exact .inr ⟨hreturned', h'⟩
    · exact .inl (h.step hgo hn hjobs hstep)
  · obtain ⟨hreturned', h', -⟩ := h.step hreturned hstep
    exact .inr ⟨hreturned', h'⟩

/-- A new pool keeps the invariant. -/
lemma invariant_start (n : ℕ) (jobs : List J) : (start n jobs).Invariant jobs := by
  refine .inl ⟨jobs.map .newJob ++ List.replicate n .terminate, List.finRange n, jobs, n, ?_⟩
  exact
    { calls := by
        show jobs.flatMap run ++ stop n ++ stop n = _
        rw [flatMap_run, List.map_append, List.map_replicate]
        exact congrArg (· ++ stop n) (List.append_assoc _ _ _).symm
      messages := rfl
      count := Nat.add_zero n
      nodup := List.nodup_nil
      exited := fun w => ⟨fun hmem => absurd hmem List.not_mem_nil, fun hno => absurd trivial hno⟩
      fifo := fun hne => absurd rfl hne
      jobs := by
        show (jobs : Multiset J) + ∑ w : Fin n, (0 : Multiset J) + 0 = jobs
        rw [Finset.sum_const_zero, add_zero, add_zero]
      once := List.nodup_finRange n
      thread := fun w => ⟨fun _ => List.mem_finRange w, fun _ => rfl⟩
      joined := fun w hfalse => absurd hfalse.symm Bool.false_ne_true
      unwound := fun w => nofun }

/-- The pool has stopped when `stop` has returned. -/
lemma Invariant.stopped (h : pool.Invariant jobs) (hn : 0 < n) (hreturned : pool.StopReturned) :
    pool.Stopped jobs := by
  rcases h with ⟨ms, ws, pending, k, h⟩ | ⟨-, h⟩
  · have hle := hreturned.length_le
    rw [h.calls, List.length_append, List.length_append, List.length_map, List.length_map] at hle
    obtain rfl := List.eq_nil_of_length_eq_zero (show ms.length = 0 by omega)
    obtain rfl := List.eq_nil_of_length_eq_zero (show ws.length = 0 by omega)
    exact h.stopped hn
  · exact h

/-- **No interleaving gets stuck.** As long as `stop` has not returned, the owner or a worker has
a step. -/
lemma Invariant.progress (h : pool.Invariant jobs) (hn : 0 < n)
    (hjobs : ∀ job ∈ jobs, ¬ panics job) :
    pool.StopReturned ∨ ∃ pool', Step panics pool pool' := by
  rcases h with ⟨ms, ws, pending, k, h⟩ | ⟨hreturned, -⟩
  · have hcalls := h.calls
    cases ms with
    | cons message ms =>
      exact .inr ⟨_, .send hcalls (h.connected hn (List.cons_ne_nil message ms))⟩
    | nil =>
      cases ws with
      | nil =>
        refine .inl ?_
        unfold StopReturned
        rw [hcalls]
        exact List.suffix_refl _
      | cons w ws =>
        refine .inr ?_
        -- a worker that holds the lock finds a message
        have hreceives : ∀ v, pool.worker v = .receiving → ∃ pool', Step panics pool pool' := by
          intro v hv
          have hne := h.queue_ne_nil (w := v) (by rw [hv]; trivial)
          cases hqueue : pool.queue with
          | nil => exact absurd hqueue hne
          | cons message queue =>
            cases message with
            | newJob job => exact ⟨_, .recvJob hv hqueue⟩
            | terminate => exact ⟨_, .recvTerminate hv hqueue⟩
        cases hw : pool.worker w with
        | locking =>
          by_cases hfree : ∀ v, pool.worker v ≠ .receiving
          · exact ⟨_, .lock hw hfree⟩
          · obtain ⟨v, hv⟩ := not_forall_not.1 hfree
            exact hreceives v hv
        | receiving => exact hreceives w hw
        | running job => exact ⟨_, .finish hw (hjobs job (h.mem_of_running hw))⟩
        | exited =>
          exact ⟨_, .join hcalls ((h.thread w).2 List.mem_cons_self) (by rw [hw]; exact id)⟩
        | unwound => exact absurd hw (h.unwound w)
  · exact .inl hreturned

/-- Every pool that is reached from a new one keeps the invariant. -/
lemma invariant_of_reachable (hn : 0 < n) (hjobs : ∀ job ∈ jobs, ¬ panics job)
    (h : System.Reachable (Step panics) (start n jobs) pool) : pool.Invariant jobs :=
  h.invariant (invariant_start n jobs) fun _ _ hinv hstep => hinv.step hn hjobs hstep

/-- A pool that has stopped stays as it is, through all calls of another `stop`. -/
lemma Stopped.unchanged (h : pool.Stopped jobs) (hreturned : pool.StopReturned)
    (hreach : System.Reachable (Step panics) pool pool') :
    pool' = { pool with calls := pool'.calls, discarded := pool'.discarded } := by
  refine (hreach.invariant (I := fun other => other.StopReturned ∧ other.Stopped jobs ∧
    other = { pool with calls := other.calls, discarded := other.discarded })
    ⟨hreturned, h, rfl⟩ ?_).2.2
  rintro other next ⟨hother, hstopped, heq⟩ hstep
  obtain ⟨hnext, hstopped', heq'⟩ := hstopped.step hother hstep
  refine ⟨hnext, hstopped', heq'.trans ?_⟩
  rw [heq]

/-- No call of another `stop` blocks. -/
lemma Stopped.progress (h : pool.Stopped jobs) :
    pool.calls = [] ∨ ∃ pool', Step panics pool pool' := by
  have hclosed : ¬ pool.Connected := by
    rintro ⟨w, hw⟩
    rw [h.exited w] at hw
    exact hw
  cases hcalls : pool.calls with
  | nil => exact .inl rfl
  | cons call calls =>
    cases call with
    | send message => exact .inr ⟨_, .sendFailed hcalls hclosed⟩
    | join w => exact .inr ⟨_, .joinTaken hcalls (h.thread w)⟩

/-- **Graceful shutdown.** The jobs are numbered in the order of their submission, so that equal
ones can be told apart. None of them panics. Then `stop` returns in every run, and whenever it has
returned, all workers have left their loop, each of them received exactly one `Terminate`, and
every job was completed, by exactly one worker and no more than once. From then on the pool stays
as it is, and the calls of a second `stop` are all made.

**Proof sketch.** The invariant is preserved by every step (`Invariant.step`), and leaves a step
possible until `stop` has returned (`Invariant.progress`). Since every step uses up something
(`Step.remaining_lt`), all runs come to the return of `stop`, where the invariant says that the
pool has stopped. A pool that has stopped makes only the calls of the second `stop`. -/
theorem stop_graceful (hn : 0 < n) (jobs : List J) (panics : J × ℕ → Prop)
    (hjobs : ∀ job ∈ jobs.zipIdx, ¬ panics job) :
    System.Inevitable (Step panics) StopReturned (start n jobs.zipIdx) ∧
    ∀ pool, System.Reachable (Step panics) (start n jobs.zipIdx) pool → pool.StopReturned →
      (∀ w, pool.worker w = .exited) ∧
      (∀ w, pool.terminated.count w = 1) ∧
      (pool.completed.map Prod.snd).Perm jobs.zipIdx ∧
      (∀ job ∈ jobs.zipIdx, ∃! w, (w, job) ∈ pool.completed) ∧
      System.Inevitable (Step panics) (fun pool' => pool'.calls = []) pool ∧
      ∀ pool', System.Reachable (Step panics) pool pool' →
        pool' = { pool with calls := pool'.calls, discarded := pool'.discarded } := by
  constructor
  · exact System.inevitable_of_measure remaining
      (fun pool pool' hinv hstep => Invariant.step hinv hn hjobs hstep)
      (fun pool hinv => Invariant.progress hinv hn hjobs)
      (fun pool pool' hstep => hstep.remaining_lt) (invariant_start n jobs.zipIdx)
  · intro pool hreach hreturned
    have hstopped := (invariant_of_reachable hn hjobs hreach).stopped hn hreturned
    refine ⟨hstopped.exited, hstopped.terminated, hstopped.completed, fun job hjob => ?_, ?_,
      fun pool' hreach' => hstopped.unchanged hreturned hreach'⟩
    · obtain ⟨⟨w, job'⟩, hmem, rfl⟩ := List.mem_map.1 (hstopped.completed.mem_iff.2 hjob)
      refine ⟨w, hmem, fun v hv => ?_⟩
      have hnodup : (pool.completed.map Prod.snd).Nodup :=
        hstopped.completed.nodup_iff.2 (List.Nodup.of_map Prod.snd (List.nodup_zipIdx_map_snd jobs))
      have heq := List.inj_on_of_nodup_map hnodup hv hmem rfl
      exact congrArg Prod.fst heq
    · exact System.inevitable_of_measure
        (I := fun other => other.StopReturned ∧ other.Stopped jobs.zipIdx) remaining
        (fun other next hother hstep =>
          have hnext := hother.2.step hother.1 hstep
          ⟨hnext.1, hnext.2.1⟩)
        (fun other hother => hother.2.progress)
        (fun other next hstep => hstep.remaining_lt) ⟨hreturned, hstopped⟩

/-- A pool of two workers runs three jobs, two of them equal, and shuts down. -/
theorem stop_graceful_threeJobs :
    (0 < 2 ∧ ∀ job ∈ [5, 7, 5].zipIdx, ¬ (fun job : ℕ × ℕ => job.1 = 6) job) ∧
    System.Inevitable (Step fun job : ℕ × ℕ => job.1 = 6) StopReturned
      (start 2 [5, 7, 5].zipIdx) :=
  ⟨⟨by decide, by decide⟩,
    (stop_graceful (by decide) [5, 7, 5] (fun job => job.1 = 6) (by decide)).1⟩

end ThreadPool

end Httpageboy
