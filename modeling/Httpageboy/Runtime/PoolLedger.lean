import Httpageboy.Runtime.PoolFailure
import Mathlib.Data.List.Sigma
import Mathlib.Tactic.Abel

set_option relaxedAutoImplicit false
set_option autoImplicit false

/-!
# The ledger of the thread pool

An account of the pool that holds in every run, with jobs that panic and workers that are lost.
Every message is received, waits in the queue, came back from the closed channel, or has yet to be
sent, and these four follow each other in the order of submission. So no job is lost silently while
a worker is left, none is run twice, and none overtakes another one.

## Main definitions

* `Httpageboy.ThreadPool.waiting`, `Httpageboy.ThreadPool.lost`, `Httpageboy.ThreadPool.toCome` —
  the jobs that no worker has taken.
* `Httpageboy.ThreadPool.taken` — the jobs that workers have taken.
* `Httpageboy.ThreadPool.Ledger` — the account, an invariant of every run.
* `Httpageboy.ThreadPool.Drained` — what `stop` leaves behind.

## Main results

* `Httpageboy.ThreadPool.Ledger.step` — every step preserves the account.
* `Httpageboy.ThreadPool.exists_work` — a worker has something to do while messages wait.
* `Httpageboy.ThreadPool.jobs_in_order` — the jobs in every pool that is reached.
* `Httpageboy.ThreadPool.stop_returns` — `stop` returns, whatever panics, from a drained pool.
-/

namespace Httpageboy

/-- The job of a message. -/
def Message.job? {J : Type} : Message J → Option J
  | .newJob job => some job
  | .terminate => none

/-- The message that a call sends. -/
def Call.message? {n : ℕ} {J : Type} : Call n J → Option (Message J)
  | .send message => some message
  | .join _ => none

/-- The worker that a call joins. -/
def Call.worker? {n : ℕ} {J : Type} : Call n J → Option (Fin n)
  | .send _ => none
  | .join w => some w

namespace WorkerState

variable {J : Type}

/-- A running worker holds its job. -/
@[simp] lemma held_running (job : J) : (running job).held = {job} := rfl

/-- A worker that waits for the lock holds none. -/
@[simp] lemma held_locking : (locking : WorkerState J).held = 0 := rfl

/-- A worker that waits for a message holds none. -/
@[simp] lemma held_receiving : (receiving : WorkerState J).held = 0 := rfl

/-- A worker that has ended holds none. -/
@[simp] lemma held_exited : (exited : WorkerState J).held = 0 := rfl

/-- A worker that has panicked holds none. -/
@[simp] lemma held_unwound : (unwound : WorkerState J).held = 0 := rfl

end WorkerState

namespace ThreadPool

variable {n : ℕ} {J : Type} {panics : J → Prop} {jobs : List J} {pool pool' : ThreadPool n J}

/-- The messages that the owner has yet to send. -/
def toSend (pool : ThreadPool n J) : List (Message J) := pool.calls.filterMap Call.message?

/-- The workers that the owner has yet to join. -/
def toJoin (pool : ThreadPool n J) : List (Fin n) := pool.calls.filterMap Call.worker?

/-- The jobs in the queue. -/
def waiting (pool : ThreadPool n J) : List J := pool.queue.filterMap Message.job?

/-- The jobs that the closed channel gave back, which `run` drops. -/
def lost (pool : ThreadPool n J) : List J := pool.discarded.filterMap Message.job?

/-- The jobs that have yet to be submitted. -/
def toCome (pool : ThreadPool n J) : List J := pool.toSend.filterMap Message.job?

/-- The jobs that workers have taken: they are being run, have completed, or have panicked. -/
def taken (pool : ThreadPool n J) : Multiset J :=
  ∑ w, WorkerState.held (pool.worker w) +
    ((pool.completed.map Prod.snd : List J) + (pool.panicked.map Prod.snd : List J))

/-- The account of a pool whose workers have received the messages `received`. -/
structure Ledger (panics : J → Prop) (jobs : List J) (pool : ThreadPool n J)
    (received : List (Message J)) : Prop where
  calls : pool.calls <:+ jobs.flatMap run ++ stop n ++ stop n
  /-- First in, first out. -/
  order : received ++ pool.queue ++ pool.discarded ++ pool.toSend =
    jobs.map .newJob ++ List.replicate (n + n) .terminate
  taken : (received.filterMap Message.job? : Multiset J) = pool.taken
  count : received.length = (received.filterMap Message.job?).length + pool.terminated.length
  closed : pool.discarded ≠ [] → ¬ pool.Connected
  nodup : pool.terminated.Nodup
  exited : ∀ w, w ∈ pool.terminated ↔ pool.worker w = .exited
  once : (pool.panicked.map Prod.fst).Nodup
  unwound : ∀ w, w ∈ pool.panicked.map Prod.fst ↔ pool.worker w = .unwound
  completed : ∀ entry ∈ pool.completed, ¬ panics entry.2
  panicked : ∀ entry ∈ pool.panicked, panics entry.2
  /-- A handle is there until the first of the two joins takes it. -/
  thread : ∀ w, pool.thread w = true ↔ 2 ≤ pool.toJoin.count w
  joined : ∀ w, pool.thread w = false → ¬ (pool.worker w).InLoop

/-- What the return of `stop` leaves behind. All workers have ended and have been joined. A front
of the jobs has been run, each of them once: those that do not panic have completed, and the others
have panicked. The front is all of them, unless each of the `n` workers was lost to a panic. -/
structure Drained (panics : J → Prop) [DecidablePred panics] (jobs : List J)
    (pool : ThreadPool n J) : Prop where
  ended : ∀ w, pool.thread w = false ∧ ¬ (pool.worker w).InLoop
  run : ∃ started left, jobs = started ++ left ∧
    (pool.completed.map Prod.snd).Perm (started.filter fun job => ¬ panics job) ∧
    (pool.panicked.map Prod.snd).Perm (started.filter fun job => panics job) ∧
    (left ≠ [] → pool.panicked.length = n) ∧
    ((jobs.filter fun job => panics job).length < n → left = [])

/-- The jobs of messages that submit jobs. -/
lemma filterMap_job?_newJob (jobs : List J) :
    (jobs.map Message.newJob).filterMap Message.job? = jobs := by
  rw [List.filterMap_map]
  exact List.filterMap_some

/-! ## The calls of the owner -/

/-- Joins send nothing. -/
lemma filterMap_message?_join (ws : List (Fin n)) :
    (ws.map (Call.join (J := J))).filterMap Call.message? = [] := by
  rw [List.filterMap_map]
  exact List.filterMap_eq_nil_iff.2 fun _ _ => rfl

/-- The messages of a call of `stop`. -/
lemma filterMap_message?_stop :
    (stop n : List (Call n J)).filterMap Call.message? = List.replicate n .terminate := by
  unfold stop
  rw [List.filterMap_append, List.filterMap_replicate_of_some (by rfl), filterMap_message?_join,
    List.append_nil]

/-- The workers that a call of `stop` joins. -/
lemma filterMap_worker?_stop :
    (stop n : List (Call n J)).filterMap Call.worker? = List.finRange n := by
  unfold stop
  rw [List.filterMap_append, List.filterMap_replicate_of_none (by rfl), List.filterMap_map,
    List.nil_append]
  exact List.filterMap_some

/-- The messages of the calls of `run`. -/
lemma filterMap_message?_run (jobs : List J) :
    (jobs.flatMap (run (n := n))).filterMap Call.message? = jobs.map .newJob := by
  rw [flatMap_run, List.filterMap_map]
  exact List.filterMap_some

/-- The calls of `run` join nobody. -/
lemma filterMap_worker?_run (jobs : List J) :
    (jobs.flatMap (run (n := n))).filterMap Call.worker? = [] := by
  rw [flatMap_run, List.filterMap_map]
  exact List.filterMap_eq_nil_iff.2 fun _ _ => rfl

/-- Behind all messages of the first `stop`, those of the second one are left. -/
lemma toSend_of_join {w : Fin n} {calls : List (Call n J)} (hcalls : pool.calls = .join w :: calls)
    (hsuffix : pool.calls <:+ jobs.flatMap run ++ stop n ++ stop n) (hgo : ¬ pool.StopReturned) :
    pool.toSend = List.replicate n .terminate := by
  obtain ⟨before, hbefore⟩ := hsuffix
  rcases List.append_eq_append_iff.1 hbefore with ⟨front, hfront, hrest⟩ | ⟨rest, -, hrest⟩
  · -- the calls of the first `stop` that are left begin with a join, so that they are joins
    have hjoins : front.filterMap Call.message? = [] := by
      rw [flatMap_run] at hfront
      unfold stop at hfront
      rw [← List.append_assoc, ← List.map_replicate, ← List.map_append] at hfront
      rcases List.append_eq_append_iff.1 hfront.symm with ⟨sends, hsends, rfl⟩ | ⟨_, -, hjoins⟩
      · cases sends with
        | nil =>
          rw [List.nil_append, filterMap_message?_join]
        | cons call sends =>
          rw [hcalls] at hrest
          obtain rfl := (List.cons.inj hrest).1
          have hmem : (.join w : Call n J) ∈
              (jobs.map Message.newJob ++ List.replicate n Message.terminate).map Call.send := by
            rw [hsends]
            exact List.mem_append_right _ List.mem_cons_self
          obtain ⟨_, -, heq⟩ := List.mem_map.1 hmem
          cases heq
      · refine List.filterMap_eq_nil_iff.2 fun call hmem => ?_
        have hall : call ∈ (List.finRange n).map (Call.join (J := J)) := by
          rw [hjoins]
          exact List.mem_append_right _ hmem
        obtain ⟨_, -, rfl⟩ := List.mem_map.1 hall
        rfl
    unfold toSend
    rw [hrest, List.filterMap_append, hjoins, filterMap_message?_stop, List.nil_append]
  · exact absurd ⟨rest, hrest.symm⟩ hgo

/-- No worker is joined more than twice. -/
lemma count_toJoin_le (hsuffix : pool.calls <:+ jobs.flatMap run ++ stop n ++ stop n) (w : Fin n) :
    pool.toJoin.count w ≤ 2 := by
  have hle := (hsuffix.sublist.filterMap Call.worker?).count_le w
  rw [List.filterMap_append, List.filterMap_append, filterMap_worker?_run, filterMap_worker?_stop,
    List.nil_append, List.count_append,
    List.count_eq_one_of_mem (List.nodup_finRange n) (List.mem_finRange w)] at hle
  exact hle

/-! ## Every step preserves the account -/

/-- The balance of a worker that moves: what it takes comes from what it has received, and what it
gives up has completed or panicked. -/
lemma taken_update {w : Fin n} {state : WorkerState J} {received received' : Multiset J}
    {completed panicked : List (Fin n × J)} (htaken : received = pool.taken)
    (hmove : received' + (pool.worker w).held +
        ((pool.completed.map Prod.snd : List J) + (pool.panicked.map Prod.snd : List J)) =
      received + state.held +
        ((completed.map Prod.snd : List J) + (panicked.map Prod.snd : List J))) :
    received' = ∑ v, WorkerState.held (Function.update pool.worker w state v) +
      ((completed.map Prod.snd : List J) + (panicked.map Prod.snd : List J)) := by
  have hsum := System.sum_update WorkerState.held pool.worker w state
  apply add_right_cancel (b := (pool.worker w).held +
    (((pool.completed.map Prod.snd : List J) : Multiset J) + (pool.panicked.map Prod.snd : List J)))
  rw [← add_assoc, hmove, htaken, taken]
  calc _ = (∑ v, WorkerState.held (pool.worker v) + state.held) +
        ((pool.completed.map Prod.snd : List J) + (pool.panicked.map Prod.snd : List J)) +
        ((completed.map Prod.snd : List J) + (panicked.map Prod.snd : List J)) := by abel
    _ = _ := by rw [← hsum]; abel

namespace Ledger

variable {received : List (Message J)}

/-- A message that is sent has nothing in front of it but the queue. -/
lemma send (h : pool.Ledger panics jobs received) {message : Message J} {calls : List (Call n J)}
    (hcalls : pool.calls = .send message :: calls) (hopen : pool.Connected) :
    Ledger panics jobs { pool with calls := calls, queue := pool.queue ++ [message] } received := by
  have hempty : pool.discarded = [] := by
    by_contra hne
    exact h.closed hne hopen
  refine
    { h with
      calls := (List.suffix_cons _ calls).trans (hcalls ▸ h.calls)
      order := ?_
      thread := fun w => ?_ }
  · have horder := h.order
    unfold toSend at horder
    rw [hcalls, hempty] at horder
    rw [← horder]
    show received ++ (pool.queue ++ [message]) ++ pool.discarded ++
      calls.filterMap Call.message? = _
    rw [hempty]
    simp [Call.message?]
  · have hthread := h.thread w
    unfold toJoin at hthread
    rwa [hcalls] at hthread

/-- A message that comes back is dropped behind the others. -/
lemma sendFailed (h : pool.Ledger panics jobs received) {message : Message J}
    {calls : List (Call n J)} (hcalls : pool.calls = .send message :: calls)
    (hclosed : ¬ pool.Connected) :
    Ledger panics jobs { pool with calls := calls, discarded := pool.discarded ++ [message] }
      received := by
  refine
    { h with
      calls := (List.suffix_cons _ calls).trans (hcalls ▸ h.calls)
      order := ?_
      closed := fun _ => hclosed
      thread := fun w => ?_ }
  · have horder := h.order
    unfold toSend at horder
    rw [hcalls] at horder
    rw [← horder]
    show received ++ pool.queue ++ (pool.discarded ++ [message]) ++
      calls.filterMap Call.message? = _
    simp [Call.message?]
  · have hthread := h.thread w
    unfold toJoin at hthread
    rwa [hcalls] at hthread

/-- A call that joins a worker leaves no handle behind. -/
lemma join (h : pool.Ledger panics jobs received) {w : Fin n} {calls : List (Call n J)}
    (hcalls : pool.calls = .join w :: calls)
    (hended : pool.thread w = true → ¬ (pool.worker w).InLoop) :
    Ledger panics jobs
      { pool with calls := calls, thread := Function.update pool.thread w false } received := by
  have hjoins : pool.toJoin = w :: calls.filterMap Call.worker? := by
    unfold toJoin
    rw [hcalls]
    rfl
  refine
    { h with
      calls := (List.suffix_cons _ calls).trans (hcalls ▸ h.calls)
      order := ?_
      thread := (Function.forall_update_iff pool.thread fun v there =>
        there = true ↔ 2 ≤ (calls.filterMap Call.worker?).count v).2 ⟨?_, fun v hv => ?_⟩
      joined := (Function.forall_update_iff pool.thread fun v there =>
        there = false → ¬ (pool.worker v).InLoop).2 ⟨fun _ => ?_, fun v _ => h.joined v⟩ }
  · have horder := h.order
    unfold toSend at horder
    rw [hcalls] at horder
    exact horder
  · have hle := count_toJoin_le h.calls w
    rw [hjoins, List.count_cons_self] at hle
    exact ⟨fun hfalse => absurd hfalse Bool.false_ne_true, fun hlt => by omega⟩
  · rw [h.thread v, hjoins, List.count_cons_of_ne (Ne.symm hv)]
  · cases hthread : pool.thread w with
    | false => exact h.joined w hthread
    | true => exact hended hthread

/-- A worker stays in its loop: it may take the first job of the queue, and may complete the one it
has. -/
lemma stay (h : pool.Ledger panics jobs received) {w : Fin n} {state : WorkerState J}
    (hw : (pool.worker w).InLoop) (hstate : state.InLoop) {queue received' : List (Message J)}
    {completed : List (Fin n × J)} (horder : received' ++ queue = received ++ pool.queue)
    (htaken : (received'.filterMap Message.job? : Multiset J) + (pool.worker w).held +
        (pool.completed.map Prod.snd : List J) =
      (received.filterMap Message.job? : Multiset J) + state.held +
        (completed.map Prod.snd : List J))
    (hcount : received'.length =
      (received'.filterMap Message.job?).length + pool.terminated.length)
    (hcompleted : ∀ entry ∈ completed, ¬ panics entry.2) :
    Ledger panics jobs
      { pool with
        queue := queue
        worker := Function.update pool.worker w state
        completed := completed } received' := by
  refine
    { h with
      order := by rw [← h.order, horder]; rfl
      taken := taken_update h.taken (by rw [← add_assoc, ← add_assoc, htaken])
      count := hcount
      closed := fun hne => absurd ⟨w, hw⟩ (h.closed hne)
      exited := (Function.forall_update_iff pool.worker fun v state =>
        v ∈ pool.terminated ↔ state = .exited).2 ⟨?_, fun v _ => h.exited v⟩
      unwound := (Function.forall_update_iff pool.worker fun v state =>
        v ∈ pool.panicked.map Prod.fst ↔ state = .unwound).2 ⟨?_, fun v _ => h.unwound v⟩
      completed := hcompleted
      joined := (Function.forall_update_iff pool.worker fun v state =>
        pool.thread v = false → ¬ state.InLoop).2
        ⟨fun hthread => absurd hw (h.joined w hthread), fun v _ => h.joined v⟩ }
  · rw [h.exited w]
    constructor
    · intro hexited
      rw [hexited] at hw
      exact hw.elim
    · rintro rfl
      exact hstate.elim
  · rw [h.unwound w]
    constructor
    · intro hunwound
      rw [hunwound] at hw
      exact hw.elim
    · rintro rfl
      exact hstate.elim

/-- A worker leaves its loop through a `Terminate`. -/
lemma recvTerminate (h : pool.Ledger panics jobs received) {w : Fin n}
    {queue : List (Message J)} (hw : pool.worker w = .receiving)
    (hqueue : pool.queue = .terminate :: queue) :
    Ledger panics jobs
      { pool with
        queue := queue
        worker := Function.update pool.worker w .exited
        terminated := pool.terminated ++ [w] } (received ++ [.terminate]) := by
  have hin : (pool.worker w).InLoop := by rw [hw]; trivial
  have hnotMem : w ∉ pool.terminated := by
    intro hmem
    rw [(h.exited w).1 hmem] at hw
    cases hw
  have hjobs : (received ++ [Message.terminate]).filterMap Message.job? =
      received.filterMap Message.job? := by simp [Message.job?]
  refine
    { h with
      order := ?_
      taken := taken_update h.taken ?_
      count := ?_
      closed := fun hne => absurd ⟨w, hin⟩ (h.closed hne)
      nodup := List.Nodup.append h.nodup (List.nodup_singleton w) (by simpa using hnotMem)
      exited := (Function.forall_update_iff pool.worker fun v state =>
        v ∈ pool.terminated ++ [w] ↔ state = .exited).2 ⟨?_, fun v hv => ?_⟩
      unwound := (Function.forall_update_iff pool.worker fun v state =>
        v ∈ pool.panicked.map Prod.fst ↔ state = .unwound).2 ⟨?_, fun v _ => h.unwound v⟩
      joined := (Function.forall_update_iff pool.worker fun v state =>
        pool.thread v = false → ¬ state.InLoop).2 ⟨fun _ hloop => hloop, fun v _ => h.joined v⟩ }
  · rw [← h.order, hqueue]
    show received ++ [.terminate] ++ queue ++ pool.discarded ++ pool.toSend = _
    rw [List.append_assoc received [.terminate] queue]
    rfl
  · rw [hjobs, hw]
    rfl
  · have hcount := h.count
    rw [hjobs]
    show (received ++ [Message.terminate]).length = _ + (pool.terminated ++ [w]).length
    rw [List.length_append, List.length_append, hcount, List.length_singleton,
      List.length_singleton, add_assoc]
  · exact ⟨fun _ => rfl, fun _ => List.mem_append_right _ (List.mem_singleton_self w)⟩
  · rw [← h.exited v, List.mem_append, List.mem_singleton]
    exact or_iff_left hv
  · rw [h.unwound w, hw]
    exact ⟨nofun, nofun⟩

/-- A job panics, and its worker is lost. -/
lemma panic (h : pool.Ledger panics jobs received) {w : Fin n} {job : J}
    (hw : pool.worker w = .running job) (hpanics : panics job) :
    Ledger panics jobs
      { pool with
        worker := Function.update pool.worker w .unwound
        panicked := pool.panicked ++ [(w, job)] } received := by
  have hin : (pool.worker w).InLoop := by rw [hw]; trivial
  have hnotMem : w ∉ pool.panicked.map Prod.fst := by
    intro hmem
    rw [(h.unwound w).1 hmem] at hw
    cases hw
  have hfst : (pool.panicked ++ [(w, job)]).map Prod.fst = pool.panicked.map Prod.fst ++ [w] :=
    List.map_append
  refine
    { h with
      taken := taken_update h.taken ?_
      closed := fun hne => absurd ⟨w, hin⟩ (h.closed hne)
      exited := (Function.forall_update_iff pool.worker fun v state =>
        v ∈ pool.terminated ↔ state = .exited).2 ⟨?_, fun v _ => h.exited v⟩
      once := ?_
      unwound := (Function.forall_update_iff pool.worker fun v state =>
        v ∈ (pool.panicked ++ [(w, job)]).map Prod.fst ↔ state = .unwound).2 ⟨?_, fun v hv => ?_⟩
      panicked := fun entry hmem => ?_
      joined := (Function.forall_update_iff pool.worker fun v state =>
        pool.thread v = false → ¬ state.InLoop).2 ⟨fun _ hloop => hloop, fun v _ => h.joined v⟩ }
  · rw [hw, List.map_append, ← Multiset.coe_add, List.map_singleton, Multiset.coe_singleton,
      WorkerState.held_running, WorkerState.held_unwound]
    abel
  · rw [h.exited w, hw]
    exact ⟨nofun, nofun⟩
  · show ((pool.panicked ++ [(w, job)]).map Prod.fst).Nodup
    rw [hfst]
    exact List.Nodup.append h.once (List.nodup_singleton w) (by simpa using hnotMem)
  · rw [hfst]
    exact ⟨fun _ => rfl, fun _ => List.mem_append_right _ (List.mem_singleton_self w)⟩
  · rw [hfst, ← h.unwound v, List.mem_append, List.mem_singleton]
    exact or_iff_left hv
  · rcases List.mem_append.1 hmem with hmem | hmem
    · exact h.panicked entry hmem
    · obtain rfl := List.mem_singleton.1 hmem
      exact hpanics

/-- **Every step preserves the account.** -/
theorem step (h : pool.Ledger panics jobs received) (hstep : Step panics pool pool') :
    ∃ received', pool'.Ledger panics jobs received' := by
  cases hstep with
  | send hcalls hopen => exact ⟨received, h.send hcalls hopen⟩
  | sendFailed hcalls hclosed => exact ⟨received, h.sendFailed hcalls hclosed⟩
  | join hcalls hthread hended => exact ⟨received, h.join hcalls fun _ => hended⟩
  | @joinTaken w calls hcalls hthread =>
    have hjoin := h.join hcalls fun htrue => by rw [hthread] at htrue; cases htrue
    rw [← hthread, Function.update_eq_self] at hjoin
    exact ⟨received, hjoin⟩
  | @lock w hw hfree =>
    refine ⟨received, h.stay ?_ ?_ rfl ?_ h.count h.completed⟩
    · rw [hw]; trivial
    · trivial
    · rw [hw]; rfl
  | @recvJob w job queue hw hqueue =>
    refine ⟨received ++ [.newJob job], h.stay ?_ ?_ ?_ ?_ ?_ h.completed⟩
    · rw [hw]; trivial
    · trivial
    · rw [hqueue, List.append_assoc]
      rfl
    · rw [hw, List.filterMap_append, ← Multiset.coe_add, List.filterMap_cons_some (by rfl),
        List.filterMap_nil, Multiset.coe_singleton, WorkerState.held_running,
        WorkerState.held_receiving, add_zero]
    · have hcount := h.count
      rw [List.filterMap_append, List.length_append, List.length_append, hcount]
      show _ + 1 = _ + 1 + _
      omega
  | recvTerminate hw hqueue => exact ⟨_, h.recvTerminate hw hqueue⟩
  | @finish w job hw hok =>
    refine ⟨received, h.stay ?_ ?_ rfl ?_ h.count fun entry hmem => ?_⟩
    · rw [hw]; trivial
    · trivial
    · rw [hw, List.map_append, ← Multiset.coe_add, List.map_singleton, Multiset.coe_singleton,
        WorkerState.held_running, WorkerState.held_locking]
      abel
    · rcases List.mem_append.1 hmem with hmem | hmem
      · exact h.completed entry hmem
      · obtain rfl := List.mem_singleton.1 hmem
        exact hok
  | panic hw hpanics => exact ⟨received, h.panic hw hpanics⟩

end Ledger

/-- The account of a new pool. -/
lemma ledger_start (panics : J → Prop) (n : ℕ) (jobs : List J) :
    (start n jobs).Ledger panics jobs [] where
  calls := List.suffix_refl _
  order := by
    show (jobs.flatMap run ++ stop n ++ stop n).filterMap Call.message? = _
    rw [List.filterMap_append, List.filterMap_append, filterMap_message?_run,
      filterMap_message?_stop, List.replicate_add, List.append_assoc]
  taken := by
    show 0 = ∑ w : Fin n, (0 : Multiset J) + (0 + 0)
    rw [Finset.sum_const_zero, add_zero, add_zero]
  count := rfl
  closed := fun hne => absurd rfl hne
  nodup := List.nodup_nil
  exited := fun _ => ⟨nofun, nofun⟩
  once := List.nodup_nil
  unwound := fun _ => ⟨nofun, nofun⟩
  completed := nofun
  panicked := nofun
  thread := fun w => by
    show true = true ↔
      2 ≤ ((jobs.flatMap run ++ stop n ++ stop n).filterMap Call.worker?).count w
    rw [List.filterMap_append, List.filterMap_append, filterMap_worker?_run,
      filterMap_worker?_stop, List.nil_append, List.count_append,
      List.count_eq_one_of_mem (List.nodup_finRange n) (List.mem_finRange w)]
    simp
  joined := fun _ => nofun

/-- Every pool that is reached has an account. -/
lemma exists_ledger (h : System.Reachable (Step panics) (start n jobs) pool) :
    ∃ received, pool.Ledger panics jobs received := by
  refine h.invariant (I := fun other => ∃ received, other.Ledger panics jobs received)
    ⟨[], ledger_start panics n jobs⟩ ?_
  rintro other next ⟨received, hledger⟩ hstep
  exact hledger.step hstep

/-! ## What the account says -/

/-- **A worker has something to do** while one is left and messages wait. -/
lemma exists_work (hopen : pool.Connected) (hqueue : pool.queue ≠ []) :
    ∃ pool', Step panics pool pool' ∧ pool'.calls = pool.calls := by
  -- a worker that holds the lock finds a message
  have hreceives : ∀ w, pool.worker w = .receiving →
      ∃ pool', Step panics pool pool' ∧ pool'.calls = pool.calls := by
    intro w hw
    cases hmessages : pool.queue with
    | nil => exact absurd hmessages hqueue
    | cons message queue =>
      cases message with
      | newJob job => exact ⟨_, .recvJob hw hmessages, rfl⟩
      | terminate => exact ⟨_, .recvTerminate hw hmessages, rfl⟩
  obtain ⟨w, hin⟩ := hopen
  cases hw : pool.worker w with
  | locking =>
    by_cases hfree : ∀ v, pool.worker v ≠ .receiving
    · exact ⟨_, .lock hw hfree, rfl⟩
    · obtain ⟨v, hv⟩ := not_forall.1 hfree
      exact hreceives v (not_not.1 hv)
  | receiving => exact hreceives w hw
  | running job =>
    by_cases hpanics : panics job
    · exact ⟨_, .panic hw hpanics, rfl⟩
    · exact ⟨_, .finish hw hpanics, rfl⟩
  | exited | unwound =>
    rw [hw] at hin
    exact hin.elim

namespace Ledger

variable {received : List (Message J)}

/-- The jobs that were taken, and those that were not, in the order of submission. -/
lemma jobs_eq (h : pool.Ledger panics jobs received) :
    jobs = received.filterMap Message.job? ++ pool.waiting ++ pool.lost ++ pool.toCome := by
  have horder := congrArg (List.filterMap Message.job?) h.order
  rw [List.filterMap_append, List.filterMap_append, List.filterMap_append, List.filterMap_append,
    filterMap_job?_newJob, List.filterMap_replicate_of_none (by rfl), List.append_nil] at horder
  exact horder.symm

/-- No `Terminate` is received in front of a job. -/
lemma started_eq (h : pool.Ledger panics jobs received) (hne : pool.terminated ≠ []) :
    received.filterMap Message.job? = jobs := by
  have horder := h.order
  rw [List.append_assoc, List.append_assoc] at horder
  rcases List.append_eq_append_iff.1 horder with ⟨rest, hrest, -⟩ | ⟨ends, rfl, hends⟩
  · -- only jobs have been received
    obtain ⟨started, later, rfl, hstarted, -⟩ := List.map_eq_append_iff.1 hrest
    have hcount := h.count
    rw [← hstarted, filterMap_job?_newJob, List.length_map] at hcount
    exact absurd (List.eq_nil_of_length_eq_zero (by omega)) hne
  · have hterminate : ends.filterMap Message.job? = [] := by
      refine List.filterMap_eq_nil_iff.2 fun message hmem => ?_
      have hall : message ∈ List.replicate (n + n) (Message.terminate : Message J) := by
        rw [hends]
        exact List.mem_append_left _ hmem
      rw [List.eq_of_mem_replicate hall]
      rfl
    rw [List.filterMap_append, filterMap_job?_newJob, hterminate, List.append_nil]

/-- When all workers have ended and some job was not taken, every worker was lost to a panic. -/
lemma panicked_length (h : pool.Ledger panics jobs received)
    (hended : ∀ w, ¬ (pool.worker w).InLoop) (hleft : received.filterMap Message.job? ≠ jobs) :
    pool.panicked.length = n := by
  have hnil : pool.terminated = [] := by
    by_contra hne
    exact hleft (h.started_eq hne)
  have hall : ∀ w, w ∈ pool.panicked.map Prod.fst := by
    intro w
    have hexited := h.exited w
    rw [hnil] at hexited
    rw [h.unwound w]
    cases hw : pool.worker w with
    | unwound => rfl
    | exited => exact absurd (hexited.2 hw) List.not_mem_nil
    | _ => exact absurd (by rw [hw]; trivial) (hended w)
  have hperm : (pool.panicked.map Prod.fst).Perm (List.finRange n) :=
    (List.perm_ext_iff_of_nodup h.once (List.nodup_finRange n)).2 fun w =>
      iff_of_true (hall w) (List.mem_finRange w)
  have hlength := hperm.length_eq
  rwa [List.length_map, List.length_finRange] at hlength

/-- While a worker is in its loop and the first `stop` waits in a join, the queue is not empty. -/
lemma queue_ne_nil (h : pool.Ledger panics jobs received) {w : Fin n}
    (hw : (pool.worker w).InLoop) (hsend : pool.toSend = List.replicate n .terminate) :
    pool.queue ≠ [] := by
  intro hqueue
  have hdiscarded : pool.discarded = [] := by
    by_contra hne
    exact h.closed hne ⟨w, hw⟩
  have horder := h.order
  rw [hqueue, hdiscarded, hsend, List.append_nil, List.append_nil, List.replicate_add,
    ← List.append_assoc] at horder
  have hreceived := List.append_cancel_right horder
  have hcount := h.count
  rw [hreceived, List.filterMap_append, filterMap_job?_newJob,
    List.filterMap_replicate_of_none (by rfl), List.append_nil, List.length_append,
    List.length_map, List.length_replicate] at hcount
  -- all workers have received their `Terminate`
  have hnotMem : w ∉ pool.terminated := by
    intro hmem
    rw [(h.exited w).1 hmem] at hw
    exact hw
  have hle : (w :: pool.terminated).length ≤ (Finset.univ : Finset (Fin n)).card :=
    (List.nodup_cons.2 ⟨hnotMem, h.nodup⟩).length_le_card
  rw [Finset.card_univ, Fintype.card_fin, List.length_cons] at hle
  omega

/-- **No interleaving gets stuck**, whatever panics: as long as `stop` has not returned, the owner
or a worker has a step. -/
lemma progress (h : pool.Ledger panics jobs received) :
    pool.StopReturned ∨ ∃ pool', Step panics pool pool' := by
  by_cases hgo : pool.StopReturned
  · exact .inl hgo
  refine .inr ?_
  cases hcalls : pool.calls with
  | nil => exact absurd (by unfold StopReturned; rw [hcalls]; exact List.nil_suffix) hgo
  | cons call calls =>
    cases call with
    | send message =>
      by_cases hopen : pool.Connected
      · exact ⟨_, .send hcalls hopen⟩
      · exact ⟨_, .sendFailed hcalls hopen⟩
    | join w =>
      cases hthread : pool.thread w with
      | false => exact ⟨_, .joinTaken hcalls hthread⟩
      | true =>
        have hsend := toSend_of_join hcalls h.calls hgo
        by_cases hin : (pool.worker w).InLoop
        · obtain ⟨pool', hpool, -⟩ := exists_work ⟨w, hin⟩ (h.queue_ne_nil hin hsend)
          exact ⟨pool', hpool⟩
        · exact ⟨_, .join hcalls hthread hin⟩

/-- When `stop` has returned, no handle is left, and no worker. -/
lemma ended_of_returned (h : pool.Ledger panics jobs received) (hreturned : pool.StopReturned)
    (w : Fin n) : pool.thread w = false ∧ ¬ (pool.worker w).InLoop := by
  have hle := (hreturned.sublist.filterMap Call.worker?).count_le w
  rw [filterMap_worker?_stop,
    List.count_eq_one_of_mem (List.nodup_finRange n) (List.mem_finRange w)] at hle
  have hthread : pool.thread w = false := by
    cases htrue : pool.thread w with
    | false => rfl
    | true =>
      have htwo := (h.thread w).1 htrue
      unfold toJoin at htwo
      omega
  exact ⟨hthread, h.joined w hthread⟩

end Ledger

/-! ## The results -/

/-- **No job is lost or overtaken.** In every pool that is reached, whatever panics, the submitted
jobs are, in their order, those that workers have taken, those in the queue, those that came back
from the closed channel, and those to come. Those that were taken are being run, have completed or
have panicked, each of them once. A worker ends through `Terminate` only behind all jobs, and a job
comes back only when a panic has ended every worker.

**Proof sketch.** The account of the pool, read through the jobs of the messages. -/
theorem jobs_in_order (h : System.Reachable (Step panics) (start n jobs) pool) :
    ∃ started : List J,
      jobs = started ++ pool.waiting ++ pool.lost ++ pool.toCome ∧
      (started : Multiset J) = pool.taken ∧
      (∀ entry ∈ pool.completed, ¬ panics entry.2) ∧
      (∀ entry ∈ pool.panicked, panics entry.2) ∧
      (pool.terminated ≠ [] → started = jobs) ∧
      (pool.lost ≠ [] → pool.panicked.length = n) := by
  obtain ⟨received, hledger⟩ := exists_ledger h
  refine ⟨received.filterMap Message.job?, hledger.jobs_eq, hledger.taken, hledger.completed,
    hledger.panicked, hledger.started_eq, fun hlost => ?_⟩
  have hdiscarded : pool.discarded ≠ [] := by
    intro hnil
    refine hlost ?_
    unfold lost
    rw [hnil]
    rfl
  refine hledger.panicked_length (fun w hw => hledger.closed hdiscarded ⟨w, hw⟩) fun hall =>
    hlost ?_
  -- nothing is behind the jobs that were taken
  have hjobs := hledger.jobs_eq
  rw [hall, List.append_assoc, List.append_assoc] at hjobs
  have hnil := List.append_cancel_left ((List.append_nil jobs).trans hjobs)
  exact (List.append_eq_nil_iff.1 (List.append_eq_nil_iff.1 hnil.symm).2).1

/-- A pool with one worker, which is lost to the first of two jobs: the second one comes back. -/
theorem jobs_in_order_lost :
    ∃ pool, System.Reachable (Step (· = true)) (start 1 [true, false]) pool ∧
      pool.lost = [false] ∧ pool.panicked.length = 1 := by
  have hrun : System.Reachable (Step (· = true)) (start 1 [true, false])
      { start 1 [true, false] with
        calls := run false ++ stop 1 ++ stop 1
        worker := Function.update (start 1 [true, false]).worker 0 (.running true) } :=
    reachable_running rfl (fun _ => nofun) rfl rfl
  have hlost := hrun.next (.panic (w := 0) (Function.update_self 0 (.running true)
    (start 1 [true, false]).worker) rfl)
  have hclosed : ¬ ∃ w : Fin 1, (Function.update (Function.update
      (start 1 [true, false]).worker 0 (.running true)) 0 .unwound w).InLoop := by
    rintro ⟨w, hw⟩
    rw [Subsingleton.elim w 0, Function.update_self] at hw
    exact hw
  have hreach := hlost.next (.sendFailed rfl hclosed)
  obtain ⟨_, -, -, -, -, -, hall⟩ := jobs_in_order hreach
  exact ⟨_, hreach, rfl, hall (List.cons_ne_nil _ _)⟩

/-- The jobs that were run, sorted by how they ended. -/
lemma perm_filter [DecidablePred panics] {started completed panicked : List J}
    (h : (started : Multiset J) = completed + panicked)
    (hcompleted : ∀ job ∈ completed, ¬ panics job) (hpanicked : ∀ job ∈ panicked, panics job) :
    completed.Perm (started.filter fun job => ¬ panics job) ∧
      panicked.Perm (started.filter fun job => panics job) := by
  have hperm : started.Perm (completed ++ panicked) := by
    rwa [Multiset.coe_add, Multiset.coe_eq_coe] at h
  constructor
  · refine (List.Perm.of_eq ?_).trans (hperm.filter fun job => ¬ panics job).symm
    rw [List.filter_append, List.filter_eq_self.2 (by simpa using hcompleted),
      List.filter_eq_nil_iff.2 (by simpa using hpanicked), List.append_nil]
  · refine (List.Perm.of_eq ?_).trans (hperm.filter fun job => panics job).symm
    rw [List.filter_append, List.filter_eq_nil_iff.2 (by simpa using hcompleted),
      List.filter_eq_self.2 (by simpa using hpanicked), List.nil_append]

/-- When `stop` has returned, the pool is drained. -/
lemma Ledger.drained [DecidablePred panics] {received : List (Message J)}
    (h : pool.Ledger panics jobs received) (hreturned : pool.StopReturned) :
    pool.Drained panics jobs := by
  have hended := h.ended_of_returned hreturned
  have hjobs := h.jobs_eq
  rw [List.append_assoc, List.append_assoc] at hjobs
  have hheld : ∑ w, WorkerState.held (pool.worker w) = 0 := by
    refine Finset.sum_eq_zero fun w _ => ?_
    have hw := (hended w).2
    cases hstate : pool.worker w with
    | running job => exact absurd (by rw [hstate]; trivial) hw
    | _ => rfl
  have htaken := h.taken
  rw [ThreadPool.taken, hheld, zero_add] at htaken
  obtain ⟨hcompleted, hpanicked⟩ := perm_filter htaken
    (List.forall_mem_map.2 h.completed) (List.forall_mem_map.2 h.panicked)
  have hlost : ∀ left, jobs = received.filterMap Message.job? ++ left → left ≠ [] →
      pool.panicked.length = n := by
    intro left hall hne
    refine h.panicked_length (fun w => (hended w).2) fun hself => hne ?_
    rw [hself] at hall
    exact (List.append_cancel_left ((List.append_nil jobs).trans hall)).symm
  refine ⟨hended, _, _, hjobs, hcompleted, hpanicked, hlost _ hjobs, fun hfew => ?_⟩
  by_contra hne
  have hfront : received.filterMap Message.job? <+: jobs := ⟨_, hjobs.symm⟩
  have hle := (hfront.sublist.filter fun job => panics job).length_le
  rw [← hpanicked.length_eq, List.length_map, hlost _ hjobs hne] at hle
  exact absurd hfew (Nat.not_lt.2 hle)

/-- **`stop` returns, whatever panics**, in every run in which the jobs that are run end or panic,
and leaves a drained pool behind. That a job which is run has a last step is in `Step`: one that
never ended would keep its worker from being joined.

**Proof sketch.** Every step uses up something, and the account leaves some step possible. Nothing
is held by a worker that has ended, so that the jobs that were taken are the completed and the
panicked ones. -/
theorem stop_returns [DecidablePred panics] (n : ℕ) (jobs : List J) :
    System.Inevitable (Step panics) StopReturned (start n jobs) ∧
    ∀ pool, System.Reachable (Step panics) (start n jobs) pool → pool.StopReturned →
      pool.Drained panics jobs := by
  constructor
  · apply System.inevitable_of_measure (I := fun pool =>
      ∃ received, pool.Ledger panics jobs received) remaining
    · rintro pool pool' ⟨received, hledger⟩ hstep
      exact hledger.step hstep
    · rintro pool ⟨received, hledger⟩
      exact hledger.progress
    · exact fun pool pool' hstep => hstep.remaining_lt
    · exact ⟨[], ledger_start panics n jobs⟩
  · intro pool hreach hreturned
    obtain ⟨received, hledger⟩ := exists_ledger hreach
    exact hledger.drained hreturned

end ThreadPool

end Httpageboy
