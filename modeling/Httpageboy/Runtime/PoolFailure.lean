import Httpageboy.Runtime.ThreadPool

set_option relaxedAutoImplicit false
set_option autoImplicit false

/-!
# Failing jobs in the thread pool

A job that panics unwinds through the loop of the worker that runs it: nothing catches the panic
around `job()`, and no thread takes the place of the one that ends. Before `stop` is called this is
the only way out of the loop. `run` ignores that a message comes back from a closed channel.

## Main definitions

* `Httpageboy.ThreadPool.Staffed` — all workers are in their loop.
* `Httpageboy.ThreadPool.Stranded` — a job is left, and no worker to take it.

## Main results

* `Httpageboy.ThreadPool.Roster.step` — the invariant, up to the call of `stop`.
* `Httpageboy.ThreadPool.staffed_iff` — which runs keep all workers.
-/

namespace Httpageboy

namespace ThreadPool

variable {n : ℕ} {J : Type} {panics : J → Prop} {jobs : List J} {pool pool' : ThreadPool n J}

/-- All `n` workers are in their receive loop, waiting for a message or running a job. -/
def Staffed (pool : ThreadPool n J) : Prop := ∀ w, (pool.worker w).InLoop

/-- No worker is left, and a job that was submitted is in the queue or was silently discarded. -/
def Stranded (pool : ThreadPool n J) : Prop :=
  ¬ pool.Connected ∧ ∃ job, .newJob job ∈ pool.queue ++ pool.discarded

/-- The invariant before `stop`: a worker has left its loop exactly when its job panicked, and all
jobs come from those that were submitted. -/
structure Roster (panics : J → Prop) (jobs : List J) (pool : ThreadPool n J) : Prop where
  calls : ∃ later : List J, later ⊆ jobs ∧ pool.calls = later.flatMap run ++ stop n ++ stop n
  queue : ∀ message ∈ pool.queue, ∃ job ∈ jobs, message = .newJob job
  running : ∀ w job, pool.worker w = .running job → job ∈ jobs
  exited : ∀ w, pool.worker w ≠ .exited
  unwound : ∀ w, pool.worker w = .unwound ↔ w ∈ pool.panicked.map Prod.fst
  panicked : ∀ entry ∈ pool.panicked, entry.2 ∈ jobs ∧ panics entry.2

namespace Roster

/-- The next call of an owner that has not called `stop` sends a job; otherwise `stop` begins. -/
lemma next_call (h : pool.Roster panics jobs) {call : Call n J} {calls : List (Call n J)}
    (hcalls : pool.calls = call :: calls) :
    (∃ job ∈ jobs, call = .send (.newJob job) ∧
      ∃ later : List J, later ⊆ jobs ∧ calls = later.flatMap run ++ stop n ++ stop n) ∨
    calls.length < 4 * n := by
  obtain ⟨later, hsubset, hlater⟩ := h.calls
  rw [hcalls] at hlater
  cases later with
  | nil =>
    refine .inr ?_
    have hlength := congrArg List.length hlater
    rw [List.flatMap_nil, List.nil_append, List.length_append, length_stop, List.length_cons]
      at hlength
    omega
  | cons job later =>
    obtain ⟨hjob, hrest⟩ := List.cons_subset.1 hsubset
    obtain ⟨rfl, rfl⟩ := List.cons.inj hlater
    exact .inl ⟨job, hjob, rfl, later, hrest, rfl⟩

/-- A move of a worker that stays in its loop. -/
lemma move (h : pool.Roster panics jobs) {w : Fin n} {state : WorkerState J}
    (hw : (pool.worker w).InLoop) (hstate : state.InLoop)
    (hrunning : ∀ job, state = .running job → job ∈ jobs) {queue : List (Message J)}
    (hqueue : ∀ message ∈ queue, message ∈ pool.queue) (completed : List (Fin n × J)) :
    Roster panics jobs
      { pool with
        queue := queue
        worker := Function.update pool.worker w state
        completed := completed } := by
  refine
    { calls := h.calls
      queue := fun message hmem => h.queue message (hqueue message hmem)
      running := (Function.forall_update_iff pool.worker fun _ state =>
        ∀ job, state = .running job → job ∈ jobs).2 ⟨hrunning, fun v _ => h.running v⟩
      exited := (Function.forall_update_iff pool.worker fun _ state => state ≠ .exited).2
        ⟨?_, fun v _ => h.exited v⟩
      unwound := (Function.forall_update_iff pool.worker fun v state =>
        state = .unwound ↔ v ∈ pool.panicked.map Prod.fst).2 ⟨?_, fun v _ => h.unwound v⟩
      panicked := h.panicked }
  · rintro rfl
    exact hstate
  · rw [← h.unwound w]
    constructor
    · rintro rfl
      exact hstate.elim
    · intro hunwound
      rw [hunwound] at hw
      exact hw.elim

/-- A job panics. -/
lemma panic (h : pool.Roster panics jobs) {w : Fin n} {job : J}
    (hw : pool.worker w = .running job) (hpanics : panics job) :
    Roster panics jobs
      { pool with
        worker := Function.update pool.worker w .unwound
        panicked := pool.panicked ++ [(w, job)] } := by
  refine
    { calls := h.calls
      queue := h.queue
      running := (Function.forall_update_iff pool.worker fun _ state =>
        ∀ job, state = .running job → job ∈ jobs).2 ⟨nofun, fun v _ => h.running v⟩
      exited := (Function.forall_update_iff pool.worker fun _ state => state ≠ .exited).2
        ⟨nofun, fun v _ => h.exited v⟩
      unwound := (Function.forall_update_iff pool.worker fun v state =>
        state = .unwound ↔ v ∈ (pool.panicked ++ [(w, job)]).map Prod.fst).2
        ⟨?_, fun v hv => ?_⟩
      panicked := fun entry hmem => ?_ }
  · rw [List.map_append]
    exact ⟨fun _ => List.mem_append_right _ List.mem_cons_self, fun _ => rfl⟩
  · rw [h.unwound v, List.map_append, List.mem_append]
    exact (or_iff_left fun hmem => hv (List.mem_singleton.1 hmem)).symm
  · rcases List.mem_append.1 hmem with hmem | hmem
    · exact h.panicked entry hmem
    · obtain rfl := List.mem_singleton.1 hmem
      exact ⟨h.running w job hw, hpanics⟩

/-- **Every step preserves the invariant**, until `stop` is called.

**Proof sketch.** By the step. As long as `stop` has not been called there is no message to
terminate, so that a worker only ends by a panic. -/
theorem step (h : pool.Roster panics jobs) (hstep : Step panics pool pool') :
    pool'.Roster panics jobs ∨ pool'.calls.length < 4 * n := by
  have hunterminated : ∀ {queue : List (Message J)}, pool.queue ≠ .terminate :: queue := by
    intro queue hqueue
    obtain ⟨job, -, heq⟩ := h.queue .terminate (hqueue ▸ List.mem_cons_self)
    cases heq
  cases hstep with
  | send hcalls hopen =>
    refine (h.next_call hcalls).imp_left ?_
    rintro ⟨job, hjob, hcall, hlater⟩
    cases hcall
    refine { h with calls := hlater, queue := fun message hmem => ?_ }
    rcases List.mem_append.1 hmem with hmem | hmem
    · exact h.queue message hmem
    · exact ⟨job, hjob, List.mem_singleton.1 hmem⟩
  | sendFailed hcalls hclosed =>
    refine (h.next_call hcalls).imp_left ?_
    rintro ⟨_, _, _, hlater⟩
    exact { h with calls := hlater }
  | join hcalls hthread hended =>
    refine (h.next_call hcalls).imp_left ?_
    rintro ⟨_, _, hcall, _⟩
    cases hcall
  | joinTaken hcalls hthread =>
    refine (h.next_call hcalls).imp_left ?_
    rintro ⟨_, _, hcall, _⟩
    cases hcall
  | @lock w hw hfree =>
    refine .inl (h.move ?_ ?_ ?_ (fun _ => id) pool.completed)
    · rw [hw]; trivial
    · trivial
    · exact nofun
  | @recvJob w job queue hw hqueue =>
    refine .inl (h.move ?_ ?_ ?_ (fun message hmem => ?_) pool.completed)
    · rw [hw]; trivial
    · trivial
    · rintro job' ⟨⟩
      obtain ⟨job', hjob, heq⟩ := h.queue (.newJob job) (hqueue ▸ List.mem_cons_self)
      cases heq
      exact hjob
    · rw [hqueue]
      exact List.mem_cons_of_mem _ hmem
  | recvTerminate hw hqueue => exact absurd hqueue hunterminated
  | @finish w job hw hok =>
    refine .inl (h.move ?_ ?_ ?_ (fun _ => id) _)
    · rw [hw]; trivial
    · trivial
    · exact nofun
  | panic hw hpanics => exact .inl (h.panic hw hpanics)

/-- All workers are there exactly as long as no job has panicked. -/
lemma panicked_eq_nil_iff (h : pool.Roster panics jobs) : pool.panicked = [] ↔ pool.Staffed := by
  constructor
  · intro hnil w
    have hexited := h.exited w
    have hunwound := h.unwound w
    rw [hnil] at hunwound
    cases hw : pool.worker w with
    | exited => exact absurd hw hexited
    | unwound => exact absurd (hunwound.1 hw) List.not_mem_nil
    | _ => trivial
  · intro hstaffed
    by_contra hne
    obtain ⟨entry, hmem⟩ := List.exists_mem_of_ne_nil _ hne
    have hunwound := (h.unwound entry.1).2 (List.mem_map_of_mem hmem)
    have hin := hstaffed entry.1
    rw [hunwound] at hin
    exact hin

end Roster

/-- A new pool keeps the invariant. -/
lemma roster_start (panics : J → Prop) (n : ℕ) (jobs : List J) :
    (start n jobs).Roster panics jobs where
  calls := ⟨jobs, List.Subset.refl jobs, rfl⟩
  queue := nofun
  running := nofun
  exited := nofun
  unwound := fun _ => ⟨nofun, nofun⟩
  panicked := nofun

/-- No step adds to the calls of the owner. -/
lemma Step.calls_length_le (h : Step panics pool pool') :
    pool'.calls.length ≤ pool.calls.length := by
  cases h with
  | send hcalls | sendFailed hcalls | join hcalls | joinTaken hcalls =>
    rw [hcalls]
    exact Nat.le_succ _
  | _ => exact le_rfl

/-- Every pool that is reached before `stop` is called keeps the invariant. -/
lemma roster_of_reachable (h : System.Reachable (Step panics) (start n jobs) pool)
    (hbefore : pool.BeforeStop) : pool.Roster panics jobs := by
  have hall : pool.Roster panics jobs ∨ pool.calls.length < 4 * n := by
    refine h.invariant (I := fun other => other.Roster panics jobs ∨
      other.calls.length < 4 * n) (.inl (roster_start panics n jobs)) ?_
    rintro other next (hroster | hlength) hstep
    · exact hroster.step hstep
    · exact .inr (hstep.calls_length_le.trans_lt hlength)
  refine hall.resolve_right fun hlength => ?_
  obtain ⟨later, hlater⟩ := hbefore
  rw [hlater, List.length_append, List.length_append, length_stop] at hlength
  omega

/-! ## A run that loses a worker -/

/-- A worker that waits for the lock takes the next job, when nothing is in front of it. -/
lemma reachable_running {w : Fin n} {job : J} {calls : List (Call n J)}
    (hw : pool.worker w = .locking) (hfree : ∀ v, pool.worker v ≠ .receiving)
    (hqueue : pool.queue = []) (hcalls : pool.calls = run job ++ calls) :
    System.Reachable (Step panics) pool
      { pool with calls := calls, worker := Function.update pool.worker w (.running job) } := by
  have hopen : pool.Connected := ⟨w, by rw [hw]; trivial⟩
  refine (((System.Reachable.refl pool).next (.send hcalls hopen)).next (.lock hw hfree)).next ?_
  rw [← Function.update_idem .receiving (.running job) pool.worker]
  refine .recvJob (Function.update_self w .receiving pool.worker) ?_
  show pool.queue ++ [.newJob job] = .newJob job :: pool.queue
  rw [hqueue]
  rfl

/-- A pool of idle workers that is given jobs, one of which panics, loses a worker before `stop` is
called.

**Proof sketch.** One worker runs the jobs in their order, up to the first one that panics. -/
lemma exists_not_staffed (pool : ThreadPool n J) (w : Fin n)
    (hidle : pool.worker = fun _ => .locking) (hqueue : pool.queue = [])
    (hcalls : pool.calls = jobs.flatMap run ++ stop n ++ stop n)
    (hpanics : ∃ job ∈ jobs, panics job) :
    ∃ pool', System.Reachable (Step panics) pool pool' ∧ pool'.BeforeStop ∧
      ¬ pool'.Staffed := by
  induction jobs generalizing pool with
  | nil => exact absurd hpanics nofun
  | cons job later ih =>
    have hrun : System.Reachable (Step panics) pool
        { pool with
          calls := later.flatMap run ++ stop n ++ stop n
          worker := Function.update pool.worker w (.running job) } := by
      refine reachable_running ?_ ?_ hqueue hcalls
      · rw [hidle]
      · intro v
        rw [hidle]
        exact nofun
    by_cases hjob : panics job
    · refine ⟨_, hrun.next (.panic (Function.update_self w (.running job) pool.worker) hjob),
        ⟨later, rfl⟩, fun hstaffed => ?_⟩
      have hin := hstaffed w
      simp only [Function.update_self] at hin
      exact hin
    · have hlater : ∃ job ∈ later, panics job := by
        obtain ⟨first, hmem, hfirst⟩ := hpanics
        rcases List.mem_cons.1 hmem with rfl | hmem
        · exact absurd hfirst hjob
        · exact ⟨first, hmem, hfirst⟩
      have hfinish := hrun.next (.finish (Function.update_self w (.running job) pool.worker) hjob)
      have hworker : Function.update (Function.update pool.worker w (.running job)) w .locking =
          fun _ => .locking := by
        rw [Function.update_idem, hidle]
        exact Function.update_eq_self w _
      obtain ⟨pool', hreach, hbefore, hlost⟩ := ih
        { pool with
          calls := later.flatMap run ++ stop n ++ stop n
          worker := Function.update (Function.update pool.worker w (.running job)) w .locking
          completed := pool.completed ++ [(w, job)] } hworker hqueue rfl hlater
      exact ⟨pool', hfinish.trans hreach, hbefore, hlost⟩

/-- **A failing handler costs the pool a worker.** Before `stop` is called, all workers are in
their receive loop, and no job is left without a worker, exactly as long as no job has panicked.
So this holds in all runs exactly when none of the submitted jobs panics.

**Proof sketch.** The invariant leaves a panic as the only way out of a loop. Conversely, a single
worker that runs all jobs comes to the one that panics. -/
theorem staffed_iff (hn : 0 < n) (panics : J → Prop) (jobs : List J) :
    (∀ pool, System.Reachable (Step panics) (start n jobs) pool → pool.BeforeStop →
      (pool.Staffed ∧ ¬ pool.Stranded ↔ pool.panicked = [])) ∧
    ((∀ pool, System.Reachable (Step panics) (start n jobs) pool → pool.BeforeStop →
      pool.Staffed ∧ ¬ pool.Stranded) ↔ ∀ job ∈ jobs, ¬ panics job) := by
  have hstate : ∀ pool, System.Reachable (Step panics) (start n jobs) pool → pool.BeforeStop →
      (pool.Staffed ∧ ¬ pool.Stranded ↔ pool.panicked = []) := by
    intro pool hreach hbefore
    rw [(roster_of_reachable hreach hbefore).panicked_eq_nil_iff]
    refine and_iff_left_of_imp ?_
    rintro hstaffed ⟨hclosed, -⟩
    exact hclosed ⟨⟨0, hn⟩, hstaffed ⟨0, hn⟩⟩
  refine ⟨hstate, fun hall job hjob hpanics => ?_, fun hall pool hreach hbefore => ?_⟩
  · obtain ⟨pool, hreach, hbefore, hlost⟩ :=
      exists_not_staffed (start n jobs) ⟨0, hn⟩ rfl rfl rfl ⟨job, hjob, hpanics⟩
    exact hlost (hall pool hreach hbefore).1
  · refine (hstate pool hreach hbefore).2 (List.eq_nil_iff_forall_not_mem.2 fun entry hmem => ?_)
    obtain ⟨hjob, hpanics⟩ := (roster_of_reachable hreach hbefore).panicked entry hmem
    exact hall entry.2 hjob hpanics

/-- Failing jobs take the workers `ws` that are left, one each, and the next job is discarded.

**Proof sketch.** Induction on the workers that are left: the first failing job is taken by the
first of them, which it ends. When none is left, the channel is closed, and the next job comes back
from it. -/
lemma exists_stranded (pool : ThreadPool n J) (ws : List (Fin n)) (hnodup : ws.Nodup)
    (hworker : pool.worker = fun v => if v ∈ ws then .locking else .unwound)
    (hqueue : pool.queue = []) (failing : List J) (hfailing : ∀ job ∈ failing, panics job)
    (hlength : failing.length = ws.length) (job : J) (later : List J)
    (hcalls : pool.calls = (failing ++ job :: later).flatMap run ++ stop n ++ stop n) :
    ∃ pool', System.Reachable (Step panics) pool pool' ∧ pool'.BeforeStop ∧ pool'.Stranded := by
  induction ws generalizing pool failing with
  | nil =>
    obtain rfl := List.eq_nil_of_length_eq_zero hlength
    have hclosed : ¬ pool.Connected := by
      rintro ⟨v, hv⟩
      rw [hworker] at hv
      exact hv
    refine ⟨_, (System.Reachable.refl pool).next (.sendFailed hcalls hclosed), ⟨later, rfl⟩,
      hclosed, job, ?_⟩
    exact List.mem_append_right _ (List.mem_append_right _ List.mem_cons_self)
  | cons w ws ih =>
    obtain ⟨hnotMem, hrest⟩ := List.nodup_cons.1 hnodup
    cases failing with
    | nil => exact absurd hlength (Nat.succ_ne_zero _).symm
    | cons bad failing =>
      have hrun : System.Reachable (Step panics) pool
          { pool with
            calls := (failing ++ job :: later).flatMap run ++ stop n ++ stop n
            worker := Function.update pool.worker w (.running bad) } := by
        refine reachable_running ?_ ?_ hqueue hcalls
        · rw [hworker]
          exact if_pos List.mem_cons_self
        · intro v
          rw [hworker]
          show (if v ∈ w :: ws then _ else _) ≠ WorkerState.receiving
          split_ifs <;> exact nofun
      have hlost := hrun.next (.panic (Function.update_self w (.running bad) pool.worker)
        (hfailing bad List.mem_cons_self))
      have hworker' : Function.update (Function.update pool.worker w (.running bad)) w .unwound =
          fun v => if v ∈ ws then .locking else .unwound := by
        rw [Function.update_idem, hworker]
        funext v
        by_cases hv : v = w
        · subst hv
          rw [Function.update_self, if_neg hnotMem]
        · rw [Function.update_of_ne hv]
          simp only [List.mem_cons, hv, false_or]
      obtain ⟨pool', hreach, hbefore, hstranded⟩ := ih
        { pool with
          calls := (failing ++ job :: later).flatMap run ++ stop n ++ stop n
          worker := Function.update (Function.update pool.worker w (.running bad)) w .unwound
          panicked := pool.panicked ++ [(w, bad)] }
        hrest hworker' hqueue failing
        (fun job hjob => hfailing job (List.mem_cons_of_mem bad hjob)) (Nat.succ.inj hlength) rfl
      exact ⟨pool', hlost.trans hreach, hbefore, hstranded⟩

/-- Two jobs that panic in a pool of two workers, and a third one that nobody will run. -/
theorem twoPanics_stranded :
    ∃ pool, System.Reachable (Step (· = true)) (start 2 [true, true, false]) pool ∧
      pool.BeforeStop ∧ pool.Stranded ∧ ¬ pool.Staffed := by
  have hrun : ∃ pool, System.Reachable (Step (· = true)) (start 2 [true, true, false]) pool ∧
      pool.BeforeStop ∧ pool.Stranded := by
    apply exists_stranded (start 2 [true, true, false]) (List.finRange 2) (List.nodup_finRange 2)
      (funext fun v => (if_pos (List.mem_finRange v)).symm) rfl [true, true] _ rfl false [] rfl
    simp
  obtain ⟨pool, hreach, hbefore, hstranded⟩ := hrun
  exact ⟨pool, hreach, hbefore, hstranded, fun hstaffed => hstranded.1 ⟨0, hstaffed 0⟩⟩

/-- A pool of two workers with jobs that do not panic. -/
theorem staffed_iff_two :
    0 < 2 ∧ ∀ pool, System.Reachable (Step (· = true)) (start 2 [false, false, false]) pool →
      pool.BeforeStop → pool.Staffed ∧ ¬ pool.Stranded :=
  ⟨by decide, (staffed_iff (by decide) (· = true) [false, false, false]).2.2 (by simp)⟩

end ThreadPool

end Httpageboy
