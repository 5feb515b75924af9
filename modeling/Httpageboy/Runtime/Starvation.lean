import Httpageboy.Runtime.SyncServer

set_option relaxedAutoImplicit false
set_option autoImplicit false

/-!
# No stream starves

The synchronous server hands every accepted stream to its pool, where it waits behind those that
were accepted before it. Whatever else connects, fails or is signalled in the meantime, the workers
get to it, unless panics have ended all of them. The steps are those of the workers; the thread of
the server, its clients and the signal are events around them.

## Main definitions

* `Httpageboy.SyncServer.Work`, `Httpageboy.SyncServer.Around` — what the workers do, and what
  happens around them.
* `Httpageboy.SyncServer.Reached` — workers have taken a stream, and those accepted before it.

## Main results

* `Httpageboy.SyncServer.Pending.way_lt` — every step of a worker brings a stream nearer.
* `Httpageboy.SyncServer.no_starvation` — workers reach every stream that was handed to the pool.
-/

namespace Httpageboy

variable {n : ℕ} {E S : Type} {panics : S → Prop}

/-! ## Workers that are left -/

namespace ThreadPool

variable {J : Type} {panics : J → Prop} {jobs : List J} {pool pool' : ThreadPool n J}
  {received : List (Message J)}

/-- The jobs that have panicked are among those that were taken. -/
lemma Ledger.length_panicked_le [DecidablePred panics] (h : pool.Ledger panics jobs received) :
    pool.panicked.length ≤
      ((received.filterMap Message.job?).filter fun job => panics job).length := by
  have hle : (pool.panicked.map Prod.snd : Multiset J) ≤ received.filterMap Message.job? := by
    rw [h.taken, ThreadPool.taken]
    exact (Multiset.le_add_left _ _).trans (Multiset.le_add_left _ _)
  have hall : (pool.panicked.map Prod.snd).filter (fun job => panics job) =
      pool.panicked.map Prod.snd :=
    List.filter_eq_self.2 fun job hmem => by
      obtain ⟨entry, hentry, rfl⟩ := List.mem_map.1 hmem
      exact decide_eq_true (h.panicked entry hentry)
  have hsub := ((Multiset.coe_le.1 hle).filter fun job => panics job).length_le
  rwa [hall, List.length_map] at hsub

/-- A pool whose workers have ended has none left because they panicked, unless all jobs were
taken. -/
lemma Ledger.connected [DecidablePred panics] (h : pool.Ledger panics jobs received)
    {before after : List J} {job : J} (hjobs : jobs = before ++ job :: after)
    (hfew : (before.filter fun job => panics job).length < n)
    (hfront : (received.filterMap Message.job?).length ≤ before.length) : pool.Connected := by
  by_contra hclosed
  have hended : ∀ w, ¬ (pool.worker w).InLoop := fun w hw => hclosed ⟨w, hw⟩
  have hstarted : received.filterMap Message.job? <+: jobs := ⟨_, by
    rw [← List.append_assoc, ← List.append_assoc]
    exact h.jobs_eq.symm⟩
  have hbefore : received.filterMap Message.job? <+: before := by
    rw [hjobs] at hstarted
    exact List.prefix_of_prefix_length_le hstarted (List.prefix_append _ _) hfront
  have hpanicked := h.panicked_length hended fun hall => by
    have hlength := congrArg List.length (hall.trans hjobs)
    rw [List.length_append, List.length_cons] at hlength
    omega
  have hle := h.length_panicked_le
  have hmore := (hbefore.sublist.filter fun job => panics job).length_le
  omega

end ThreadPool

namespace SyncServer

variable {server server' : SyncServer n E S} {before : List S} {stream : S}

/-! ## The workers and what is around them -/

/-- A step of a worker, which leaves the calls of the pool alone. -/
def Work (panics : S → Prop) (server server' : SyncServer n E S) : Prop :=
  ∃ pool, ThreadPool.Step panics server.pool pool ∧ pool.calls = server.pool.calls ∧
    server' = { server with pool := pool }

/-- Anything else: what the thread of the server does, its clients, and the signal. -/
def Around (panics : S → Prop) (server server' : SyncServer n E S) : Prop :=
  Next panics server server' ∧ ¬ Work panics server server'

/-- Workers have taken the stream and those that were accepted before it, each of them once. -/
def Reached (before : List S) (stream : S) (server : SyncServer n E S) : Prop :=
  ∃ rest, before ++ stream :: rest <+: server.accepted ∧
    ((before ++ stream :: rest : List S) : Multiset S) = server.pool.taken

/-- Every accepted stream was taken, waits, was lost, or is being handed over. -/
lemma Refines.length_accepted (h : server.Refines panics) :
    server.accepted.length = Multiset.card server.pool.taken + server.pool.waiting.length +
      server.pool.lost.length + server.pool.toCome.length := by
  obtain ⟨started, haccepted, htaken⟩ := h.accepted_eq
  rw [← htaken, Multiset.coe_card, haccepted]
  simp only [List.length_append]

/-- The stream was reached when more streams were taken than came before it. -/
lemma Refines.reached_iff (h : server.Refines panics) {after : List S}
    (haccepted : server.accepted = before ++ stream :: after) :
    server.Reached before stream ↔ before.length < Multiset.card server.pool.taken := by
  constructor
  · rintro ⟨rest, -, htaken⟩
    rw [← htaken, Multiset.coe_card, List.length_append, List.length_cons]
    omega
  · intro hlt
    obtain ⟨started, hstarted, htaken⟩ := h.accepted_eq
    rw [← htaken, Multiset.coe_card] at hlt
    have hfront : started <+: before ++ stream :: after := by
      rw [← haccepted, hstarted, List.append_assoc, List.append_assoc]
      exact List.prefix_append _ _
    have hshort : before ++ [stream] <+: before ++ stream :: after :=
      ⟨after, List.append_cons before stream after ▸ rfl⟩
    obtain ⟨rest, hrest⟩ := List.prefix_of_prefix_length_le hshort hfront (by
      rw [List.length_append, List.length_singleton]
      exact hlt)
    rw [← List.append_cons] at hrest
    refine ⟨rest, ?_, ?_⟩
    · rw [hrest, haccepted]
      exact hfront
    · rw [hrest, htaken]

/-- As long as the stream was not reached, a worker is left. -/
lemma Refines.connected [DecidablePred panics] (h : server.Refines panics) {after : List S}
    (haccepted : server.accepted = before ++ stream :: after)
    (hfew : (before.filter fun other => panics other).length < n)
    (hfront : Multiset.card server.pool.taken ≤ before.length) : server.pool.Connected := by
  obtain ⟨calls, received, hledger, -⟩ := h.exists_account
  have htaken : (received.filterMap Message.job? : Multiset S) = server.pool.taken := hledger.taken
  rw [← htaken, Multiset.coe_card] at hfront
  exact hledger.connected haccepted hfew hfront

/-! ## Every step of a worker brings the stream nearer -/

/-- The streams accepted before a stream, and how it goes on: it is waiting, or was reached. -/
structure Pending (panics : S → Prop) (before : List S) (stream : S) (server : SyncServer n E S) :
    Prop where
  refines : server.Refines panics
  accepted : ∃ after, server.accepted = before ++ stream :: after
  submitted : before.length < Multiset.card server.pool.taken + server.pool.waiting.length

/-- Nothing that is accepted is forgotten. -/
lemma Next.keeps_accepted (h : Next panics server server') :
    server.accepted <+: server'.accepted := by
  rcases h with hstep | hevent
  · cases hstep with
    | accept | acceptFailed =>
      unfold accepted
      rw [List.filterMap_append]
      exact List.prefix_append _ _
    | _ => exact List.prefix_rfl
  · cases hevent <;> exact List.prefix_rfl

/-- A step of a worker takes streams out of the queue. -/
lemma Work.balance (h : Work panics server server') (hrefines : server.Refines panics) :
    server'.Refines panics ∧ server'.accepted = server.accepted ∧
      Multiset.card server'.pool.taken + server'.pool.waiting.length =
        Multiset.card server.pool.taken + server.pool.waiting.length := by
  obtain ⟨pool, hpool, hcalls, rfl⟩ := h
  have hrefines' := hrefines.next (.inl (.pool hpool))
  have hlost : pool.lost = server.pool.lost := by
    cases hpool with
    | sendFailed hsend =>
      rw [hsend] at hcalls
      exact absurd hcalls.symm (List.cons_ne_self _ _)
    | _ => rfl
  have htoCome : pool.toCome = server.pool.toCome := by
    unfold ThreadPool.toCome ThreadPool.toSend
    rw [hcalls]
  have hlength := hrefines.length_accepted
  have hlength' := hrefines'.length_accepted
  simp only [hlost, htoCome] at hlength'
  refine ⟨hrefines', rfl, ?_⟩
  have hsame : ({ server with pool := pool } : SyncServer n E S).accepted = server.accepted := rfl
  rw [hsame] at hlength'
  show Multiset.card pool.taken + pool.waiting.length = _
  omega

/-- What happens around the workers takes nothing out of the queue, and leaves them alone. -/
lemma Around.balance (h : Around panics server server') :
    server'.pool.worker = server.pool.worker ∧ server'.pool.taken = server.pool.taken ∧
      server.pool.waiting.length ≤ server'.pool.waiting.length := by
  obtain ⟨hnext, hnot⟩ := h
  rcases hnext with hstep | hevent
  · cases hstep with
    | pool hpool =>
      cases hpool with
      | send =>
        refine ⟨rfl, rfl, ?_⟩
        unfold ThreadPool.waiting
        rw [List.filterMap_append, List.length_append]
        exact Nat.le_add_right _ _
      | sendFailed | join | joinTaken => exact ⟨rfl, rfl, le_rfl⟩
      | lock hw hfree => exact absurd ⟨_, .lock hw hfree, rfl, rfl⟩ hnot
      | recvJob hw hqueue => exact absurd ⟨_, .recvJob hw hqueue, rfl, rfl⟩ hnot
      | recvTerminate hw hqueue => exact absurd ⟨_, .recvTerminate hw hqueue, rfl, rfl⟩ hnot
      | finish hw hok => exact absurd ⟨_, .finish hw hok, rfl, rfl⟩ hnot
      | panic hw hpanics => exact absurd ⟨_, .panic hw hpanics, rfl, rfl⟩ hnot
    | _ => exact ⟨rfl, rfl, le_rfl⟩
  · cases hevent <;> exact ⟨rfl, rfl, le_rfl⟩

/-- A stream stays where it is until workers reach it. -/
lemma Pending.work (h : Pending panics before stream server) (hwork : Work panics server server') :
    Pending panics before stream server' := by
  obtain ⟨hrefines, haccepted, hbalance⟩ := hwork.balance h.refines
  obtain ⟨after, hafter⟩ := h.accepted
  have hsubmitted := h.submitted
  exact ⟨hrefines, ⟨after, haccepted.trans hafter⟩, by omega⟩

/-- What goes on around the stream leaves it waiting. -/
lemma Pending.around (h : Pending panics before stream server)
    (haround : Around panics server server') : Pending panics before stream server' := by
  obtain ⟨-, htaken, hwaiting⟩ := haround.balance
  obtain ⟨after, hafter⟩ := h.accepted
  obtain ⟨later, hlater⟩ := haround.1.keeps_accepted
  have hsubmitted := h.submitted
  rw [← htaken] at hsubmitted
  refine ⟨h.refines.next haround.1, ⟨after ++ later, ?_⟩, by omega⟩
  rw [← hlater, hafter, List.append_assoc, List.cons_append]

/-- How far the workers are from a stream: three steps for each stream in front of it, and what
they have yet to do with those they have taken. -/
def way (before : List S) (server : SyncServer n E S) : ℕ :=
  3 * (before.length + 1 - Multiset.card server.pool.taken) +
    ∑ w, ThreadPool.WorkerState.weight (server.pool.worker w)

/-- **A step of a worker brings the stream nearer** that was not reached.

**Proof sketch.** What a worker does uses up something of the pool. It receives no `Terminate`, for
these come behind all streams. -/
lemma Pending.way_lt (h : Pending panics before stream server)
    (hnot : ¬ server.Reached before stream) (hwork : Work panics server server') :
    server'.way before < server.way before := by
  obtain ⟨after, hafter⟩ := h.accepted
  rw [h.refines.reached_iff hafter, Nat.not_lt] at hnot
  obtain ⟨hrefines', haccepted, hbalance⟩ := hwork.balance h.refines
  obtain ⟨pool, hpool, hcalls, rfl⟩ := hwork
  have hless := hpool.remaining_lt
  -- the streams that leave the queue are those that are taken
  have hqueue : server.pool.queue.length + pool.waiting.length =
      pool.queue.length + server.pool.waiting.length := by
    cases hpool with
    | send hsend | sendFailed hsend | join hsend | joinTaken hsend =>
      rw [hsend] at hcalls
      exact absurd hcalls.symm (List.cons_ne_self _ _)
    | @recvJob w job queue hw hmessages =>
      show server.pool.queue.length + (queue.filterMap Message.job?).length =
        queue.length + (server.pool.queue.filterMap Message.job?).length
      rw [hmessages, List.filterMap_cons_some (by rfl), List.length_cons, List.length_cons]
      omega
    | @recvTerminate w queue hw hmessages =>
      obtain ⟨calls, received, hledger, -⟩ := hrefines'.exists_account
      have hall := hledger.started_eq (List.concat_ne_nil _ _)
      have hcard := congrArg Multiset.card hledger.taken
      rw [hall, Multiset.coe_card, haccepted, hafter, List.length_append, List.length_cons] at hcard
      have hwaiting : server.pool.waiting.length = (queue.filterMap Message.job?).length := by
        unfold ThreadPool.waiting
        rw [hmessages, List.filterMap_cons_none (by rfl)]
      rw [hwaiting] at hbalance
      have hsame := Nat.add_right_cancel hbalance
      rw [← hsame] at hnot
      have hlt : before.length < before.length + (after.length + 1) := by omega
      rw [hcard] at hlt
      exact absurd hlt (Nat.not_lt.2 hnot)
    | lock | finish | panic => rfl
  have hone : server.pool.queue.length ≤ pool.queue.length + 1 := by
    cases hpool with
    | recvJob hw hmessages | recvTerminate hw hmessages =>
      rw [hmessages]
      exact le_rfl
    | send =>
      rw [List.length_append]
      omega
    | _ => exact Nat.le_succ _
  unfold ThreadPool.remaining at hless
  rw [hcalls] at hless
  unfold way
  simp only at hbalance ⊢
  omega

/-- A stream that was handed to the pool is pending. -/
lemma Refines.pending [DecidablePred panics] (h : server.Refines panics) {after : List S}
    (haccepted : server.accepted = before ++ stream :: after ++ server.pool.toCome)
    (hfew : (before.filter fun other => panics other).length < n) :
    Pending panics before stream server := by
  have hafter : server.accepted = before ++ stream :: (after ++ server.pool.toCome) := by
    rw [haccepted, List.append_assoc, List.cons_append]
  refine ⟨h, ⟨_, hafter⟩, ?_⟩
  by_contra hfront
  have hopen := h.connected hafter hfew (by omega)
  obtain ⟨calls, received, hledger, -⟩ := h.exists_account
  -- a closed channel gives nothing back as long as a worker is left
  have hlost : server.pool.lost = [] := by
    have hdiscarded : server.pool.discarded = [] := by
      by_contra hne
      exact hledger.closed hne hopen
    unfold ThreadPool.lost
    rw [hdiscarded, List.filterMap_nil]
  have hlength := h.length_accepted
  rw [haccepted, hlost, List.length_append, List.length_append, List.length_cons,
    List.length_nil] at hlength
  omega

/-- **No stream starves.** In every run, when a stream was accepted and handed to the pool, and
handlers panic for fewer than `n` of those accepted before it, the workers take them all, and the
stream, whatever happens around them: any number of clients may connect behind it, `accept` may
fail, and the signal may be sent, before or after. The handling of a stream that a worker has taken
is a job that ends or panics.

**Proof sketch.** The queue is first in, first out, so a worker that receives a message brings the
stream nearer, and so does one that goes on with what it has (`Pending.way_lt`). Nothing around the
workers comes in front of the stream. A worker is left, because panics have not ended all of them,
and it has something to do as long as the stream waits (`ThreadPool.exists_work`). -/
theorem no_starvation [DecidablePred panics]
    (h : System.Reachable (Next panics) (start n E S) server) {after : List S}
    (haccepted : server.accepted = before ++ stream :: after ++ server.pool.toCome)
    (hfew : (before.filter fun other => panics other).length < n) :
    System.InevitableAmid (Work panics) (Around panics) (Reached before stream) server := by
  apply System.inevitableAmid_of_rank (I := Pending panics before stream) (way before)
  · exact fun s t hs hstep => hs.work hstep
  · exact fun s t hs hevent => hs.around hevent
  · intro s hs
    obtain ⟨after, hafter⟩ := hs.accepted
    rw [hs.refines.reached_iff hafter]
    refine (Nat.lt_or_ge _ _).imp_right fun hfront => ?_
    have hqueue : s.pool.queue ≠ [] := by
      intro hnil
      have hsubmitted := hs.submitted
      unfold ThreadPool.waiting at hsubmitted
      rw [hnil, List.filterMap_nil, List.length_nil] at hsubmitted
      omega
    obtain ⟨pool, hpool, hcalls⟩ :=
      ThreadPool.exists_work (hs.refines.connected hafter hfew hfront) hqueue
    exact ⟨_, pool, hpool, hcalls, rfl⟩
  · exact fun s t hs hnot hstep => hs.way_lt hnot hstep
  · intro s t _ hevent
    obtain ⟨hworker, htaken, -⟩ := hevent.balance
    unfold way
    rw [hworker, htaken]
  · exact (refines h).pending haccepted hfew

/-- A client was handed to a pool with one worker, which has not yet taken the lock. -/
theorem no_starvation_first :
    ∃ server : SyncServer 1 Unit ℕ, System.Reachable (Next (· = 0)) (start 1 Unit ℕ) server ∧
      server.pool.waiting = [7] ∧
      System.InevitableAmid (Work (· = 0)) (Around (· = 0)) (Reached [] 7) server := by
  have harrived : System.Reachable (Next (· = 0)) (start 1 Unit ℕ) _ :=
    (System.Reachable.refl _).next (.inr (.arrive (.ok 7)))
  have haccepted := (harrived.next (.inl (.poll rfl rfl rfl))).next (.inl (.accept rfl rfl))
  have hsent := haccepted.next (.inl (.pool (.send rfl ⟨0, trivial⟩)))
  exact ⟨_, hsent, rfl, no_starvation hsent (show _ = [] ++ 7 :: [] ++ _ from rfl) Nat.zero_lt_one⟩

end SyncServer

end Httpageboy
