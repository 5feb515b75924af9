import Httpageboy.Runtime.AsyncServer
import Httpageboy.Runtime.Lifetime

set_option relaxedAutoImplicit false
set_option autoImplicit false

/-!
# The asynchronous servers drain

`run_until_shutdown` of an asynchronous server returns while tasks are still there, and the owner
cannot register a route as long as one of them is. No client can keep a task there: once the signal
has been sent, the loop is left and every task comes to its end, whatever happens around them.

## Main definitions

* `Httpageboy.Stream.Supplies` — every read of a connection returns.
* `Httpageboy.AsyncServer.Progress` — the loop takes a step, or a task does.
* `Httpageboy.AsyncServer.work` — what the loop and the tasks have still to do, at most.

## Main results

* `Httpageboy.Connection.exists_turn` — a task in its loop can take an iteration.
* `Httpageboy.AsyncServer.drains` — the loop is left, and no task stays.
-/

namespace Httpageboy

variable {E H U : Type}

/-! ## Tasks -/

/-- The reads of the stream return, as many as a connection under these limits may make, and
incomplete requests are bounded. -/
structure Stream.Supplies (stream : Stream H) (limits : RequestLimits) : Prop where
  bounds : limits.headerBytes < usizeMax ∧ limits.bodyBytes < usizeMax
  reads : max 1 limits.maxRequests * turnReads limits ≤ stream.reads.length

namespace Connection

variable {connection : Connection H U}

/-- The stream of the connection supplies what its configuration may make it read. -/
def Supplied (connection : Connection H U) : Prop :=
  connection.stream.Supplies (configured connection.calls).limits

/-- **A task in its loop can take an iteration**: no read of its connection blocks for good. -/
lemma exists_turn (halone : connection.Alone) (hsupplied : connection.Supplied) {conn : Conn}
    (hnext : connection.trace.next = some conn) :
    ∃ turn conn', (configured connection.calls).turn connection.stream.env conn =
      some (turn, conn') := by
  have hreaches : Loop.Reaches ((configured connection.calls).turn connection.stream.env)
      Turn.continues (.start connection.stream.now connection.stream.reads) conn := by
    apply Loop.reaches_of_next
    rw [← hnext]
    exact congrArg Loop.Trace.next halone
  have hreads : max 1 ((configured connection.calls).limits.maxRequests - conn.handled) *
      turnReads (configured connection.calls).limits ≤ conn.reader.reads.length :=
    hreaches.invariant hsupplied.reads fun conn turn conn' hreads hturn hcont =>
      Server.reads_of_turn hsupplied.bounds hreads hturn hcont
  obtain ⟨turn, conn', hturn, -⟩ := Server.exists_turn hsupplied.bounds
    (le_trans (Nat.le_mul_of_pos_left _ (Nat.lt_of_lt_of_le Nat.one_pos (Nat.le_max_left 1 _)))
      hreads)
  exact ⟨turn, conn', hturn⟩

/-- How many steps the task has still to take, at most: its iterations, and its end. -/
def work (connection : Connection H U) : ℕ :=
  match connection.trace.next with
  | none => 1
  | some conn => 1 + max 1 ((configured connection.calls).limits.maxRequests - conn.handled)

/-- There is something to do as long as the task is there. -/
lemma work_pos (connection : Connection H U) : 0 < connection.work := by
  unfold work
  cases connection.trace.next with
  | none => exact Nat.one_pos
  | some conn => exact Nat.lt_of_lt_of_le Nat.one_pos (Nat.le_add_right 1 _)

/-- An iteration leaves less to do. -/
lemma work_extend_lt {conn conn' : Conn} {turn : Turn H U}
    (hnext : connection.trace.next = some conn)
    (hturn : (configured connection.calls).turn connection.stream.env conn = some (turn, conn')) :
    (connection.extend turn conn').work < connection.work := by
  have hwork : connection.work =
      1 + max 1 ((configured connection.calls).limits.maxRequests - conn.handled) := by
    unfold work
    rw [hnext]
  rw [hwork]
  cases hcont : turn.continues with
  | false =>
    have hleft : (connection.extend turn conn').work = 1 := by
      unfold work extend
      simp only [hcont, Bool.false_eq_true, if_false]
    omega
  | true =>
    obtain ⟨hlt, hpos⟩ := Server.rank_lt hturn hcont
    have hmore : (connection.extend turn conn').work =
        1 + max 1 ((configured connection.calls).limits.maxRequests - conn'.handled) := by
      unfold work extend
      simp only [hcont, if_true]
    omega

end Connection

/-! ## The server -/

namespace AsyncServer

variable {server server' : AsyncServer E H U}

/-- The loop takes a step, or a task does, unless it panics: it takes an iteration, or it ends
behind its loop and its upgrade handler. -/
inductive Progress (server : AsyncServer E H U) : AsyncServer E H U → Prop
  /-- The loop takes a step. -/
  | loop {server' : AsyncServer E H U} (hstep : server.Step server') : Progress server server'
  /-- A task takes an iteration. -/
  | turn {before after : List (Connection H U)} {connection : Connection H U} {conn conn' : Conn}
      {turn : Turn H U} (hconnections : server.connections = before ++ connection :: after)
      (hnext : connection.trace.next = some conn)
      (hturn : (connection.task.view server.server).turn connection.stream.env conn =
        some (turn, conn')) :
      Progress server { server with connections := before ++ connection.extend turn conn' :: after }
  /-- A task whose loop was left ends. -/
  | taskEnd {before after : List (Connection H U)} {connection : Connection H U}
      (hconnections : server.connections = before ++ connection :: after)
      (hleft : connection.trace.next = none) :
      Progress server
        { server with
          server := server.server.endTask
          connections := before ++ after
          ended := server.ended ++ [connection] }

/-- The streams of the tasks that are there supply their reads, and so do those that the loop may
accept. -/
structure Supplied (server : AsyncServer E H U) : Prop where
  connections : ∀ connection ∈ server.connections, connection.Supplied
  backlog : server.phase ≠ .idle → ∀ stream, .ok stream ∈ server.backlog →
    stream.Supplies server.server.limits

/-- Something happens around the loop and the tasks, or one of them panics or takes a step: what
arrives supplies its reads, and `run_until_shutdown` is not called again. -/
def Around (server server' : AsyncServer E H U) : Prop :=
  server.Next server' ∧ server'.Supplied ∧ (server.phase = .idle → server'.phase = .idle)

/-- The loop has been left, and no task is there. -/
def Drained (server : AsyncServer E H U) : Prop :=
  server.phase = .idle ∧ server.connections = []

/-- How many steps the loop and the tasks have still to take behind the signal, at most. The loop
may accept one more stream. -/
def work (server : AsyncServer E H U) : ℕ :=
  (match server.phase with
    | .idle => 0
    | .polling => 1
    | .accepting => 3 + max 1 server.server.limits.maxRequests) +
  (server.connections.map Connection.work).sum

/-- Progress is made by running. -/
lemma Progress.running (h : server.Progress server') : server.Running server' := by
  cases h with
  | loop hstep => exact .inl hstep
  | turn hconnections hnext hturn => exact .inr (.turn hconnections hnext hturn)
  | taskEnd hconnections => exact .inr (.taskEnd hconnections)

/-- The work of the tasks, with one of them apart. -/
lemma sum_work (before after : List (Connection H U)) (connection : Connection H U) :
    ((before ++ connection :: after).map Connection.work).sum =
      connection.work + ((before ++ after).map Connection.work).sum := by
  rw [List.map_append, List.map_append, List.map_cons, List.sum_append, List.sum_append,
    List.sum_cons, Nat.add_left_comm]

/-- **A step of the loop** leaves less to do, once the signal has been sent. -/
lemma Step.work_lt (hinv : server.Inv) (hsignal : server.phase ≠ .idle → 0 < server.signals)
    (h : server.Step server') : server'.work < server.work := by
  unfold work
  cases h with
  | poll hphase hnone =>
    have hpos := hsignal (by rw [hphase]; nofun)
    omega
  | leave hphase | acceptFailed hphase | timeout hphase =>
    rw [hphase]
    simp only
    omega
  | @accept stream _ hphase =>
    have hnew : (Connection.start server.server.handleStream.2 stream server.calls).work =
        1 + max 1 server.server.limits.maxRequests := by
      show 1 + max 1 ((configured server.calls).limits.maxRequests - 0) = _
      rw [← hinv.config]
      rfl
    have hlimits : server.server.handleStream.1.limits = server.server.limits := rfl
    rw [hphase]
    simp only [List.map_append, List.map_cons, List.map_nil, List.sum_append, List.sum_cons,
      List.sum_nil, hnew]
    omega

/-- A turn of a task leaves less to do. -/
lemma work_turn_lt (hinv : server.Inv) {before after : List (Connection H U)}
    {connection : Connection H U} {conn conn' : Conn} {turn : Turn H U}
    (hconnections : server.connections = before ++ connection :: after)
    (hnext : connection.trace.next = some conn)
    (hturn : (connection.task.view server.server).turn connection.stream.env conn =
      some (turn, conn')) :
    work { server with connections := before ++ connection.extend turn conn' :: after } <
      server.work := by
  have hmem : connection ∈ server.connections := by
    rw [hconnections]
    exact List.mem_append_right _ List.mem_cons_self
  rw [hinv.views connection hmem] at hturn
  have hlt := Connection.work_extend_lt hnext hturn
  unfold work
  rw [hconnections]
  simp only [sum_work]
  omega

/-- The end of a task leaves less to do. -/
lemma work_taskEnd_lt {before after : List (Connection H U)} {connection : Connection H U}
    (hconnections : server.connections = before ++ connection :: after) :
    work
      { server with
        server := server.server.endTask
        connections := before ++ after
        ended := server.ended ++ [connection] } < server.work := by
  have hpos := connection.work_pos
  have hlimits : server.server.endTask.limits = server.server.limits := rfl
  unfold work
  rw [hconnections]
  simp only [sum_work, hlimits]
  omega

/-- The step of a loop or a task leaves less to do. -/
lemma Progress.work_lt (hinv : server.Inv) (hsignal : server.phase ≠ .idle → 0 < server.signals)
    (h : server.Progress server') : server'.work < server.work := by
  cases h with
  | loop hstep => exact hstep.work_lt hinv hsignal
  | turn hconnections hnext hturn => exact work_turn_lt hinv hconnections hnext hturn
  | taskEnd hconnections => exact work_taskEnd_lt hconnections

/-- What happens around them leaves no more to do. -/
lemma Around.work_le (hinv : server.Inv) (hsignal : server.phase ≠ .idle → 0 < server.signals)
    (h : server.Around server') : server'.work ≤ server.work := by
  obtain ⟨hnext, -, hidle⟩ := h
  rcases hnext with (hstep | hevent) | howner
  · exact (hstep.work_lt hinv hsignal).le
  · cases hevent with
    | arrive | signal => exact le_rfl
    | turn hconnections hnext hturn => exact (work_turn_lt hinv hconnections hnext hturn).le
    | taskEnd hconnections => exact (work_taskEnd_lt hconnections).le
  · cases howner with
    | configure hphase =>
      unfold work
      simp only [hphase]
      exact le_rfl
    | start _ hphase => exact absurd (hidle hphase) nofun

/-- A step of the loop or of a task leaves the streams as they are. -/
lemma Progress.supplied (hinv : server.Inv) (hsupplied : server.Supplied)
    (h : server.Progress server') : server'.Supplied := by
  cases h with
  | loop hstep =>
    cases hstep with
    | poll hphase =>
      exact ⟨hsupplied.connections, fun _ => hsupplied.backlog (by rw [hphase]; nofun)⟩
    | leave => exact ⟨hsupplied.connections, fun hne => absurd rfl hne⟩
    | timeout hphase =>
      exact ⟨hsupplied.connections, fun _ => hsupplied.backlog (by rw [hphase]; nofun)⟩
    | acceptFailed hphase hbacklog =>
      refine ⟨hsupplied.connections, fun _ stream hstream => ?_⟩
      refine hsupplied.backlog (by rw [hphase]; nofun) stream ?_
      rw [hbacklog]
      exact List.mem_cons_of_mem _ hstream
    | accept hphase hbacklog =>
      have hqueued := hsupplied.backlog (by rw [hphase]; nofun)
      rw [hbacklog] at hqueued
      refine ⟨fun connection hmem => ?_, fun _ stream hstream =>
        hqueued stream (List.mem_cons_of_mem _ hstream)⟩
      rcases List.mem_append.1 hmem with hold | hnew
      · exact hsupplied.connections connection hold
      · obtain rfl := List.mem_singleton.1 hnew
        have hfirst := hqueued _ List.mem_cons_self
        show Stream.Supplies _ (configured server.calls).limits
        rw [← hinv.config]
        exact hfirst
  | @turn _ _ connection _ _ _ hconnections hnext hturn =>
    refine ⟨fun other hmem => ?_, hsupplied.backlog⟩
    have hall := hsupplied.connections
    rw [hconnections] at hall
    simp only [List.mem_append, List.mem_cons] at hmem hall
    rcases hmem with hbefore | rfl | hafter
    · exact hall other (.inl hbefore)
    · have hsame : connection.Supplied := hall connection (.inr (.inl rfl))
      exact hsame
    · exact hall other (.inr (.inr hafter))
  | taskEnd hconnections =>
    refine ⟨fun connection hmem => hsupplied.connections connection ?_, hsupplied.backlog⟩
    rw [hconnections]
    exact List.mem_append.2 ((List.mem_append.1 hmem).imp_right (List.mem_cons_of_mem _))

/-- As long as the server has not drained, the loop or a task can take a step. -/
lemma drained_or_progress (hinv : server.Inv)
    (hsignal : server.phase ≠ .idle → 0 < server.signals) (hsupplied : server.Supplied) :
    server.Drained ∨ ∃ server', server.Progress server' := by
  cases hphase : server.phase with
  | polling =>
    obtain ⟨signals, hsignals⟩ := Nat.exists_eq_succ_of_ne_zero
      (Nat.pos_iff_ne_zero.1 (hsignal (by rw [hphase]; nofun)))
    exact .inr ⟨_, .loop (.leave hphase hsignals)⟩
  | accepting => exact .inr ⟨_, .loop (.timeout hphase)⟩
  | idle =>
    cases hconnections : server.connections with
    | nil => exact .inl ⟨hphase, hconnections⟩
    | cons connection after =>
      have hmem : connection ∈ server.connections := by
        rw [hconnections]
        exact List.mem_cons_self
      right
      cases hnext : connection.trace.next with
      | none => exact ⟨_, @Progress.taskEnd _ _ _ _ [] after connection hconnections hnext⟩
      | some conn =>
        have halone := (hinv.alone connection (List.mem_append_right _ hmem)).2
        obtain ⟨turn, conn', hturn⟩ :=
          Connection.exists_turn halone (hsupplied.connections connection hmem) hnext
        rw [← hinv.views connection hmem] at hturn
        exact ⟨_, @Progress.turn _ _ _ _ [] after connection _ _ _ hconnections hnext hturn⟩

/-- **An asynchronous server drains.** Once the signal has been sent, whatever clients send and
connect meanwhile, whatever tasks panic, and however the loop and the tasks are interleaved, the
loop is left and every task comes to its end, when the handlers, the upgrade handlers and the writes
return and no read blocks for good, the limits are below the largest machine word, and the owner
does not start the server again. Then every connection that was accepted has been served as if it
were alone, as far as its task went, and the owner can configure the server again: no call
panics.

**Proof sketch.** The loop has a bounded number of steps left behind the signal, with one stream to
accept at most, and every task a bounded number of iterations, because each of them uses up one of
the requests that the connection may carry (`Progress.work_lt`). A task in its loop is not blocked
(`Connection.exists_turn`), so that somebody can always take a step. -/
theorem drains (h : System.Reachable Next new server)
    (hsignal : server.phase ≠ .idle → 0 < server.signals) (hsupplied : server.Supplied) :
    System.InevitableAmid Progress Around Drained server ∧
    ∀ later, System.Reachable Next server later → later.Drained →
      (later.ended.map Connection.stream).Perm later.accepted ∧
      (∀ connection ∈ later.ended, connection.Alone) ∧
      ∀ call, ∃ generic, later.server.configure call = some generic := by
  have hinv : server.Inv := h.invariant Inv.new fun _ _ hother => hother.next
  constructor
  · apply System.inevitableAmid_of_rank (I := fun other => other.Inv ∧
      (other.phase ≠ .idle → 0 < other.signals) ∧ other.Supplied) work
    · rintro s t ⟨hs, hsig, hsup⟩ hstep
      exact ⟨hs.running hstep.running, hstep.running.signalled hsig, hstep.supplied hs hsup⟩
    · rintro s t ⟨hs, hsig, hsup⟩ haround
      refine ⟨hs.next haround.1, ?_, haround.2.1⟩
      rcases haround.1 with hrunning | howner
      · exact hrunning.signalled hsig
      · cases howner with
        | configure hphase => exact hsig
        | start _ hphase => exact absurd (haround.2.2 hphase) nofun
    · rintro s ⟨hs, hsig, hsup⟩
      exact drained_or_progress hs hsig hsup
    · rintro s t ⟨hs, hsig, -⟩ - hstep
      exact hstep.work_lt hs hsig
    · rintro s t ⟨hs, hsig, -⟩ haround
      exact haround.work_le hs hsig
    · exact ⟨hinv, hsignal, hsupplied⟩
  · intro later hlater hdrained
    have hinv' : later.Inv := hlater.invariant hinv fun _ _ hother => hother.next
    have hended : later.ended ++ later.connections = later.ended := by
      rw [hdrained.2, List.append_nil]
    refine ⟨hended ▸ hinv'.streams, fun connection hmem => ?_, fun call => ?_⟩
    · exact (hinv'.alone connection (hended.symm ▸ hmem)).2
    · refine Option.ne_none_iff_exists'.1 fun hnone => ?_
      exact ((hinv'.configure_eq_none_iff call).1 hnone).2 hdrained.2

/-- A guest whose reads all return, and bring nothing. -/
def guest : Stream Unit := { visitor with reads := List.replicate 5 ⟨0, .ok []⟩ }

/-- A server of one small request a connection drains behind its signal. -/
theorem drains_guest :
    ∃ server : AsyncServer Unit Unit Unit, System.Reachable Next new server ∧
      server.connections.length = 1 ∧
      System.InevitableAmid Progress Around Drained server := by
  have hheader : System.Reachable Next (new : AsyncServer Unit Unit Unit) _ :=
    (System.Reachable.refl _).next (.inr (@Owner.configure _ _ _ _ (.setHeaderLimit 1) _ rfl rfl))
  have hbody := hheader.next (.inr (@Owner.configure _ _ _ _ (.setBodyLimit 0) _ rfl rfl))
  have hrequests := hbody.next (.inr (@Owner.configure _ _ _ _ (.setMaxRequests 1) _ rfl rfl))
  have hstarted := hrequests.next (.inr (.start 0 rfl))
  have harrived := hstarted.next (.inl (.inr (.arrive (.ok guest))))
  have hpolled := harrived.next (.inl (.inl (.poll rfl rfl)))
  have haccepted := hpolled.next (.inl (.inl (.accept rfl rfl)))
  have hsignalled := haccepted.next (.inl (.inr .signal))
  refine ⟨_, hsignalled, rfl, (drains hsignalled (fun _ => Nat.one_pos) ⟨?_, ?_⟩).1⟩
  · intro connection hmem
    obtain rfl := List.mem_singleton.1 hmem
    exact ⟨by decide, by decide⟩
  · intro _ stream hstream
    exact absurd hstream List.not_mem_nil

end AsyncServer

end Httpageboy
