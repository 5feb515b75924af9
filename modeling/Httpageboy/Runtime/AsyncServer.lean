import Httpageboy.Runtime.Accept
import Httpageboy.Runtime.Setup

set_option relaxedAutoImplicit false
set_option autoImplicit false

/-!
# The asynchronous servers as a whole

A `GenericServer` with its `run_until_shutdown` and the tasks of its connections, as a transition
system. The owner configures the server and calls `run_until_shutdown`, as often as he likes; the
loop polls for the signal and waits for `accept` ten milliseconds at a time, in the same way on
`tokio`, `smol` and `async_std`; each stream gets a task of its own, and the tasks take their
iterations in any order, during the loop and behind it. All tasks read the route table and the
sources of files from the allocations of the server.

## Main definitions

* `Httpageboy.GenericServer.configure` — a call that configures the server, which may panic.
* `Httpageboy.AsyncServer` — the server, its loop and its tasks.
* `Httpageboy.AsyncServer.Step`, `Httpageboy.AsyncServer.Event`, `Httpageboy.AsyncServer.Owner` —
  what the loop, the tasks and clients, and the owner do.
* `Httpageboy.Connection.Alone` — a connection is served as by a server that has nothing else to do.

## Main results

* `Httpageboy.AsyncServer.Inv.next` — nothing that happens touches the configuration of a task.
* `Httpageboy.AsyncServer.isolated` — in every run, every connection is served as if it were alone.
-/

namespace Httpageboy

variable {E H U : Type}

/-! ## The server -/

/-- A call that needs the allocations of the server for itself. -/
def Setup.IsShared : Setup H U → Prop
  | .routes _ => True
  | .addFilesSource _ _ => True
  | _ => False

/-- The setters, `routes` and `add_files_source` of the asynchronous servers, `none` when the call
panics. -/
def GenericServer.configure (server : GenericServer H U) : Setup H U → Option (GenericServer H U)
  | .setLimit field value => some { server with limits := server.limits.set field value }
  | .setCors policy => some { server with cors := some policy }
  | .routes routes => server.insertRoutes routes
  | .addFilesSource fs base => server.addFilesSource fs base

/-- A stream as `accept` returns it: when, what is read from it, and what the handlers answer. -/
structure Stream (H : Type) where
  env : ℕ → Env H
  now : ℕ
  reads : List Read

/-- A connection: its task, and how far the loop of the task has come. The calls keep account of
how the server was configured when the connection was accepted. -/
structure Connection (H U : Type) where
  task : Task
  stream : Stream H
  calls : List (Setup H U)
  trace : Loop.Trace Conn (Turn H U)

namespace Connection

/-- A connection whose task was just spawned. -/
def start (task : Task) (stream : Stream H) (calls : List (Setup H U)) : Connection H U where
  task := task
  stream := stream
  calls := calls
  trace := ⟨[], some (.start stream.now stream.reads)⟩

/-- A connection behind one more iteration. -/
def extend (connection : Connection H U) (turn : Turn H U) (conn : Conn) : Connection H U :=
  { connection with
    trace :=
      { turns := connection.trace.turns ++ [(turn, conn)]
        next := if turn.continues then some conn else none } }

/-- The connection is served as by a server that has nothing else to do, and is configured as this
one was when the connection was accepted. -/
def Alone (connection : Connection H U) : Prop :=
  (configured connection.calls).run connection.stream.env connection.trace.turns.length
    (.start connection.stream.now connection.stream.reads) = connection.trace

/-- One more iteration of a connection that is served as if it were alone. -/
lemma Alone.extend {connection : Connection H U} (h : connection.Alone) {conn conn' : Conn}
    {turn : Turn H U} (hnext : connection.trace.next = some conn)
    (hturn : (configured connection.calls).turn connection.stream.env conn = some (turn, conn')) :
    (connection.extend turn conn').Alone := by
  have hrun : (configured connection.calls).run connection.stream.env
      connection.trace.turns.length (.start connection.stream.now connection.stream.reads) =
      ⟨connection.trace.turns, some conn⟩ := by
    rw [← hnext]
    exact h
  have hmore := Loop.run_extend hrun hturn
  unfold Alone
  show Server.run _ _ (connection.trace.turns ++ [(turn, conn')]).length _ = _
  rw [List.length_append, List.length_singleton]
  exact hmore

end Connection

/-- Where `run_until_shutdown` is: not called, in front of `try_recv`, or in front of `accept`. -/
inductive AsyncPhase where
  | idle
  | polling
  | accepting
  deriving DecidableEq, Repr

/-- A server. The backlog holds the outcomes of `accept` to come, `signals` is the number of
messages of `shutdown_rx`, and the connections are those whose tasks are there. The last three
fields keep account of the calls that have configured the server, of the outcomes that `accept` has
returned, and of the connections whose tasks have ended. -/
structure AsyncServer (E H U : Type) where
  server : GenericServer H U
  phase : AsyncPhase
  backlog : List (Accepted E (Stream H))
  signals : ℕ
  connections : List (Connection H U)
  calls : List (Setup H U)
  outcomes : List (Accepted E (Stream H))
  ended : List (Connection H U)

namespace AsyncServer

variable {server server' : AsyncServer E H U}

/-- The streams that were accepted, in order. -/
def accepted (server : AsyncServer E H U) : List (Stream H) :=
  server.outcomes.filterMap Except.toOption

/-- A new server. -/
def new : AsyncServer E H U where
  server := GenericServer.new
  phase := .idle
  backlog := []
  signals := 0
  connections := []
  calls := []
  outcomes := []
  ended := []

/-- A step of `run_until_shutdown`. -/
inductive Step (server : AsyncServer E H U) : AsyncServer E H U → Prop
  /-- `try_recv` finds no message. -/
  | poll (hphase : server.phase = .polling) (hsignals : server.signals = 0) :
      Step server { server with phase := .accepting }
  /-- `try_recv` finds a message: the loop is left. -/
  | leave {signals : ℕ} (hphase : server.phase = .polling)
      (hsignals : server.signals = signals + 1) :
      Step server
        { server with
          phase := .idle
          signals := signals }
  /-- `accept` returns a stream, which is passed to `handle_stream`. -/
  | accept {stream : Stream H} {backlog : List (Accepted E (Stream H))}
      (hphase : server.phase = .accepting) (hbacklog : server.backlog = .ok stream :: backlog) :
      Step server
        { server with
          server := server.server.handleStream.1
          phase := .polling
          backlog := backlog
          connections := server.connections ++
            [.start server.server.handleStream.2 stream server.calls]
          outcomes := server.outcomes ++ [.ok stream] }
  /-- `accept` returns an error, which is ignored. -/
  | acceptFailed {error : E} {backlog : List (Accepted E (Stream H))}
      (hphase : server.phase = .accepting) (hbacklog : server.backlog = .error error :: backlog) :
      Step server
        { server with
          phase := .polling
          backlog := backlog
          outcomes := server.outcomes ++ [.error error] }
  /-- Ten milliseconds have passed. -/
  | timeout (hphase : server.phase = .accepting) : Step server { server with phase := .polling }

/-- What happens around `run_until_shutdown`. -/
inductive Event (server : AsyncServer E H U) : AsyncServer E H U → Prop
  /-- There is something to accept. -/
  | arrive (outcome : Accepted E (Stream H)) :
      Event server { server with backlog := server.backlog ++ [outcome] }
  /-- The signal is sent. -/
  | signal : Event server { server with signals := server.signals + 1 }
  /-- A task takes an iteration. -/
  | turn {before after : List (Connection H U)} {connection : Connection H U} {conn conn' : Conn}
      {turn : Turn H U} (hconnections : server.connections = before ++ connection :: after)
      (hnext : connection.trace.next = some conn)
      (hturn : (connection.task.view server.server).turn connection.stream.env conn =
        some (turn, conn')) :
      Event server
        { server with connections := before ++ connection.extend turn conn' :: after }
  /-- A task ends: its loop was left, its upgrade handler has returned, or a handler panics. -/
  | taskEnd {before after : List (Connection H U)} {connection : Connection H U}
      (hconnections : server.connections = before ++ connection :: after) :
      Event server
        { server with
          server := server.server.endTask
          connections := before ++ after
          ended := server.ended ++ [connection] }

/-- What the owner does when `run_until_shutdown` does not borrow the server. -/
inductive Owner (server : AsyncServer E H U) : AsyncServer E H U → Prop
  /-- A call configures the server, without a panic. -/
  | configure {call : Setup H U} {generic : GenericServer H U} (hphase : server.phase = .idle)
      (hcall : server.server.configure call = some generic) :
      Owner server
        { server with
          server := generic
          calls := server.calls ++ [call] }
  /-- `run_until_shutdown` is called, with a channel of its own. -/
  | start (signals : ℕ) (hphase : server.phase = .idle) :
      Owner server
        { server with
          phase := .polling
          signals := signals }

/-- Something happens while `run_until_shutdown` goes on. -/
def Running (server server' : AsyncServer E H U) : Prop :=
  server.Step server' ∨ server.Event server'

/-- Something happens. -/
def Next (server server' : AsyncServer E H U) : Prop :=
  server.Running server' ∨ server.Owner server'

/-! ## The allocations of the server -/

/-- A call that shares nothing goes through, and leaves the allocations alone. -/
lemma configure_of_not_shared (generic : GenericServer H U) {call : Setup H U}
    (hcall : ¬ call.IsShared) :
    ∃ generic', generic.configure call = some generic' ∧ generic'.routes = generic.routes ∧
      generic'.filesSources = generic.filesSources ∧
      generic'.config = generic.config.configure call := by
  cases call with
  | setLimit field value => exact ⟨_, rfl, rfl, rfl, rfl⟩
  | setCors policy => exact ⟨_, rfl, rfl, rfl, rfl⟩
  | routes routes => exact absurd trivial hcall
  | addFilesSource fs base => exact absurd trivial hcall

/-- A call that needs the allocations for itself goes through when no task is there. -/
lemma configure_of_shared {generic : GenericServer H U} {n : ℕ}
    (hroutes : generic.routes.SharedWith n) (hsources : generic.filesSources.SharedWith n)
    {call : Setup H U} (hcall : call.IsShared) :
    (n = 0 → ∃ generic', generic.configure call = some generic' ∧
      generic'.routes.SharedWith 0 ∧ generic'.filesSources.SharedWith 0 ∧
      generic'.config = generic.config.configure call) ∧
    (n ≠ 0 → generic.configure call = none) := by
  cases call with
  | setLimit field value => exact hcall.elim
  | setCors policy => exact hcall.elim
  | routes added =>
    have hconfigure : generic.configure (.routes added) = if n = 0 then
        some { generic with routes := Arc.new (insertParts added generic.routes.value) }
      else none := by
      show (generic.routes.getMut (insertParts added)).map _ = _
      rw [hroutes.getMut_eq]
      split_ifs <;> rfl
    rw [hconfigure]
    exact ⟨fun hn => ⟨_, if_pos hn, Arc.SharedWith.new _, hn ▸ hsources, rfl⟩, fun hn => if_neg hn⟩
  | addFilesSource fs base =>
    have hconfigure : generic.configure (.addFilesSource fs base) = if n = 0 then
        some { generic with
          filesSources := Arc.new (generic.filesSources.value ++ [fileSourcePath fs base]) }
      else none := by
      show (generic.filesSources.getMut (· ++ [fileSourcePath fs base])).map _ = _
      rw [hsources.getMut_eq]
      split_ifs <;> rfl
    rw [hconfigure]
    exact ⟨fun hn => ⟨_, if_pos hn, hn ▸ hroutes, Arc.SharedWith.new _, rfl⟩, fun hn => if_neg hn⟩

/-- What holds of a server in every run. The server has the configuration of its calls; its
allocations are shared with the tasks that are there, each of which handles its requests as it was
configured when its connection was accepted, and has served this connection as if it were alone;
and every accepted stream has had one task. -/
structure Inv (server : AsyncServer E H U) : Prop where
  config : server.server.config = configured server.calls
  routes : server.server.routes.SharedWith server.connections.length
  filesSources : server.server.filesSources.SharedWith server.connections.length
  views : ∀ connection ∈ server.connections,
    connection.task.view server.server = configured connection.calls
  alone : ∀ connection ∈ server.ended ++ server.connections,
    connection.calls <+: server.calls ∧ connection.Alone
  streams : ((server.ended ++ server.connections).map Connection.stream).Perm server.accepted

/-- A new server. -/
lemma Inv.new : (new : AsyncServer E H U).Inv :=
  ⟨rfl, Arc.SharedWith.new ∅, Arc.SharedWith.new [], fun _ h => absurd h List.not_mem_nil,
    fun _ h => absurd h List.not_mem_nil, .nil⟩

namespace Inv

/-- A task is spawned for a stream that was accepted. -/
lemma accept (h : server.Inv) {stream : Stream H} {backlog : List (Accepted E (Stream H))} :
    Inv
      { server with
        server := server.server.handleStream.1
        phase := .polling
        backlog := backlog
        connections := server.connections ++
          [.start server.server.handleStream.2 stream server.calls]
        outcomes := server.outcomes ++ [.ok stream] } := by
  refine ⟨h.config, ?_, ?_, ?_, ?_, ?_⟩
  · show Arc.SharedWith _ (server.connections ++ [_]).length
    rw [List.length_append]
    exact h.routes.clone
  · show Arc.SharedWith _ (server.connections ++ [_]).length
    rw [List.length_append]
    exact h.filesSources.clone
  · intro connection hmem
    rcases List.mem_append.1 hmem with hold | hnew
    · exact h.views connection hold
    · obtain rfl := List.mem_singleton.1 hnew
      exact h.config
  · intro connection hmem
    rw [← List.append_assoc] at hmem
    rcases List.mem_append.1 hmem with hold | hnew
    · exact h.alone connection hold
    · obtain rfl := List.mem_singleton.1 hnew
      exact ⟨List.prefix_rfl, rfl⟩
  · unfold accepted
    rw [← List.append_assoc, List.map_append, List.filterMap_append]
    exact h.streams.append_right _

/-- A task takes an iteration, with the configuration that it was spawned with. -/
lemma turn (h : server.Inv) {before after : List (Connection H U)} {connection : Connection H U}
    {conn conn' : Conn} {turn : Turn H U}
    (hconnections : server.connections = before ++ connection :: after)
    (hnext : connection.trace.next = some conn)
    (hturn : (connection.task.view server.server).turn connection.stream.env conn =
      some (turn, conn')) :
    Inv { server with connections := before ++ connection.extend turn conn' :: after } := by
  have hmem : connection ∈ server.connections := by
    rw [hconnections]
    exact List.mem_append_right _ List.mem_cons_self
  have hlength : (before ++ connection.extend turn conn' :: after).length =
      server.connections.length := by
    rw [hconnections, List.length_append, List.length_append, List.length_cons, List.length_cons]
  -- the other connections stay as they are
  have hothers : ∀ other ∈ before ++ connection.extend turn conn' :: after,
      other = connection.extend turn conn' ∨ other ∈ server.connections := by
    intro other hother
    rw [hconnections]
    simp only [List.mem_append, List.mem_cons] at hother ⊢
    rcases hother with hbefore | rfl | hafter
    · exact .inr (.inl hbefore)
    · exact .inl rfl
    · exact .inr (.inr (.inr hafter))
  obtain ⟨hcalls, halone⟩ := h.alone connection (List.mem_append_right _ hmem)
  refine ⟨h.config, ?_, ?_, ?_, ?_, ?_⟩
  · rw [hlength]
    exact h.routes
  · rw [hlength]
    exact h.filesSources
  · intro other hother
    rcases hothers other hother with rfl | hold
    · exact h.views connection hmem
    · exact h.views other hold
  · intro other hother
    rcases List.mem_append.1 hother with hended | hlive
    · exact h.alone other (List.mem_append_left _ hended)
    rcases hothers other hlive with rfl | hold
    · refine ⟨hcalls, ?_⟩
      rw [h.views connection hmem] at hturn
      exact halone.extend hnext hturn
    · exact h.alone other (List.mem_append_right _ hold)
  · have hstreams := h.streams
    rw [hconnections] at hstreams
    rw [List.map_append, List.map_append, List.map_cons] at hstreams ⊢
    exact hstreams

/-- A task drops its clones, and the others keep theirs. -/
lemma taskEnd (h : server.Inv) {before after : List (Connection H U)}
    {connection : Connection H U}
    (hconnections : server.connections = before ++ connection :: after) :
    Inv
      { server with
        server := server.server.endTask
        connections := before ++ after
        ended := server.ended ++ [connection] } := by
  have hlength : server.connections.length = (before ++ after).length + 1 := by
    rw [hconnections, List.length_append, List.length_append, List.length_cons]
    omega
  have hroutes := h.routes
  have hsources := h.filesSources
  rw [hlength] at hroutes hsources
  have hperm : (server.ended ++ [connection] ++ (before ++ after)).Perm
      (server.ended ++ server.connections) := by
    rw [hconnections, List.append_assoc, List.singleton_append]
    exact List.Perm.append_left _ List.perm_middle.symm
  refine ⟨h.config, hroutes.drop, hsources.drop, ?_, ?_, ?_⟩
  · intro other hother
    refine h.views other ?_
    rw [hconnections]
    exact List.mem_append.2 ((List.mem_append.1 hother).imp_right (List.mem_cons_of_mem _))
  · exact fun other hother => h.alone other (hperm.mem_iff.1 hother)
  · exact (hperm.map _).trans h.streams

/-- A call that goes through changes the configuration of no task. -/
lemma configure (h : server.Inv) {call : Setup H U} {generic : GenericServer H U}
    (hcall : server.server.configure call = some generic) :
    Inv
      { server with
        server := generic
        calls := server.calls ++ [call] } := by
  have halone : ∀ connection ∈ server.ended ++ server.connections,
      connection.calls <+: server.calls ++ [call] ∧ connection.Alone := fun connection hmem =>
    ⟨(h.alone connection hmem).1.trans (List.prefix_append _ _), (h.alone connection hmem).2⟩
  by_cases hshared : call.IsShared
  · obtain ⟨hfree, hpanics⟩ := configure_of_shared h.routes h.filesSources hshared
    have hnone : server.connections.length = 0 := by
      by_contra hne
      rw [hpanics hne] at hcall
      cases hcall
    obtain ⟨generic', hgeneric, hroutes, hsources, hconfig⟩ := hfree hnone
    obtain rfl := Option.some.inj (hgeneric.symm.trans hcall)
    refine ⟨?_, ?_, ?_, ?_, halone, h.streams⟩
    · rw [configured_append_singleton, ← h.config, hconfig]
    · rw [hnone]
      exact hroutes
    · rw [hnone]
      exact hsources
    · rw [List.length_eq_zero_iff.1 hnone]
      exact fun _ hmem => absurd hmem List.not_mem_nil
  · obtain ⟨generic', hgeneric, hroutes, hsources, hconfig⟩ :=
      configure_of_not_shared server.server hshared
    obtain rfl := Option.some.inj (hgeneric.symm.trans hcall)
    refine ⟨?_, ?_, ?_, ?_, halone, h.streams⟩
    · rw [configured_append_singleton, ← h.config, hconfig]
    · rw [hroutes]
      exact h.routes
    · rw [hsources]
      exact h.filesSources
    · intro connection hmem
      rw [← h.views connection hmem]
      unfold Task.view
      rw [hroutes, hsources]

/-- What happens while `run_until_shutdown` goes on. -/
lemma running (h : server.Inv) (hnext : server.Running server') : server'.Inv := by
  rcases hnext with hstep | hevent
  · cases hstep with
    | poll | leave | timeout =>
      exact ⟨h.config, h.routes, h.filesSources, h.views, h.alone, h.streams⟩
    | accept => exact h.accept
    | acceptFailed =>
      refine ⟨h.config, h.routes, h.filesSources, h.views, h.alone, ?_⟩
      have hstreams := h.streams
      unfold accepted at hstreams ⊢
      rw [List.filterMap_append, List.filterMap_cons_none (by rfl), List.filterMap_nil,
        List.append_nil]
      exact hstreams
  · cases hevent with
    | arrive | signal =>
      exact ⟨h.config, h.routes, h.filesSources, h.views, h.alone, h.streams⟩
    | turn hconnections hnext hturn => exact h.turn hconnections hnext hturn
    | taskEnd hconnections => exact h.taskEnd hconnections

/-- **Whatever happens**, every task keeps its configuration. -/
theorem next (h : server.Inv) (hnext : server.Next server') : server'.Inv := by
  rcases hnext with hrunning | howner
  · exact h.running hrunning
  · cases howner with
    | configure _ hcall => exact h.configure hcall
    | start => exact ⟨h.config, h.routes, h.filesSources, h.views, h.alone, h.streams⟩

/-- A call panics when it needs an allocation that a task is using. -/
lemma configure_eq_none_iff (h : server.Inv) (call : Setup H U) :
    server.server.configure call = none ↔ call.IsShared ∧ server.connections ≠ [] := by
  by_cases hshared : call.IsShared
  · obtain ⟨hfree, hpanics⟩ := configure_of_shared h.routes h.filesSources hshared
    constructor
    · intro hnone
      refine ⟨hshared, fun hempty => ?_⟩
      obtain ⟨generic, hgeneric, -⟩ := hfree (List.length_eq_zero_iff.2 hempty)
      rw [hgeneric] at hnone
      cases hnone
    · exact fun hattended => hpanics fun hlength =>
        hattended.2 (List.length_eq_zero_iff.1 hlength)
  · obtain ⟨generic, hgeneric, -⟩ := configure_of_not_shared server.server hshared
    constructor
    · intro hnone
      rw [hgeneric] at hnone
      cases hnone
    · exact fun hattended => absurd hattended.1 hshared

end Inv

/-! ## The end of the loop -/

/-- A signal that was sent stays there until the loop is left. -/
lemma Running.signalled (h : server.Running server')
    (hsignal : server.phase ≠ .idle → 0 < server.signals) :
    server'.phase ≠ .idle → 0 < server'.signals := by
  intro hne
  rcases h with hstep | hevent
  · cases hstep with
    | poll hphase => exact hsignal (by rw [hphase]; nofun)
    | leave => exact absurd rfl hne
    | accept hphase | acceptFailed hphase | timeout hphase =>
      exact hsignal (by rw [hphase]; nofun)
  · cases hevent with
    | signal => exact Nat.succ_pos _
    | arrive | turn | taskEnd => exact hsignal hne

/-- How many steps it takes the loop to see a signal that was sent. -/
def distance (server : AsyncServer E H U) : ℕ :=
  match server.phase with
  | .idle => 0
  | .polling => 1
  | .accepting => 2

/-- **`run_until_shutdown` returns** once the signal has been sent, whatever happens around it. -/
lemma returns_amid (hsignal : server.phase ≠ .idle → 0 < server.signals) :
    System.InevitableAmid Step Event (fun other : AsyncServer E H U => other.phase = .idle)
      server := by
  apply System.inevitableAmid_of_rank
    (I := fun other => other.phase ≠ .idle → 0 < other.signals) distance
  · exact fun s t hs hstep => Running.signalled (.inl hstep) hs
  · exact fun s t hs hevent => Running.signalled (.inr hevent) hs
  · intro s hs
    cases hphase : s.phase with
    | idle => exact .inl rfl
    | polling =>
      obtain ⟨signals, hsignals⟩ := Nat.exists_eq_succ_of_ne_zero
        (Nat.pos_iff_ne_zero.1 (hs (by rw [hphase]; nofun)))
      exact .inr ⟨_, .leave hphase hsignals⟩
    | accepting => exact .inr ⟨_, .timeout hphase⟩
  · intro s t hs _ hstep
    unfold distance
    cases hstep with
    | poll hphase hsignals =>
      have hpos := hs (by rw [hphase]; nofun)
      omega
    | leave hphase | accept hphase | acceptFailed hphase | timeout hphase =>
      rw [hphase]
      exact Nat.lt_succ_self _
  · intro s t _ hevent
    cases hevent <;> exact le_rfl
  · exact hsignal

/-- **At most one stream is accepted** behind the signal. -/
lemma accepted_of_signalled {later : AsyncServer E H U} (hsignal : 0 < server.signals)
    (h : System.Reachable Running server later) :
    later.accepted = server.accepted ∨
      ∃ stream, later.accepted = server.accepted ++ [stream] := by
  have hall : (later.phase ≠ .idle → 0 < later.signals) ∧
      (later.phase = .accepting → later.accepted = server.accepted) ∧
      (later.accepted = server.accepted ∨
        ∃ stream, later.accepted = server.accepted ++ [stream]) := by
    refine h.invariant (I := fun other => (other.phase ≠ .idle → 0 < other.signals) ∧
      (other.phase = .accepting → other.accepted = server.accepted) ∧
      (other.accepted = server.accepted ∨
        ∃ stream, other.accepted = server.accepted ++ [stream])) ?_ ?_
    · exact ⟨fun _ => hsignal, fun _ => rfl, .inl rfl⟩
    · rintro other next ⟨hpending, haccepting, hsame⟩ hnext
      refine ⟨hnext.signalled hpending, ?_⟩
      rcases hnext with hstep | hevent
      · cases hstep with
        | poll hphase hnone =>
          -- the signal is seen
          have hpos := hpending (by rw [hphase]; nofun)
          omega
        | leave => exact ⟨nofun, hsame⟩
        | @accept stream _ hphase =>
          refine ⟨nofun, .inr ⟨stream, ?_⟩⟩
          rw [← haccepting hphase]
          exact List.filterMap_append
        | acceptFailed hphase =>
          refine ⟨nofun, .inl ?_⟩
          rw [← haccepting hphase]
          exact List.filterMap_append.trans (List.append_nil _)
        | timeout => exact ⟨nofun, hsame⟩
      · cases hevent <;> exact ⟨haccepting, hsame⟩
  exact hall.2.2

/-- **The connections of an asynchronous server are isolated.** In every run, whatever connects,
fails or panics, however the tasks are interleaved, and however often the server is configured and
started:

* every connection is served, turn by turn, as by a server that has nothing else to do and has been
  configured by the calls that came before this connection was accepted;
* every accepted stream has had exactly one task;
* the server has the configuration of all its calls, which is what the next connection gets, and
  exactly those calls panic that write to an allocation while a task is there;
* once the signal has been sent, `run_until_shutdown` returns, whatever happens around it, and
  accepts one more stream at most.

**Proof sketch.** A task reads the routes and the sources from the allocations of the server. They
do not change while it is there, because a write needs them for itself (`Inv.configure`); what else
is configured the task has copied. So each of its iterations is one that the server would take
alone (`Connection.Alone.extend`). -/
theorem isolated (h : System.Reachable Next new server) :
    (∀ connection ∈ server.ended ++ server.connections,
      connection.calls <+: server.calls ∧ connection.Alone) ∧
    ((server.ended ++ server.connections).map Connection.stream).Perm server.accepted ∧
    server.server.config = configured server.calls ∧
    (∀ call, server.server.configure call = none ↔ call.IsShared ∧ server.connections ≠ []) ∧
    (0 < server.signals →
      System.InevitableAmid Step Event (fun other : AsyncServer E H U => other.phase = .idle)
        server ∧
      ∀ later, System.Reachable Running server later →
        later.accepted = server.accepted ∨
          ∃ stream, later.accepted = server.accepted ++ [stream]) := by
  have hinv : server.Inv := h.invariant Inv.new fun _ _ hother => hother.next
  exact ⟨hinv.alone, hinv.streams, hinv.config, hinv.configure_eq_none_iff, fun hsignal =>
    ⟨returns_amid fun _ => hsignal, fun later hlater => accepted_of_signalled hsignal hlater⟩⟩

/-- A client that sends nothing and goes. -/
def visitor : Stream Unit where
  env := fun _ => constantEnv Response.new
  now := 0
  reads := [⟨0, .ok []⟩]

/-- A server with a limit serves a visitor, and cannot be given routes as long as he is there. -/
theorem isolated_visitor :
    ∃ server : AsyncServer Unit Unit Unit, System.Reachable Next new server ∧
      (∃ connection ∈ server.connections, connection.trace.turns.length = 1 ∧
        connection.calls = [.setBodyLimit 7] ∧ connection.Alone) ∧
      server.server.configure (.routes [rootRoute]) = none := by
  have hconfigured : System.Reachable Next (new : AsyncServer Unit Unit Unit) _ :=
    (System.Reachable.refl _).next (.inr (@Owner.configure _ _ _ _ (.setBodyLimit 7) _ rfl rfl))
  have hstarted := hconfigured.next (.inr (.start 0 rfl))
  have harrived := hstarted.next (.inl (.inr (.arrive (.ok visitor))))
  have hpolled := harrived.next (.inl (.inl (.poll rfl rfl)))
  have haccepted := hpolled.next (.inl (.inl (.accept rfl rfl)))
  have hserved := haccepted.next
    (.inl (.inr (@Event.turn _ _ _ _ [] [] _ _ _ .ended rfl rfl rfl)))
  have hisolated := isolated hserved
  refine ⟨_, hserved, ⟨_, List.mem_singleton_self _, rfl, rfl, ?_⟩, ?_⟩
  · exact (hisolated.1 _ (List.mem_singleton_self _)).2
  · exact (hisolated.2.2.2.1 _).2 ⟨trivial, List.cons_ne_nil _ _⟩

end AsyncServer

end Httpageboy
