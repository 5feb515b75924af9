import Httpageboy.Lib.Arc
import Httpageboy.Lib.System
import Httpageboy.Routing.Files
import Httpageboy.Runtime.Server

set_option relaxedAutoImplicit false
set_option autoImplicit false

/-!
# The configuration of the asynchronous servers

`GenericServer` with the operations that configure it, and the part of `run_until_shutdown` and
`handle_stream` that passes the configuration on to the connections. The routes and the sources of
files are in allocations that the server shares with the tasks of its connections. The
specification is a server that has its configuration to itself and gives a copy to each connection.

## Main definitions

* `Httpageboy.GenericServer` — the server, with `insertRoutes` and `addFilesSource`.
* `Httpageboy.Operation` — what happens to a server.
* `Httpageboy.Service` — the specification.
* `Httpageboy.Host` — a server with the tasks of its connections.
* `Httpageboy.Configures` — no operation panics, and each connection has the configuration that it
  should have.

## Main results

* `Httpageboy.canonicalize_fileSourcePath` — a source stays the directory it is.
* `Httpageboy.Service.config_run` — the configuration is what the operations have declared.
* `Httpageboy.Service.accepted_run` — it is what the next connection gets.
* `Httpageboy.Host.Refines.step` — the server does what the specification says, unless it is
  configured while a task is there.
* `Httpageboy.configures_iff` — which runs the configuration gets through.
-/

namespace Httpageboy

variable {H U : Type}

/-! ## The server -/

/-- `Route`. -/
structure Route (H U : Type) where
  path : Str
  method : RequestType
  entry : RouteEntry H U

/-- `Route::into_parts`. -/
def Route.intoParts (route : Route H U) : (RequestType × Str) × RouteEntry H U :=
  ((route.method, route.path), route.entry)

/-- The loop of `GenericServer::routes` over the route table. -/
def insertParts (routes : List (Route H U)) (routeMap : Routes H U) : Routes H U :=
  routes.foldl (fun routeMap route =>
    routeMap.insert route.intoParts.1 route.intoParts.2) routeMap

/-- `file_source_path`: the canonical path of a directory, and the given one when it has none. -/
def fileSourcePath (fs : FileSystem) (source : Str) : Str :=
  match fs.canonicalize (Utf8.encode source) with
  | some path => Utf8.decodeLossy path
  | none => source

/-- A source whose canonical path is well-formed UTF-8 is kept under that path, and stays the
directory it is. -/
theorem canonicalize_fileSourcePath {fs : FileSystem} (hfs : fs.Canonical) {source text : Str}
    {canon : Path} (hcanon : fs.canonicalize (Utf8.encode source) = some canon)
    (htext : Utf8.decode canon = some text) :
    fileSourcePath fs source = text ∧
      fs.canonicalize (Utf8.encode (fileSourcePath fs source)) = some canon := by
  have hsource : fileSourcePath fs source = text := by
    simp only [fileSourcePath, hcanon, Utf8.decodeLossy_of_decode htext]
  refine ⟨hsource, ?_⟩
  rw [hsource, ← Utf8.decode_eq_some_iff.1 htext]
  exact hfs.idem _ canon hcanon

/-- `GenericServer`. The policy is in an allocation of its own, which nobody writes to. -/
structure GenericServer (H U : Type) where
  routes : Arc (Routes H U)
  filesSources : Arc (List Str)
  cors : Option CorsPolicy
  limits : RequestLimits

namespace GenericServer

/-- `Server::new` of the asynchronous runtimes. -/
def new : GenericServer H U where
  routes := Arc.new ∅
  filesSources := Arc.new []
  cors := some CorsPolicy.default
  limits := RequestLimits.default

/-- `GenericServer::routes`, `none` when it panics. -/
def insertRoutes (server : GenericServer H U) (routes : List (Route H U)) :
    Option (GenericServer H U) :=
  (server.routes.getMut (insertParts routes)).map fun routeMap =>
    { server with routes := routeMap }

/-- `GenericServer::add_files_source`, `none` when it panics. -/
def addFilesSource (server : GenericServer H U) (fs : FileSystem) (base : Str) :
    Option (GenericServer H U) :=
  (server.filesSources.getMut (· ++ [fileSourcePath fs base])).map fun filesSources =>
    { server with filesSources := filesSources }

/-- What the server is configured to do. -/
def config (server : GenericServer H U) : Server H U where
  routes := server.routes.value
  filesSources := server.filesSources.value
  cors := server.cors
  limits := server.limits

end GenericServer

/-- The task of a connection. Besides what it has copied it owns the allocations of the routes and
of the sources, together with its server. -/
structure Task where
  cors : Option CorsPolicy
  limits : RequestLimits

/-- What a task handles its requests with. -/
def Task.view (server : GenericServer H U) (task : Task) : Server H U where
  routes := server.routes.value
  filesSources := server.filesSources.value
  cors := task.cors
  limits := task.limits

namespace GenericServer

/-- `handle_stream`, up to the loop: the clones that are moved into the task. -/
def handleStream (server : GenericServer H U) : GenericServer H U × Task :=
  ({ server with
      routes := server.routes.clone
      filesSources := server.filesSources.clone },
    ⟨server.cors, server.limits⟩)

/-- The end of a task, which drops its clones. -/
def endTask (server : GenericServer H U) : GenericServer H U where
  routes := server.routes.drop
  filesSources := server.filesSources.drop
  cors := server.cors
  limits := server.limits

end GenericServer

/-! ## The specification -/

/-- What happens to a server: it is configured, `run_until_shutdown` is called, accepts a stream
and returns, and the task of a connection ends. -/
inductive Operation (H U : Type) where
  | routes (routes : List (Route H U))
  | addFilesSource (fs : FileSystem) (base : Str)
  | start
  | accept
  | stop
  | taskEnd (i : ℕ)

namespace Operation

/-- The operation configures the server. -/
def IsConfiguration : Operation H U → Prop
  | .routes _ => True
  | .addFilesSource _ _ => True
  | _ => False

/-- The routes that an operation declares. -/
def declaredRoutes : Operation H U → List (Route H U)
  | .routes added => added
  | _ => []

/-- The sources of files that an operation declares. -/
def declaredSources : Operation H U → List Str
  | .addFilesSource fs base => [fileSourcePath fs base]
  | _ => []

end Operation

/-- A server that has its configuration to itself, and the configurations of its connections. -/
structure Service (H U : Type) where
  config : Server H U
  running : Bool
  connections : List (Server H U)

/-- The configuration that a list of operations declares. -/
def declared (operations : List (Operation H U)) : Server H U where
  routes := insertParts (operations.flatMap Operation.declaredRoutes) ∅
  filesSources := operations.flatMap Operation.declaredSources
  cors := some CorsPolicy.default
  limits := RequestLimits.default

/-- The declarations of a list, and one more. -/
lemma declared_append_singleton (operations : List (Operation H U)) (operation : Operation H U) :
    declared (operations ++ [operation]) =
      { declared operations with
        routes := insertParts operation.declaredRoutes (declared operations).routes
        filesSources := (declared operations).filesSources ++ operation.declaredSources } := by
  simp [declared, insertParts]

namespace Service

/-- The service of a new server. -/
def new : Service H U where
  config := declared []
  running := false
  connections := []

/-- What an operation does: a connection gets a copy of the configuration. -/
def step (service : Service H U) : Operation H U → Service H U
  | .routes routes =>
    { service with
      config := { service.config with routes := insertParts routes service.config.routes } }
  | .addFilesSource fs base =>
    { service with
      config := { service.config with
        filesSources := service.config.filesSources ++ [fileSourcePath fs base] } }
  | .start => { service with running := true }
  | .accept => { service with connections := service.connections ++ [service.config] }
  | .stop => { service with running := false }
  | .taskEnd i => { service with connections := service.connections.eraseIdx i }

/-- The operation is possible: the server is configured and started when it is not running, for
`run_until_shutdown` borrows it, and the task that ends is there. -/
def Enabled (service : Service H U) : Operation H U → Prop
  | .routes _ => service.running = false
  | .addFilesSource _ _ => service.running = false
  | .start => service.running = false
  | .accept => service.running = true
  | .stop => service.running = true
  | .taskEnd i => i < service.connections.length

/-- The operation does not configure the server while a connection is there. -/
def Unattended (service : Service H U) (operation : Operation H U) : Prop :=
  operation.IsConfiguration → service.connections = []

/-- The service behind a list of operations. -/
def run (operations : List (Operation H U)) : Service H U := operations.foldl step new

/-- A run, and one more operation. -/
lemma run_append_singleton (operations : List (Operation H U)) (operation : Operation H U) :
    run (operations ++ [operation]) = (run operations).step operation :=
  List.foldl_append

/-- **The configuration is what the operations have declared.** -/
theorem config_run (operations : List (Operation H U)) :
    (run operations).config = declared operations := by
  induction operations using List.reverseRecOn with
  | nil => rfl
  | append_singleton operations operation ih =>
    rw [run_append_singleton, declared_append_singleton, ← ih]
    cases operation <;>
      simp [step, Operation.declaredRoutes, Operation.declaredSources, insertParts]

/-- **A connection that is accepted gets all that has been declared.** -/
theorem accepted_run (operations : List (Operation H U)) :
    (run (operations ++ [.accept])).connections =
      (run operations).connections ++ [declared operations] := by
  rw [run_append_singleton, ← config_run]
  rfl

end Service

/-! ## The refinement -/

/-- A server with the tasks of its connections. -/
structure Host (H U : Type) where
  server : GenericServer H U
  running : Bool
  tasks : List Task

namespace Host

/-- A new server. -/
def new : Host H U where
  server := GenericServer.new
  running := false
  tasks := []

/-- What an operation does, `none` when it panics. -/
def step (host : Host H U) : Operation H U → Option (Host H U)
  | .routes routes =>
    (host.server.insertRoutes routes).map fun server => { host with server := server }
  | .addFilesSource fs base =>
    (host.server.addFilesSource fs base).map fun server => { host with server := server }
  | .start => some { host with running := true }
  | .accept =>
    let (server, task) := host.server.handleStream
    some { host with
      server := server
      tasks := host.tasks ++ [task] }
  | .stop => some { host with running := false }
  | .taskEnd i =>
    some { host with
      server := host.server.endTask
      tasks := host.tasks.eraseIdx i }

/-- The host behind a list of operations, `none` when one of them has panicked. -/
def run (operations : List (Operation H U)) : Option (Host H U) :=
  System.exec step new operations

/-- The service that a host provides: each connection has the configuration that its task handles
requests with. -/
def service (host : Host H U) : Service H U where
  config := host.server.config
  running := host.running
  connections := host.tasks.map (Task.view host.server)

/-- A host provides a service, and its server shares its allocations with its tasks. -/
structure Refines (service : Service H U) (host : Host H U) : Prop where
  provides : host.service = service
  routes : host.server.routes.SharedWith host.tasks.length
  filesSources : host.server.filesSources.SharedWith host.tasks.length

namespace Refines

variable {service : Service H U} {host : Host H U}

/-- A new server provides the service of a new one. -/
lemma new : Refines (Service.new : Service H U) Host.new :=
  ⟨rfl, Arc.SharedWith.new ∅, Arc.SharedWith.new []⟩

/-- The service has a connection for each task. -/
lemma connections_eq_nil_iff (h : Refines service host) :
    service.connections = [] ↔ host.tasks.length = 0 := by
  rw [← h.provides, List.length_eq_zero_iff]
  exact List.map_eq_nil_iff

/-- What new routes do to a host. -/
lemma step_routes (h : Refines service host) (routes : List (Route H U)) :
    host.step (.routes routes) = if host.tasks.length = 0 then
        some { host with server := { host.server with
          routes := Arc.new (insertParts routes host.server.routes.value) } }
      else none := by
  rw [Host.step, GenericServer.insertRoutes, h.routes.getMut_eq]
  split_ifs <;> rfl

/-- What a new source of files does to a host. -/
lemma step_addFilesSource (h : Refines service host) (fs : FileSystem) (base : Str) :
    host.step (.addFilesSource fs base) = if host.tasks.length = 0 then
        some { host with server := { host.server with
          filesSources := Arc.new (host.server.filesSources.value ++ [fileSourcePath fs base]) } }
      else none := by
  rw [Host.step, GenericServer.addFilesSource, h.filesSources.getMut_eq]
  split_ifs <;> rfl

/-- The end of a task leaves the others with their configurations. -/
lemma taskEnd (h : Refines service host) {i : ℕ} (hi : i < service.connections.length) :
    Refines (service.step (.taskEnd i)) { host with
      server := host.server.endTask
      tasks := host.tasks.eraseIdx i } := by
  obtain ⟨rfl, hroutes, hsources⟩ := h
  have htasks : i < host.tasks.length := by simpa [Host.service] using hi
  obtain ⟨n, hn⟩ : ∃ n, host.tasks.length = n + 1 := ⟨host.tasks.length - 1, by omega⟩
  have hlength : (host.tasks.eraseIdx i).length = n := by
    rw [List.length_eraseIdx_of_lt htasks, hn, Nat.add_sub_cancel]
  rw [hn] at hroutes hsources
  refine ⟨?_, ?_, ?_⟩
  · show Service.mk _ _ ((host.tasks.eraseIdx i).map (Task.view host.server)) = _
    rw [← List.eraseIdx_map]
    rfl
  · rw [hlength]
    exact hroutes.drop
  · rw [hlength]
    exact hsources.drop

/-- **The server does what the specification says** when it is not configured while a task is
there.

**Proof sketch.** A configuration finds the server alone with its allocations, so it can write to
them; no connection has a view that would change. A connection that is accepted sees what the
server is configured to do, and the values that the others see stay as they are. -/
theorem step (h : Refines service host) {operation : Operation H U}
    (henabled : service.Enabled operation) (hunattended : service.Unattended operation) :
    ∃ host', host.step operation = some host' ∧ Refines (service.step operation) host' := by
  have halone : operation.IsConfiguration → host.tasks.length = 0 := fun hconfigures =>
    h.connections_eq_nil_iff.1 (hunattended hconfigures)
  cases operation with
  | routes routes =>
    have htasks := halone trivial
    refine ⟨_, (h.step_routes routes).trans (if_pos htasks), ?_, ?_, h.filesSources⟩
    · rw [← h.provides]
      simp [Host.service, List.length_eq_zero_iff.1 htasks, Service.step, GenericServer.config]
    · show Arc.SharedWith _ host.tasks.length
      rw [htasks]
      exact Arc.SharedWith.new _
  | addFilesSource fs base =>
    have htasks := halone trivial
    refine ⟨_, (h.step_addFilesSource fs base).trans (if_pos htasks), ?_, h.routes, ?_⟩
    · rw [← h.provides]
      simp [Host.service, List.length_eq_zero_iff.1 htasks, Service.step, GenericServer.config]
    · show Arc.SharedWith _ host.tasks.length
      rw [htasks]
      exact Arc.SharedWith.new _
  | start =>
    obtain ⟨rfl, hroutes, hsources⟩ := h
    exact ⟨_, rfl, rfl, hroutes, hsources⟩
  | accept =>
    obtain ⟨rfl, hroutes, hsources⟩ := h
    refine ⟨_, rfl, ?_, ?_, ?_⟩
    · show Service.mk _ _ ((host.tasks ++ [_]).map (Task.view host.server)) = _
      rw [List.map_append]
      rfl
    · show Arc.SharedWith _ (host.tasks ++ [_]).length
      rw [List.length_append]
      exact hroutes.clone
    · show Arc.SharedWith _ (host.tasks ++ [_]).length
      rw [List.length_append]
      exact hsources.clone
  | stop =>
    obtain ⟨rfl, hroutes, hsources⟩ := h
    exact ⟨_, rfl, rfl, hroutes, hsources⟩
  | taskEnd i => exact ⟨_, rfl, h.taskEnd henabled⟩

/-- A configuration panics while a task is there. -/
lemma step_eq_none (h : Refines service host) {operation : Operation H U}
    (hattended : ¬ service.Unattended operation) : host.step operation = none := by
  obtain ⟨hconfigures, hconnections⟩ := Classical.not_imp.1 hattended
  have htasks : ¬ host.tasks.length = 0 := fun hlength =>
    hconnections (h.connections_eq_nil_iff.2 hlength)
  cases operation with
  | routes routes => rw [h.step_routes, if_neg htasks]
  | addFilesSource fs base => rw [h.step_addFilesSource, if_neg htasks]
  | _ => exact absurd hconfigures id

end Refines

end Host

/-! ## Configuration -/

/-- The operations can happen, one after the other. -/
def Legal (operations : List (Operation H U)) : Prop :=
  System.Along Service.step Service.Enabled Service.new operations

/-- Whenever the server is configured, the tasks of all its connections have ended. -/
def Unattended (operations : List (Operation H U)) : Prop :=
  System.Along Service.step Service.Unattended Service.new operations

/-- No operation panics, and behind each the server provides the service it should: it has the
configuration that has been declared, and each connection has the one that was declared when it was
accepted. -/
def Configures (operations : List (Operation H U)) : Prop :=
  ∀ before, before <+: operations →
    ∃ host, Host.run before = some host ∧ host.service = Service.run before ∧
      host.server.config = declared before

/-- **Which runs the configuration gets through.** In a run in which the server is configured only
when it is not running, no configuration panics, and every connection handles its requests with
the routes and sources declared before it was accepted, exactly when each configuration comes when
the tasks of all connections have ended.

**Proof sketch.** The server does what the specification says as long as it is alone with its
allocations whenever it is configured; the first configuration that finds a task panics. -/
theorem configures_iff (operations : List (Operation H U)) (hlegal : Legal operations) :
    Configures operations ↔ Unattended operations := by
  have hsafe : ∀ (service : Service H U) host operation, Host.Refines service host →
      service.Enabled operation → service.Unattended operation →
      ∃ host', host.step operation = some host' ∧
        Host.Refines (service.step operation) host' :=
    fun _ _ _ h henabled hunattended => h.step henabled hunattended
  constructor
  · intro hconfigures
    obtain ⟨host, hrun, -⟩ := hconfigures operations List.prefix_rfl
    exact System.safe_of_exec hsafe (fun _ _ _ h => h.step_eq_none) Host.Refines.new hlegal hrun
  · intro hunattended before hbefore
    obtain ⟨host, hrun, hrefines⟩ :=
      System.exec_simulates hsafe Host.Refines.new hlegal hunattended hbefore
    have hservice : host.service = Service.run before := hrefines.provides
    refine ⟨host, hrun, hservice, ?_⟩
    rw [← Service.config_run, ← hservice]
    rfl

/-! ## A run -/

/-- A file system without files. -/
def noFiles : FileSystem where
  isDir := fun _ => false
  canonicalize := fun _ => none
  read := fun _ => none

/-- A route without an upgrade. -/
def rootRoute : Route Unit Unit where
  path := "/".toList
  method := .get
  entry := ⟨(), none⟩

/-- A server is configured again when its connection has ended, and accepts one more. -/
def reconfigured : List (Operation Unit Unit) :=
  [.routes [rootRoute], .start, .accept, .taskEnd 0, .stop, .addFilesSource noFiles "www".toList,
    .start, .accept]

/-- The second connection has the source of files that the first one had not. -/
theorem reconfigured_configures : Legal reconfigured ∧ Configures reconfigured := by
  have hlegal : Legal reconfigured := by
    simp [Legal, reconfigured, System.Along, Service.Enabled, Service.step, Service.new]
  have hunattended : Unattended reconfigured := by
    simp [Unattended, reconfigured, System.Along, Service.Unattended, Service.step, Service.new,
      Operation.IsConfiguration]
  exact ⟨hlegal, (configures_iff reconfigured hlegal).2 hunattended⟩

/-- A server has returned from `run_until_shutdown`, while a client is still connected. -/
def attended : List (Operation Unit Unit) := [.start, .accept, .stop, .routes [rootRoute]]

/-- New routes panic. -/
theorem attended_not_configures :
    ¬ ∀ operations : List (Operation Unit Unit), Legal operations → Configures operations := by
  intro hall
  have hlegal : Legal attended := by
    simp [Legal, attended, System.Along, Service.Enabled, Service.step, Service.new]
  obtain ⟨host, hrun, -⟩ := hall attended hlegal attended List.prefix_rfl
  have hpanics : Host.run attended = none := rfl
  rw [hpanics] at hrun
  exact absurd hrun (Option.some_ne_none host).symm

end Httpageboy
