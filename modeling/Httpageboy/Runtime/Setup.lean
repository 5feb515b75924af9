import Httpageboy.Routing.Order
import Httpageboy.Runtime.Configuration
import Httpageboy.Runtime.Statuses

set_option relaxedAutoImplicit false
set_option autoImplicit false

/-!
# The calls that configure a server

The setters, `routes` and `add_files_source`, which the synchronous and the asynchronous servers
have in common, as one list of calls. What a server does depends on what the calls declare: the
last registration for each method and path, the sources of files in their order, and the last
value of each setting. It does not depend on the order of the calls otherwise, nor on the order
in which the route table is walked, on connections whose requests leave nothing for it to decide.

## Main definitions

* `Httpageboy.Setup` — a call that configures a server.
* `Httpageboy.configured` — the server behind a list of calls.
* `Httpageboy.SameDeclarations` — two lists of calls declare the same.
* `Httpageboy.Turn.Alike` — iterations that differ in the order of the parameters only.

## Main results

* `Httpageboy.configured_routes`, `Httpageboy.configured_limits` — the last call counts.
* `Httpageboy.Server.Alike.turn` — servers that are configured alike serve a request alike.
* `Httpageboy.run_declared` — what is declared decides what connections get.
-/

namespace Httpageboy

variable {H U : Type}

/-! ## The calls -/

/-- The fields of `RequestLimits`, each of which has a setter. -/
inductive LimitField where
  | bodyBytes
  | headerBytes
  | idleTimeout
  | requestTimeout
  | keepAliveTimeout
  | maxRequests
  deriving DecidableEq, Repr

namespace RequestLimits

/-- Set one field. -/
def set (limits : RequestLimits) (field : LimitField) (value : ℕ) : RequestLimits :=
  match field with
  | .bodyBytes => { limits with bodyBytes := value }
  | .headerBytes => { limits with headerBytes := value }
  | .idleTimeout => { limits with idleTimeout := value }
  | .requestTimeout => { limits with requestTimeout := value }
  | .keepAliveTimeout => { limits with keepAliveTimeout := value }
  | .maxRequests => { limits with maxRequests := value }

/-- Read one field. -/
def get (limits : RequestLimits) : LimitField → ℕ
  | .bodyBytes => limits.bodyBytes
  | .headerBytes => limits.headerBytes
  | .idleTimeout => limits.idleTimeout
  | .requestTimeout => limits.requestTimeout
  | .keepAliveTimeout => limits.keepAliveTimeout
  | .maxRequests => limits.maxRequests

/-- A limit that is set has its value. -/
lemma get_set (limits : RequestLimits) (field : LimitField) (value : ℕ) :
    (limits.set field value).get field = value := by
  cases field <;> rfl

/-- Setting a limit leaves the others as they are. -/
lemma get_set_of_ne (limits : RequestLimits) (field other : LimitField) (value : ℕ)
    (hne : field ≠ other) : (limits.set field value).get other = limits.get other := by
  cases field <;> cases other <;> first | rfl | exact absurd rfl hne

/-- Limits are what their fields are. -/
lemma ext_get {limits limits' : RequestLimits} (h : ∀ field, limits.get field = limits'.get field) :
    limits = limits' := by
  obtain ⟨body, header, idle, request, keepAlive, requests⟩ := limits
  have hbody : body = limits'.bodyBytes := h .bodyBytes
  have hheader : header = limits'.headerBytes := h .headerBytes
  have hidle : idle = limits'.idleTimeout := h .idleTimeout
  have hrequest : request = limits'.requestTimeout := h .requestTimeout
  have hkeepAlive : keepAlive = limits'.keepAliveTimeout := h .keepAliveTimeout
  have hrequests : requests = limits'.maxRequests := h .maxRequests
  subst hbody hheader hidle hrequest hkeepAlive hrequests
  rfl

end RequestLimits

/-- A call that configures a server. -/
inductive Setup (H U : Type) where
  | setLimit (field : LimitField) (value : ℕ)
  | setCors (policy : CorsPolicy)
  | routes (routes : List (Route H U))
  | addFilesSource (fs : FileSystem) (base : Str)

namespace Setup

/-- `set_body_limit`. -/
def setBodyLimit (bytes : ℕ) : Setup H U := setLimit .bodyBytes bytes

/-- `set_header_limit`. -/
def setHeaderLimit (bytes : ℕ) : Setup H U := setLimit .headerBytes bytes

/-- `set_idle_timeout`. -/
def setIdleTimeout (timeout : ℕ) : Setup H U := setLimit .idleTimeout timeout

/-- `set_req_timeout`. -/
def setReqTimeout (timeout : ℕ) : Setup H U := setLimit .requestTimeout timeout

/-- `set_keep_alive`. -/
def setKeepAlive (timeout : ℕ) : Setup H U := setLimit .keepAliveTimeout timeout

/-- `set_max_requests`, which keeps the limit positive. -/
def setMaxRequests (requests : ℕ) : Setup H U := setLimit .maxRequests (max requests 1)

/-- `set_cors_str`. -/
def setCorsStr (config : Str) : Setup H U := setCors (CorsPolicy.fromConfigStr config)

/-- The routes that a call registers. -/
def declaredRoutes : Setup H U → List (Route H U)
  | .routes added => added
  | _ => []

/-- The sources of files that a call adds. -/
def declaredSources : Setup H U → List Str
  | .addFilesSource fs base => [fileSourcePath fs base]
  | _ => []

/-- The policy that a call sets. -/
def declaredPolicy : Setup H U → Option CorsPolicy
  | .setCors policy => some policy
  | _ => none

/-- The limit that a call sets. -/
def declaredLimit : Setup H U → Option (LimitField × ℕ)
  | .setLimit field value => some (field, value)
  | _ => none

end Setup

namespace Server

/-- `Server::new`. -/
def new : Server H U where
  routes := ∅
  filesSources := []
  cors := some CorsPolicy.default
  limits := RequestLimits.default

/-- The setters, `routes` and `add_files_source` of the synchronous server. -/
def configure (server : Server H U) : Setup H U → Server H U
  | .setLimit field value => { server with limits := server.limits.set field value }
  | .setCors policy => { server with cors := some policy }
  | .routes routes => { server with routes := insertParts routes server.routes }
  | .addFilesSource fs base =>
    { server with filesSources := server.filesSources ++ [fileSourcePath fs base] }

end Server

/-- The server behind a list of calls. -/
def configured (calls : List (Setup H U)) : Server H U := calls.foldl Server.configure Server.new

/-- A list of calls, and one more. -/
lemma configured_append_singleton (calls : List (Setup H U)) (call : Setup H U) :
    configured (calls ++ [call]) = (configured calls).configure call := List.foldl_append

/-! ## What the calls declare -/

/-- The registrations of routes, in order. -/
def registrations (calls : List (Setup H U)) : List ((RequestType × Str) × RouteEntry H U) :=
  (calls.flatMap Setup.declaredRoutes).map Route.intoParts

/-- What a list of calls and one more declare. -/
lemma registrations_append_singleton (calls : List (Setup H U)) (call : Setup H U) :
    registrations (calls ++ [call]) =
      registrations calls ++ call.declaredRoutes.map Route.intoParts := by
  simp [registrations]

/-- The route table holds what was registered. -/
lemma configured_table (calls : List (Setup H U)) :
    (configured calls).routes =
      (registrations calls).foldl (fun table parts => table.insert parts.1 parts.2) ∅ := by
  induction calls using List.reverseRecOn with
  | nil => rfl
  | append_singleton calls call ih =>
    rw [configured_append_singleton, registrations_append_singleton, List.foldl_append, ← ih]
    cases call with
    | routes added =>
      show insertParts added _ = (added.map Route.intoParts).foldl _ _
      rw [insertParts, List.foldl_map]
    | _ => rfl

/-- **The last registration counts** for each method and path. -/
theorem configured_routes (calls : List (Setup H U)) (key : RequestType × Str) :
    (configured calls).routes.lookup key = Writes.last key (registrations calls) := by
  rw [configured_table, Assoc.lookup_foldl_insert, AList.lookup_empty, Option.or_none]

/-- The sources of files come in the order in which they were added. -/
lemma configured_filesSources (calls : List (Setup H U)) :
    (configured calls).filesSources = calls.flatMap Setup.declaredSources := by
  induction calls using List.reverseRecOn with
  | nil => rfl
  | append_singleton calls call ih =>
    rw [configured_append_singleton, List.flatMap_append, ← ih, List.flatMap_singleton]
    cases call with
    | addFilesSource fs base => rfl
    | _ => exact (List.append_nil _).symm

/-- The last policy counts. -/
lemma configured_cors (calls : List (Setup H U)) :
    (configured calls).cors =
      (calls.filterMap Setup.declaredPolicy).getLast?.or (some CorsPolicy.default) := by
  induction calls using List.reverseRecOn with
  | nil => rfl
  | append_singleton calls call ih =>
    rw [configured_append_singleton, List.filterMap_append, List.getLast?_append, Option.or_assoc,
      ← ih]
    cases call <;> rfl

/-- **The last value counts** for each limit. -/
theorem configured_limits (calls : List (Setup H U)) (field : LimitField) :
    (configured calls).limits.get field =
      (Writes.last field (calls.filterMap Setup.declaredLimit)).getD
        (RequestLimits.default.get field) := by
  have hfold : (configured calls).limits = (calls.filterMap Setup.declaredLimit).foldl
      (fun limits write => limits.set write.1 write.2) RequestLimits.default := by
    induction calls using List.reverseRecOn with
    | nil => rfl
    | append_singleton calls call ih =>
      rw [configured_append_singleton, List.filterMap_append, List.foldl_append, ← ih]
      cases call <;> rfl
  have hget := Writes.get_foldl RequestLimits.set RequestLimits.get (fun _ value => value)
    RequestLimits.get_set RequestLimits.get_set_of_ne (calls.filterMap Setup.declaredLimit)
    RequestLimits.default field
  rw [hfold, hget, Option.map_id']

/-- Two lists of calls declare the same: the same registration counts for each method and path,
the same policy, and the same value for each limit, and the sources of files are the same, in
their order. -/
structure SameDeclarations (calls calls' : List (Setup H U)) : Prop where
  registered : ∀ key, Writes.last key (registrations calls) = Writes.last key (registrations calls')
  sources : calls.flatMap Setup.declaredSources = calls'.flatMap Setup.declaredSources
  policy : (calls.filterMap Setup.declaredPolicy).getLast? =
    (calls'.filterMap Setup.declaredPolicy).getLast?
  limits : ∀ field, Writes.last field (calls.filterMap Setup.declaredLimit) =
    Writes.last field (calls'.filterMap Setup.declaredLimit)

/-! ## Servers that are configured alike -/

/-- Two servers are configured alike, but for the order in which their route tables are walked. -/
structure Server.Alike (server server' : Server H U) : Prop where
  routes : server'.routes.entries.Perm server.routes.entries
  filesSources : server'.filesSources = server.filesSources
  cors : server'.cors = server.cors
  limits : server'.limits = server.limits

/-- Calls that declare the same configure servers alike. -/
lemma SameDeclarations.alike {calls calls' : List (Setup H U)} (h : SameDeclarations calls calls') :
    (configured calls).Alike (configured calls') := by
  refine ⟨?_, ?_, ?_, ?_⟩
  · refine List.lookup_ext (configured calls').routes.nodupKeys (configured calls).routes.nodupKeys
      fun key entry => ?_
    have hlookup : (configured calls').routes.lookup key =
        (configured calls).routes.lookup key := by
      rw [configured_routes, configured_routes, h.registered]
    exact iff_of_eq (congrArg (entry ∈ ·) hlookup)
  · rw [configured_filesSources, configured_filesSources, h.sources]
  · rw [configured_cors, configured_cors, h.policy]
  · refine RequestLimits.ext_get fun field => ?_
    rw [configured_limits, configured_limits, h.limits]

/-- Tables that are walked in some order. -/
lemma Server.Alike.symm {server server' : Server H U} (h : server.Alike server') :
    server'.Alike server :=
  ⟨h.routes.symm, h.filesSources.symm, h.cors.symm, h.limits.symm⟩

/-- Servers that are alike to a third one are alike. -/
lemma Server.Alike.trans {server₁ server₂ server₃ : Server H U} (h : server₁.Alike server₂)
    (h' : server₂.Alike server₃) : server₁.Alike server₃ :=
  ⟨h'.routes.trans h.routes, h'.filesSources.trans h.filesSources, h'.cors.trans h.cors,
    h'.limits.trans h.limits⟩

/-- Handlers that do not depend on the order in which the parameters are walked. -/
def Env.Respects (env : Env H) : Prop :=
  ∀ handler request request', Request.Same request request' →
    env.handle handler request' = env.handle handler request

/-- Exchanges that differ in the order of the parameters only. -/
structure Exchange.Alike (exchange exchange' : Exchange H U) : Prop where
  raw : exchange'.raw = exchange.raw
  request : exchange.request.Same exchange'.request
  response : exchange'.response = exchange.response
  invoked : List.Forall₂ (fun i i' => i'.key = i.key ∧ i'.entry = i.entry ∧
    Request.Same i.request i'.request) exchange.invoked exchange'.invoked

/-- Iterations that differ in the order of the parameters only: the client gets the same bytes, and
the upgrade handlers the same stream. -/
inductive Turn.Alike : Turn H U → Turn H U → Prop
  | ended : Alike .ended .ended
  | rejected (reply : Reply) : Alike (.rejected reply) (.rejected reply)
  | answered {exchange exchange' : Exchange H U} (h : exchange.Alike exchange') (reply : Reply) :
      Alike (.answered exchange reply) (.answered exchange' reply)
  | upgraded {exchange exchange' : Exchange H U} (h : exchange.Alike exchange') (reply : Reply)
      (upgrade : U) (stream : List Read) :
      Alike (.upgraded exchange reply upgrade stream) (.upgraded exchange' reply upgrade stream)

/-- Loops go on alike. -/
lemma Turn.Alike.continues {turn turn' : Turn H U} (h : turn.Alike turn') :
    turn.continues = turn'.continues := by
  cases h <;> rfl

/-- The client gets the same bytes. -/
lemma Turn.Alike.reply? {turn turn' : Turn H U} (h : turn.Alike turn') :
    turn'.reply? = turn.reply? := by
  cases h <;> rfl

/-- The order of the route table has nothing to decide for a framed request. -/
def Settles (routes : Routes H U) (raw : Bytes) : Prop :=
  ∀ method target, Requests raw method target → Unambiguous routes method target

/-- What the parser rejects, it rejects for every table, and in the same way. -/
lemma parseRawOnly_error {raw : Bytes} {routes : Routes H U} {response : Response}
    (h : parseRawOnly raw routes = .error response) (routes' : Routes H U) :
    parseRawOnly raw routes' = .error response := by
  unfold parseRawOnly at h ⊢
  rcases hposition : Search.position crlfcrlf raw with _ | separator
  · simpa only [hposition] using h
  · simp only [hposition] at h ⊢
    rcases hhead : Utf8.decode (raw.take separator) with _ | head
    · simpa only [hhead] using h
    · simp only [hhead] at h ⊢
      unfold parseHead at h ⊢
      split at h
      · exact h
      · split at h
        · split_ifs at h ⊢ <;> exact h
        · exact h

/-- Requests without a difference but in the order of their parameters, in the other direction. -/
lemma Request.Same.symm {request request' : Request} (h : request.Same request') :
    request'.Same request :=
  ⟨h.method.symm, h.path.symm, h.version.symm, h.headers.symm, h.body.symm,
    fun name => (h.params name).symm⟩

/-- Requests that are the same as a third one are the same. -/
lemma Request.Same.trans {request₁ request₂ request₃ : Request} (h : request₁.Same request₂)
    (h' : request₂.Same request₃) : request₁.Same request₃ :=
  ⟨h'.method.trans h.method, h'.path.trans h.path, h'.version.trans h.version,
    h'.headers.trans h.headers, h'.body.trans h.body,
    fun name => (h'.params name).trans (h.params name)⟩

/-- The response to a request that an entry serves. -/
lemma Server.respond_served (server : Server H U) (env : Env H) {raw : Bytes} {request : Request}
    {e : TableEntry H U} (hparse : parseRawOnly raw server.routes = .ok request)
    (hselect : selectEntry server.routes request.method request.path = some e) :
    (parseRaw env raw server.routes server.filesSources).request =
        routedRequest server.routes request e ∧
      server.respond env raw (parseRaw env raw server.routes server.filesSources) =
        ⟨raw, routedRequest server.routes request e,
          env.handle e.2.handler (routedRequest server.routes request e),
          [⟨e.1, e.2, routedRequest server.routes request e⟩]⟩ := by
  have hroute := route_eq env request server.routes server.filesSources
  simp only [hselect] at hroute
  unfold parseRaw
  simp only [hparse, hroute]
  exact ⟨rfl, rfl⟩

/-- Routing leaves a request alone that no entry serves. -/
lemma Server.request_unserved (server : Server H U) (env : Env H) {raw : Bytes} {request : Request}
    (hparse : parseRawOnly raw server.routes = .ok request)
    (hselect : selectEntry server.routes request.method request.path = none) :
    (parseRaw env raw server.routes server.filesSources).request = request := by
  have hroute := route_eq env request server.routes server.filesSources
  simp only [hselect] at hroute
  unfold parseRaw
  simp only [hparse, hroute]

namespace Server.Alike

variable {server server' : Server H U} {env : Env H} {raw : Bytes}

/-- The parser accepts the same request, and the same entry is selected for it. -/
lemma selects (h : server.Alike server') (hraw : Settles server.routes raw) {request : Request}
    (hparse : parseRawOnly raw server.routes = .ok request) :
    ∃ request', parseRawOnly raw server'.routes = .ok request' ∧ request.Same request' ∧
      selectEntry server'.routes request'.method request'.path =
        selectEntry server.routes request.method request.path ∧
      ∀ e, selectEntry server.routes request.method request.path = some e →
        request.Same (routedRequest server.routes request e) ∧
        request'.Same (routedRequest server'.routes request' e) := by
  obtain ⟨request', hparse'⟩ := accepted_of_ok hparse server'.routes
  obtain ⟨method, target, headers, body, hrequests, rfl, rfl⟩ := parsed_of_ok hparse hparse'
  have hunambiguous := hraw method target hrequests
  have hselect := hunambiguous.selectEntry_eq (List.Perm.refl _) h.routes
  have hparams := hunambiguous.targetParams_eq (List.Perm.refl _) h.routes
  refine ⟨_, hparse', ⟨rfl, rfl, rfl, rfl, rfl, hparams⟩, hselect.symm, fun e he => ?_⟩
  exact ⟨routedRequest_params he _ _ _, routedRequest_params (hselect.symm.trans he) _ _ _⟩

/-- **Servers that are configured alike answer a framed request alike**: the same handler gets the
same request, the response is the same, and so is the upgrade handler that may follow it.

**Proof sketch.** A rejection does not depend on the table. An accepted request differs in the
order of its parameters, and the same entry is selected for it, which decides what the two passes
come to. -/
lemma respond (h : server.Alike server') (hraw : Settles server.routes raw) (henv : env.Respects) :
    (server.respond env raw (parseRaw env raw server.routes server.filesSources)).Alike
      (server'.respond env raw (parseRaw env raw server'.routes server'.filesSources)) ∧
    (parseRaw env raw server.routes server.filesSources).request.Same
      (parseRaw env raw server'.routes server'.filesSources).request ∧
    ((server.respond env raw (parseRaw env raw server.routes server.filesSources)).response.status =
        .switchingProtocols →
      (parseRaw env raw server'.routes server'.filesSources).request.upgradeHandler
          server'.routes =
        (parseRaw env raw server.routes server.filesSources).request.upgradeHandler
          server.routes) := by
  cases hparse : parseRawOnly raw server.routes with
  | error response =>
    have hparse' := parseRawOnly_error hparse server'.routes
    have hrequest : (parseRaw env raw server.routes server.filesSources).request =
        Request.default := by
      unfold parseRaw
      rw [hparse]
    have hrequest' : (parseRaw env raw server'.routes server'.filesSources).request =
        Request.default := by
      unfold parseRaw
      rw [hparse']
    rw [Server.respond_rejected env env hparse, Server.respond_rejected env env hparse', hrequest,
      hrequest']
    refine ⟨⟨rfl, .refl _, rfl, .nil⟩, .refl _, fun hstatus => ?_⟩
    exact absurd hstatus (status_of_rejected hparse)
  | ok request =>
    obtain ⟨request', hparse', hsame, hselect, hrouted⟩ := h.selects hraw hparse
    cases hentry : selectEntry server.routes request.method request.path with
    | none =>
      have hentry' := hselect.trans hentry
      rw [Server.respond_unserved env env hparse hentry,
        Server.respond_unserved env env hparse' hentry', server.request_unserved env hparse hentry,
        server'.request_unserved env hparse' hentry', h.filesSources, h.cors, hsame.method,
        hsame.path]
      refine ⟨⟨rfl, hsame, rfl, .nil⟩, hsame, fun _ => ?_⟩
      rw [upgradeHandler_eq, upgradeHandler_eq, hselect]
    | some e =>
      have hentry' := hselect.trans hentry
      obtain ⟨hfirst, hfirst'⟩ := hrouted e hentry
      have hboth := (hfirst.symm.trans hsame).trans hfirst'
      obtain ⟨hrequest, hrespond⟩ := server.respond_served env hparse hentry
      obtain ⟨hrequest', hrespond'⟩ := server'.respond_served env hparse' hentry'
      rw [hrespond, hrespond', hrequest, hrequest']
      refine ⟨⟨rfl, hboth, henv _ _ _ hboth, .cons ⟨rfl, rfl, hboth⟩ .nil⟩, hboth, fun _ => ?_⟩
      rw [upgradeHandler_eq, upgradeHandler_eq, hfirst.method, hfirst.path, hfirst'.method,
        hfirst'.path, hselect]

/-- The connection is closed behind the same responses. -/
lemma closes (h : server.Alike server') {routed routed' : Routed H U}
    (hsame : routed.request.Same routed'.request) (handled : ℕ) (response : Response) :
    server'.closes handled routed' response = server.closes handled routed response := by
  unfold Server.closes Request.wantsClose
  rw [hsame.headers, h.limits]

/-- The response is written in the same way. -/
lemma reply (h : server.Alike server') {routed routed' : Routed H U}
    (hsame : routed.request.Same routed'.request) (response : Response) (close : Bool) :
    server'.reply routed' response close = server.reply routed response close := by
  unfold Server.reply Request.origin
  rw [hsame.headers, hsame.method, h.cors]

/-- The rest of an iteration behind a framed request. -/
lemma answer (h : server.Alike server') (hraw : Settles server.routes raw) (henv : env.Respects)
    (handled : ℕ) (stream : List Read) :
    (server.answer env handled raw (parseRaw env raw server.routes server.filesSources)
        stream).Alike
      (server'.answer env handled raw (parseRaw env raw server'.routes server'.filesSources)
        stream) := by
  obtain ⟨hexchange, hsame, hupgrade⟩ := h.respond hraw henv
  unfold Server.answer
  generalize parseRaw env raw server.routes server.filesSources = routed at *
  generalize parseRaw env raw server'.routes server'.filesSources = routed' at *
  generalize server.respond env raw routed = exchange at *
  generalize server'.respond env raw routed' = exchange' at *
  simp only [hexchange.response, h.closes hsame, h.reply hsame]
  by_cases hstatus : exchange.response.status = .switchingProtocols
  · rw [if_pos hstatus, if_pos hstatus, hupgrade hstatus]
    cases routed.request.upgradeHandler server.routes with
    | none => exact .answered hexchange _
    | some upgrade =>
      simp only
      split
      · exact .upgraded hexchange _ _ _
      · exact .answered hexchange _
  · rw [if_neg hstatus, if_neg hstatus]
    exact .answered hexchange _

/-- **Servers that are configured alike serve a request alike.** -/
theorem turn (h : server.Alike server') {env : ℕ → Env H} (henv : ∀ i, (env i).Respects)
    {conn conn' : Conn} {turn : Turn H U} (hturn : server.turn env conn = some (turn, conn'))
    (hraw : ∀ raw, turn.raw? = some raw → Settles server.routes raw) :
    ∃ turn', server'.turn env conn = some (turn', conn') ∧ turn.Alike turn' := by
  unfold Server.turn parseStream at hturn ⊢
  rw [h.limits]
  rcases hread : readRequest server.limits (0 < conn.handled) conn.reader with
    _ | ⟨raw | _ | _ | response, reader⟩
  · simp [hread] at hturn
  all_goals
    simp only [hread, Option.map_some, StreamRead.map, Option.some.injEq, Prod.mk.injEq] at hturn ⊢
    obtain ⟨rfl, rfl⟩ := hturn
  · exact ⟨_, ⟨rfl, rfl⟩, h.answer (hraw raw (Server.raw?_answer ..)) (henv _) _ _⟩
  · exact ⟨_, ⟨rfl, rfl⟩, .ended⟩
  · exact ⟨_, ⟨rfl, rfl⟩, .ended⟩
  · rw [h.cors]
    exact ⟨_, ⟨rfl, rfl⟩, .rejected _⟩

/-- The readers wait for the same. -/
lemma turn_blocks (h : server.Alike server') {env : ℕ → Env H} {conn : Conn}
    (hturn : server.turn env conn = none) : server'.turn env conn = none := by
  unfold Server.turn parseStream at hturn ⊢
  rw [h.limits]
  rcases hread : readRequest server.limits (0 < conn.handled) conn.reader with
    _ | ⟨raw | _ | _ | response, reader⟩
  · rfl
  all_goals simp [hread, StreamRead.map] at hturn

end Server.Alike

/-! ## Connections -/

/-- What the order of a table does not decide, no other order decides. -/
lemma Settles.perm {routes routes' : Routes H U} {raw : Bytes} (h : Settles routes raw)
    (hperm : routes'.entries.Perm routes.entries) : Settles routes' raw := by
  intro method target hrequests e₁ he₁ e₂ he₂ hmethod₁ hbinds₁ hmethod₂ hbinds₂
  obtain ⟨hparams, hliteral⟩ := h method target hrequests e₁ (hperm.mem_iff.1 he₁) e₂
    (hperm.mem_iff.1 he₂) hmethod₁ hbinds₁ hmethod₂ hbinds₂
  exact ⟨hparams, fun hnone => hliteral ((AList.perm_lookup hperm).symm.trans hnone)⟩

/-- A table without placeholders leaves nothing for its order to decide. -/
lemma settles_of_literal {routes : Routes H U}
    (h : ∀ e ∈ routes.entries, ∀ part ∈ e.1.2.splitOn '/', isPlaceholder part = false)
    (raw : Bytes) : Settles routes raw := by
  intro method target _ e₁ he₁ e₂ _ _ hbinds₁
  obtain ⟨-, part, hpart, hplace⟩ := hbinds₁
  rw [h e₁ he₁ part hpart] at hplace
  cases hplace

/-- Turns that are alike have the same replies. -/
lemma replies_of_alike {turns turns' : List (Turn H U × Conn)}
    (h : List.Forall₂ (fun turn turn' => turn.1.Alike turn'.1 ∧ turn.2 = turn'.2) turns turns') :
    turns'.filterMap (fun turn => turn.1.reply?) = turns.filterMap fun turn => turn.1.reply? := by
  induction h with
  | nil => rfl
  | cons hturn _ ih =>
    have hreply := hturn.1.reply?
    rw [List.filterMap_cons, List.filterMap_cons, hreply, ih]

/-- **What is declared decides what connections get.** Two servers that were configured by calls
that declare the same, in any order and however their route tables are walked, serve every
connection in the same way, as long as its requests leave nothing for the order of a table to
decide and the handlers do not look at the order of the parameters: turn by turn the same handlers
get the same requests, the same bytes are written, the same streams are handed over, and the
connection is left in the same state.

**Proof sketch.** The tables hold the same entries, because the last registration counts. So every
turn of one server is a turn of the other (`Server.Alike.turn`), and the loops keep together
(`Loop.run_simulates`). -/
theorem run_declared {calls calls' : List (Setup H U)} (hsame : SameDeclarations calls calls')
    {server server' : Server H U} (hserver : (configured calls).Alike server)
    (hserver' : (configured calls').Alike server') {env : ℕ → Env H}
    (henv : ∀ i, (env i).Respects) (n : ℕ) (conn : Conn)
    (hraw : ∀ turn ∈ (server.run env n conn).turns, ∀ raw, turn.1.raw? = some raw →
      Settles (configured calls).routes raw) :
    List.Forall₂ (fun turn turn' => turn.1.Alike turn'.1 ∧ turn.2 = turn'.2)
        (server.run env n conn).turns (server'.run env n conn).turns ∧
      (server'.run env n conn).turns.filterMap (fun turn => turn.1.reply?) =
        (server.run env n conn).turns.filterMap (fun turn => turn.1.reply?) ∧
      (server'.run env n conn).next = (server.run env n conn).next := by
  have halike : server.Alike server' := hserver.symm.trans (hsame.alike.trans hserver')
  have hturn : ∀ (conn conn' : Conn) turn next, conn = conn' →
      server.turn env conn = some (turn, next) →
      (∀ raw, turn.raw? = some raw → Settles (configured calls).routes raw) →
      ∃ turn' next', server'.turn env conn' = some (turn', next') ∧ turn.Alike turn' ∧
        next = next' := by
    rintro conn _ turn next rfl hturn hsettles
    obtain ⟨turn', hturn', hsame⟩ := halike.turn henv hturn fun raw hread =>
      (hsettles raw hread).perm hserver.routes
    exact ⟨turn', next, hturn', hsame, rfl⟩
  have hblocks : ∀ conn conn' : Conn, conn = conn' → server.turn env conn = none →
      server'.turn env conn' = none := by
    rintro conn _ rfl hnone
    exact halike.turn_blocks hnone
  obtain ⟨hturns, hnext⟩ := Loop.run_simulates hturn hblocks (fun _ _ h => h.continues)
    (rfl : conn = conn) hraw
  refine ⟨hturns, replies_of_alike hturns, ?_⟩
  unfold Server.run
  revert hnext
  generalize (Loop.run (server.turn env) Turn.continues n conn).next = next
  generalize (Loop.run (server'.turn env) Turn.continues n conn).next = next'
  rintro (heq | _)
  · rw [heq]
  · rfl

/-! ## Two orders of calls -/

/-- A literal route whose handler is named by a truth value. -/
def namedRoute (path : String) (handler : Bool) : Route Bool Unit where
  path := path.toList
  method := .get
  entry := ⟨handler, none⟩

/-- Two routes, and two limits. -/
def shortSetup : List (Setup Bool Unit) :=
  [.routes [namedRoute "/" true, namedRoute "/about" false], .setBodyLimit 10, .setMaxRequests 0]

/-- The same in another order, with registrations and values that do not last. -/
def longSetup : List (Setup Bool Unit) :=
  [.setMaxRequests 7, .routes [namedRoute "/" false], .setBodyLimit 10,
    .routes [namedRoute "/about" false], .setMaxRequests 1, .routes [namedRoute "/" true]]

/-- Handlers that answer with their name. -/
def namedEnv : Env Bool where
  handle := fun handler _ => if handler then Response.new else errorResponse .notFound
  fs := noFiles

/-- The two servers serve a request alike. -/
theorem run_declared_setups :
    ((configured longSetup).run (fun _ => namedEnv) 1
        (.start 0 [⟨5, .ok (Utf8.encode "GET / HTTP/1.1\r\n\r\n".toList)⟩])).turns.filterMap
          (fun turn => turn.1.reply?) =
      ((configured shortSetup).run (fun _ => namedEnv) 1
        (.start 0 [⟨5, .ok (Utf8.encode "GET / HTTP/1.1\r\n\r\n".toList)⟩])).turns.filterMap
          (fun turn => turn.1.reply?) := by
  have hsame : SameDeclarations shortSetup longSetup := by
    refine ⟨fun key => ?_, rfl, rfl, fun field => ?_⟩
    · -- the first registration of the longer setup does not last
      have hshort : registrations shortSetup = [(namedRoute "/" true).intoParts,
          (namedRoute "/about" false).intoParts] := rfl
      have hlong : registrations longSetup = [(namedRoute "/" false).intoParts,
          (namedRoute "/about" false).intoParts, (namedRoute "/" true).intoParts] := rfl
      rw [hshort, hlong]
      simp only [Writes.last, Option.none_or]
      by_cases hhome : (namedRoute "/" true).intoParts.1 = key
      · subst hhome
        rfl
      · have hhome' : (namedRoute "/" false).intoParts.1 ≠ key := hhome
        rw [if_neg hhome, if_neg hhome', Option.or_none, Option.none_or, Option.or_none]
    · cases field <;> rfl
  have hliteral : ∀ e ∈ (configured shortSetup).routes.entries, ∀ part ∈ e.1.2.splitOn '/',
      isPlaceholder part = false := by decide
  exact (run_declared hsame ⟨.refl _, rfl, rfl, rfl⟩ ⟨.refl _, rfl, rfl, rfl⟩
    (fun _ _ _ _ _ => rfl) 1 _ fun _ _ _ _ => settles_of_literal hliteral _).2.1

end Httpageboy
