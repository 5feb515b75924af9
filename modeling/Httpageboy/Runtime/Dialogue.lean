import Httpageboy.Routing.Patterns
import Httpageboy.Runtime.CloseDiscipline
import Httpageboy.Runtime.CrossOrigin
import Httpageboy.Runtime.Sequential

set_option relaxedAutoImplicit false
set_option autoImplicit false

/-!
# What a client reads

A client that writes its requests one behind the other reads what comes back by the message-length
rules. When the handlers of the application give final responses that can be written and declare
no length of their own, the client reads one response for each request that was served, in order,
however the network cuts the bytes of the requests.

## Main definitions

* `Httpageboy.Readable`, `Httpageboy.Civil` — what the application keeps to.
* `Httpageboy.Server.conversation` — the answers the client is to read.

## Main results

* `Httpageboy.Server.readable_responseTo` — every response of such an application can be read.
* `Httpageboy.run_dialogue` — the client reads the conversation, and nothing else.
-/

namespace Httpageboy

variable {H U : Type}

/-! ## Applications -/

/-- A response that a client can read, whatever its request was: its status is final, its headers
can be written, and none of them declares a length. -/
structure Readable (response : Response) : Prop where
  final : 200 ≤ response.status.code
  headers : ∀ entry ∈ response.headers, validEntry entry = true ∧ smuggles entry = false

/-- The handlers of the application give such responses, and the lists of its policy have no line
breaks. -/
structure Civil (server : Server H U) (env : ℕ → Env H) : Prop where
  handlers : ∀ i, ∀ e ∈ server.routes.entries, ∀ request,
    Readable ((env i).handle e.2.handler request)
  policy : ∀ policy, server.cors = some policy →
    OneLine policy.allowMethods ∧ OneLine policy.allowHeaders

/-! ## Responses of the server itself -/

/-- A response that no handler makes: its status is final, and its only header is a content type
that can be written. -/
def OwnResponse (response : Response) : Prop :=
  200 ≤ response.status.code ∧
    ∃ value, OneLine value ∧ response.headers = [("Content-Type".toList, value)]

/-- A content type is a text of the table, which can be written. -/
lemma oneLine_getContentTypeQuick (path : Path) : OneLine (getContentTypeQuick path) := by
  unfold getContentTypeQuick
  simp only
  split
  · rename_i row hrow
    have hmem := List.mem_of_find?_eq_some hrow
    clear hrow
    unfold OneLine
    revert row
    decide
  · unfold OneLine
    decide

/-- The empty response leaves its length to the server. -/
lemma ownResponse_new : OwnResponse Response.new :=
  ⟨by decide, "text/plain".toList, by unfold OneLine; decide, rfl⟩

/-- So do those of the file server. -/
lemma ownResponse_serveFile (fs : FileSystem) (path : Str) (bases : List Str) :
    OwnResponse (serveFile fs path bases) := by
  induction bases with
  | nil => exact ownResponse_new
  | cons base bases ih =>
    unfold serveFile
    cases securePath fs (Utf8.encode base) path with
    | none => exact ih
    | some realPath =>
      simp only
      cases fs.read realPath with
      | none => exact ih
      | some data =>
        have hfinal : 200 ≤ StatusCode.ok.code := by decide
        exact ⟨hfinal, _, oneLine_getContentTypeQuick realPath, rfl⟩

/-- And those that the server makes without one. -/
lemma ownResponse_responseOrDefault (method : RequestType) (cors : Option CorsPolicy) :
    OwnResponse (responseOrDefault none method cors) := by
  unfold responseOrDefault
  split_ifs
  · cases cors with
    | none => exact ownResponse_new
    | some policy =>
      have hfinal : 200 ≤ StatusCode.noContent.code := by decide
      exact ⟨hfinal, "text/plain".toList, by unfold OneLine; decide, rfl⟩
  · exact ownResponse_new

namespace OwnResponse

variable {response : Response}

/-- A response of the server itself can be read. -/
lemma readable (h : OwnResponse response) : Readable response := by
  obtain ⟨hfinal, value, hvalue, hheaders⟩ := h
  refine ⟨hfinal, fun entry hentry => ?_⟩
  rw [hheaders] at hentry
  obtain rfl := List.mem_singleton.1 hentry
  have hname : OneLine "Content-Type".toList ∧ ':' ∉ "Content-Type".toList ∧
      isFramingName "Content-Type".toList = false := by
    unfold OneLine
    decide
  refine ⟨validEntry_iff.2 ⟨hname.1, hvalue⟩, ?_⟩
  unfold smuggles
  rw [declares_of_notMem hname.2.1, hname.2.2]
  rfl

/-- A response of the server itself announces nothing. -/
lemma headersClose_eq (h : OwnResponse response) : headersClose response.headers = false := by
  obtain ⟨-, value, -, hheaders⟩ := h
  have hname : Str.eqIgnoreAsciiCase "Content-Type".toList "connection".toList = false := by
    decide
  rw [hheaders, headersClose_eq_any, List.any_cons, closeEntry_of_ne hname]
  rfl

end OwnResponse

namespace Server

variable {server : Server H U} {env : ℕ → Env H}

/-- The response to a request is that of a handler, or the server makes it itself. -/
lemma response_cases (server : Server H U) (env : Env H) (raw : Bytes) (request : Request) :
    (∃ e ∈ server.routes.entries, ∃ request',
      (server.respond env raw (request.route env server.routes server.filesSources)).response =
        env.handle e.2.handler request') ∨
    OwnResponse
      (server.respond env raw (request.route env server.routes server.filesSources)).response := by
  have hroute := route_eq env request server.routes server.filesSources
  cases hselect : selectEntry server.routes request.method request.path with
  | some e =>
    simp only [hselect] at hroute
    rw [hroute]
    exact .inl ⟨e, (selectEntry_eq_some hselect).1, _, rfl⟩
  | none =>
    simp only [hselect] at hroute
    right
    by_cases hget : request.method = .get
    · rw [if_pos hget] at hroute
      rw [hroute]
      exact ownResponse_serveFile _ _ _
    · rw [if_neg hget] at hroute
      rw [hroute]
      unfold respond
      simp only [hroute]
      exact ownResponse_responseOrDefault _ _

/-- **Every response of such an application can be read**: that of a handler, of the file server,
and the one of a request without a route. -/
theorem readable_respond (hcivil : Civil server env) (i : ℕ) (raw : Bytes) (request : Request) :
    Readable (server.respond (env i) raw
      (request.route (env i) server.routes server.filesSources)).response := by
  rcases server.response_cases (env i) raw request with ⟨e, he, request', hresponse⟩ | hown
  · rw [hresponse]
    exact hcivil.handlers i e he request'
  · exact hown.readable

end Server

/-- A decimal number has no line break. -/
lemma oneLine_toDigits (n : ℕ) : OneLine (Nat.toDigits 10 n) := by
  constructor
  · intro hmem
    have hspace := toDigits_trim n _ hmem
    revert hspace
    decide
  · intro hmem
    have hspace := toDigits_trim n _ hmem
    revert hspace
    decide

/-- The lines of a policy without line breaks can be written, for an origin without one.

**Proof sketch.** The names are fixed. The values are the methods and headers of the policy, the
origin of the request or an asterisk, a constant, or a number. -/
lemma validEntry_corsLines {cors : Option CorsPolicy} {origin : Option Str}
    (hpolicy : ∀ policy, cors = some policy →
      OneLine policy.allowMethods ∧ OneLine policy.allowHeaders)
    (horigin : ∀ value, origin = some value → OneLine value) :
    (corsLines cors origin).all validEntry = true := by
  refine List.all_eq_true.2 fun entry hentry => validEntry_iff.2 ?_
  cases cors with
  | none => cases hentry
  | some policy =>
    obtain ⟨hmethods, hheaders⟩ := hpolicy policy rfl
    have hname : OneLine entry.1 := by
      have hmem := CorsPolicy.name_mem_headerNames hentry
      revert hmem
      generalize entry.1 = name
      unfold CorsPolicy.headerNames OneLine
      revert name
      decide
    refine ⟨hname, ?_⟩
    have hvalue : ∀ value, policy.allowedOrigin origin = some value → OneLine value := by
      intro value hallowed
      by_cases hstar : policy.allowOrigin = "*".toList
      · rw [CorsPolicy.allowedOrigin_of_star hstar, Option.some.injEq] at hallowed
        rw [← hallowed]
        unfold OneLine
        decide
      · exact horigin value ((CorsPolicy.allowedOrigin_eq_some_iff hstar).1 hallowed).1
    unfold corsLines CorsPolicy.headerLines at hentry
    simp only [List.mem_append] at hentry
    rcases hentry with (hentry | hentry) | hentry
    · cases hallowed : policy.allowedOrigin origin with
      | none => simp [hallowed] at hentry
      | some value =>
        simp only [hallowed, List.mem_cons, List.not_mem_nil, or_false] at hentry
        rcases hentry with rfl | rfl | rfl
        · exact hvalue value hallowed
        · exact hmethods
        · exact hheaders
    · split_ifs at hentry
      · obtain rfl := List.mem_singleton.1 hentry
        unfold OneLine
        decide
      · cases hentry
    · cases hage : policy.maxAgeSeconds with
      | none => simp [hage] at hentry
      | some maxAge =>
        simp only [hage, List.mem_singleton] at hentry
        subst hentry
        exact oneLine_toDigits maxAge

/-! ## Conversations -/

/-- The origin of a request as a client writes it has no line break. -/
lemma oneLine_origin (w : WireRequest) (routes : Routes H U) :
    ∀ value, (w.request routes).origin = some value → OneLine value := by
  intro value horigin
  obtain ⟨entry, hentry, rfl⟩ := Option.map_eq_some_iff.1 horigin
  have hmem : entry ∈ w.headers ++ w.body.entries := List.mem_of_find?_eq_some hentry
  have hname := List.find?_some hentry
  rcases List.mem_append.1 hmem with hmem | hmem
  · exact (w.headers_plain entry hmem).value_line
  · -- the framing header is no origin
    cases hbody : w.body with
    | absent =>
      rw [hbody] at hmem
      cases hmem
    | counted body =>
      rw [hbody] at hmem
      obtain rfl := List.mem_singleton.1 hmem
      exact oneLine_toDigits body.length
    | chunked coding =>
      rw [hbody] at hmem
      obtain rfl := List.mem_singleton.1 hmem
      unfold OneLine
      decide

namespace Server

variable (server : Server H U)

/-- What is routed for a request as it was meant. -/
def routedAs (env : Env H) (w : WireRequest) : Routed H U :=
  (w.request server.routes).route env server.routes server.filesSources

/-- The response to a request as it was meant. -/
def responseTo (env : Env H) (w : WireRequest) : Response :=
  (server.respond env w.raw (server.routedAs env w)).response

/-- The answers that a client is to read, each with the method it belongs to: one for each request,
up to the one behind which the connection is closed. -/
def conversation (env : ℕ → Env H) : ℕ → List WireRequest → List (RequestType × ℕ × Bytes)
  | _, [] => []
  | handled, w :: ws =>
    let response := server.responseTo (env handled) w
    (w.method, response.status.code, expectedBody w.method response) ::
      if (server.answerRequest env handled w).continues then conversation env (handled + 1) ws
      else []

variable {server} {env : ℕ → Env H}

/-- Routing leaves the method of a request as it is. -/
lemma method_routedAs (env : Env H) (w : WireRequest) :
    (server.routedAs env w).request.method = w.method := by
  unfold routedAs Request.route invoke
  repeat' split
  all_goals rfl

/-- The origin of what is routed is the one of the request. -/
lemma origin_routedAs (env : Env H) (w : WireRequest) :
    (server.routedAs env w).request.origin = (w.request server.routes).origin := by
  unfold Request.origin routedAs
  rw [headers_route]

/-- The reply to a request, in the turn that answers it. -/
def replyTo (server : Server H U) (env : ℕ → Env H) (handled : ℕ) (w : WireRequest) : Reply :=
  server.reply (server.routedAs (env handled) w) (server.responseTo (env handled) w)
    (server.closes (handled + 1) (server.routedAs (env handled) w)
      (server.responseTo (env handled) w))

/-- A request is answered, and not handed over, when its response is final. -/
lemma answerRequest_eq (handled : ℕ) (w : WireRequest)
    (hfinal : 200 ≤ (server.responseTo (env handled) w).status.code) :
    server.answerRequest env handled w =
      .answered (server.respond (env handled) w.raw (server.routedAs (env handled) w))
        (server.replyTo env handled w) := by
  have hstatus : (server.respond (env handled) w.raw
      (server.routedAs (env handled) w)).response.status ≠ .switchingProtocols := by
    intro hswitching
    unfold responseTo at hfinal
    rw [hswitching] at hfinal
    revert hfinal
    decide
  show server.answer (env handled) (handled + 1) w.raw (server.routedAs (env handled) w) [] = _
  unfold answer
  simp only [if_neg hstatus]
  rfl

/-- The reply to a request can be read, and it declares one length at most. -/
lemma sends_replyTo (hcivil : Civil server env) (handled : ℕ) {w : WireRequest}
    (hconnect : w.method ≠ .connect) :
    Sends w.method (server.replyTo env handled w) ∧
      DeclaresOnce (server.replyTo env handled w) := by
  have hreadable : Readable (server.responseTo (env handled) w) :=
    readable_respond hcivil handled w.raw (w.request server.routes)
  have hvalid : headValid (server.responseTo (env handled) w) server.cors
      (server.routedAs (env handled) w).request.origin = true := by
    unfold headValid
    rw [Bool.and_eq_true, origin_routedAs]
    exact ⟨List.all_eq_true.2 fun entry hentry => (hreadable.headers entry hentry).1,
      validEntry_corsLines hcivil.policy (oneLine_origin w server.routes)⟩
  constructor
  · exact
      { asked := congrArg some (method_routedAs (env handled) w)
        notConnect := hconnect
        final := hreadable.final
        head := by
          rw [responseHead_eq]
          exact (congrArg Option.isSome (if_pos hvalid)).trans rfl }
  · have hnone : (server.responseTo (env handled) w).headers.countP smuggles = 0 := by
      refine List.countP_eq_zero.2 fun entry hentry => ?_
      rw [(hreadable.headers entry hentry).2]
      exact Bool.false_ne_true
    unfold DeclaresOnce
    show (server.responseTo (env handled) w).headers.countP smuggles + _ ≤ 1
    rw [hnone, Nat.zero_add]
    split <;> omega

/-- The replies of a conversation, with their methods. -/
def replies (server : Server H U) (env : ℕ → Env H) :
    ℕ → List WireRequest → List (RequestType × Reply)
  | _, [] => []
  | handled, w :: ws =>
    (w.method, server.replyTo env handled w) ::
      if (server.answerRequest env handled w).continues then server.replies env (handled + 1) ws
      else []

/-- The conversation is what the replies say. -/
lemma conversation_eq (handled : ℕ) (ws : List WireRequest) :
    server.conversation env handled ws = (server.replies env handled ws).map fun p =>
      (p.1, p.2.response.status.code, expectedBody p.1 p.2.response) := by
  induction ws generalizing handled with
  | nil => rfl
  | cons w ws ih =>
    unfold conversation replies
    rw [List.map_cons, ih (handled + 1)]
    cases (server.answerRequest env handled w).continues <;> rfl

/-- What the client receives are the bytes of the replies. -/
lemma received_serveRequests (hcivil : Civil server env) (handled : ℕ) (ws : List WireRequest) :
    received (server.serveRequests env .ended handled ws) =
      (server.replies env handled ws).flatMap fun p => p.2.bytes := by
  induction ws generalizing handled with
  | nil => rfl
  | cons w ws ih =>
    have hfinal : 200 ≤ (server.responseTo (env handled) w).status.code :=
      (readable_respond hcivil handled w.raw (w.request server.routes)).final
    have hreply : (server.answerRequest env handled w).reply? =
        some (server.replyTo env handled w) := by
      rw [answerRequest_eq handled w hfinal]
      rfl
    unfold serveRequests replies received
    simp only [List.flatMap_cons, hreply, Option.map_some, Option.getD_some]
    cases (server.answerRequest env handled w).continues with
    | false => rfl
    | true => exact congrArg _ (ih (handled + 1))

/-- All replies of a conversation can be read, and declare one length at most. -/
lemma sends_replies (hcivil : Civil server env) (handled : ℕ) {ws : List WireRequest}
    (hconnect : ∀ w ∈ ws, w.method ≠ .connect) :
    ∀ p ∈ server.replies env handled ws, Sends p.1 p.2 ∧ DeclaresOnce p.2 := by
  induction ws generalizing handled with
  | nil =>
    unfold replies
    exact List.forall_mem_nil _
  | cons w ws ih =>
    intro p hp
    unfold replies at hp
    rcases List.mem_cons.1 hp with rfl | hp
    · exact sends_replyTo hcivil handled (hconnect w List.mem_cons_self)
    · split at hp
      · exact ih (handled + 1) (fun v hv => hconnect v (List.mem_cons_of_mem _ hv)) p hp
      · cases hp

/-- The conversation answers the requests from the first one on. -/
lemma map_fst_conversation (handled : ℕ) (ws : List WireRequest) :
    (server.conversation env handled ws).map Prod.fst <+: ws.map WireRequest.method := by
  induction ws generalizing handled with
  | nil => exact List.prefix_refl []
  | cons w ws ih =>
    unfold conversation
    rw [List.map_cons, List.map_cons]
    refine (List.prefix_cons_inj w.method).2 ?_
    split
    · exact ih (handled + 1)
    · exact List.nil_prefix

/-! ### Connections that nobody closes -/

/-- Nobody asks to close the connection. -/
structure Persists (server : Server H U) (env : ℕ → Env H) (ws : List WireRequest) : Prop where
  requests : ∀ w ∈ ws, headersClose w.headers = false
  handlers : ∀ i, ∀ e ∈ server.routes.entries, ∀ request,
    headersClose ((env i).handle e.2.handler request).headers = false

/-- The reply to a request leaves the connection open, as long as more may come. -/
lemma continues_answerRequest (hcivil : Civil server env) {ws : List WireRequest}
    (hpersists : Persists server env ws) (handled : ℕ) {w : WireRequest} (hw : w ∈ ws)
    (hmore : handled + 1 < server.limits.maxRequests) (hconnect : w.method ≠ .connect) :
    (server.answerRequest env handled w).continues = true := by
  have hfinal : 200 ≤ (server.responseTo (env handled) w).status.code :=
    (readable_respond hcivil handled w.raw (w.request server.routes)).final
  have hvalid := (sends_replyTo hcivil handled hconnect).1.valid
  have hrequest : (server.routedAs (env handled) w).request.wantsClose = false := by
    have hframing : w.body.entries.any closeEntry = false := by
      refine List.any_eq_false.2 fun entry hentry => ?_
      have hname : Str.eqIgnoreAsciiCase entry.1 "connection".toList = false := by
        cases hbody : w.body with
        | absent =>
          rw [hbody] at hentry
          cases hentry
        | counted body =>
          rw [hbody] at hentry
          obtain rfl := List.mem_singleton.1 hentry
          show Str.eqIgnoreAsciiCase "Content-Length".toList _ = false
          decide
        | chunked coding =>
          rw [hbody] at hentry
          obtain rfl := List.mem_singleton.1 hentry
          decide
      rw [closeEntry_of_ne hname]
      exact Bool.false_ne_true
    have hheaders := hpersists.requests w hw
    unfold Request.wantsClose
    rw [headersClose_eq_any] at hheaders ⊢
    have hrouted : (server.routedAs (env handled) w).request.headers =
        w.headers ++ w.body.entries :=
      headers_route (env handled) (w.request server.routes) server.routes server.filesSources
    rw [hrouted, List.any_append, hheaders, hframing]
    rfl
  have hresponse : headersClose (server.responseTo (env handled) w).headers = false := by
    rcases server.response_cases (env handled) w.raw (w.request server.routes) with
      ⟨e, he, request', hresponse⟩ | hown
    · exact (congrArg (fun response : Response => headersClose response.headers) hresponse).trans
        (hpersists.handlers handled e he request')
    · exact hown.headersClose_eq
  have hclose : (server.replyTo env handled w).close = false := by
    show server.closes _ _ _ = false
    unfold closes
    rw [hrequest, hresponse, decide_eq_false (Nat.not_le.2 hmore)]
    rfl
  rw [answerRequest_eq handled w hfinal]
  simp only [Turn.continues, Reply.send_snd, hvalid, hclose]
  rfl

/-- When nobody asks to close the connection, all requests are answered, as many as there may be. -/
lemma map_fst_conversation_of_persists (hcivil : Civil server env) (handled : ℕ)
    {ws : List WireRequest} (hpersists : Persists server env ws)
    (hconnect : ∀ w ∈ ws, w.method ≠ .connect)
    (hmax : handled + ws.length ≤ server.limits.maxRequests) :
    (server.conversation env handled ws).map Prod.fst = ws.map WireRequest.method := by
  induction ws generalizing handled with
  | nil => rfl
  | cons w ws ih =>
    unfold conversation
    rw [List.map_cons, List.map_cons]
    rw [List.length_cons] at hmax
    cases ws with
    | nil =>
      split <;> rfl
    | cons v ws =>
      rw [List.length_cons] at hmax
      rw [if_pos (continues_answerRequest hcivil hpersists handled List.mem_cons_self (by omega)
        (hconnect w List.mem_cons_self))]
      have hlater : Persists server env (v :: ws) :=
        ⟨fun u hu => hpersists.requests u (List.mem_cons_of_mem _ hu), hpersists.handlers⟩
      rw [ih (handled + 1) hlater (fun u hu => hconnect u (List.mem_cons_of_mem _ hu))
        (by rw [List.length_cons]; omega)]

end Server

/-! ## Runs -/

/-- **The client reads the conversation, and nothing else.** The requests come in whatever pieces,
and no deadline expires. The application gives responses that can be read. Then what the client
receives on the connection are the answers to its requests from the first one on, one response for
each, in order, each with the status and the body of the response to that request; nothing is left
over. When nobody asks to close the connection, and there are no more requests than it may carry,
every request is answered.

**Proof sketch.** The turns of the run are those of the requests (`Server.run_eq_serve`,
`Server.serve_wire`), so what the client receives are the bytes of the replies, each of which
declares one length. -/
theorem run_dialogue {server : Server H U} (hidle : 0 < server.limits.idleTimeout)
    (hkeep : 0 < server.limits.keepAliveTimeout) {env : ℕ → Env H} (hcivil : Civil server env)
    {ws : List WireRequest} (hwithin : ∀ w ∈ ws, w.Within server.limits)
    (hconnect : ∀ w ∈ ws, w.method ≠ .connect)
    (hword : FitsWord server.limits (ws.flatMap WireRequest.wire)) {n : ℕ} (hn : ws.length < n)
    {pieces : List Bytes} {reads : List Read} (hcut : Cut pieces n reads)
    (hs : pieces.flatten = ws.flatMap WireRequest.wire) {now : ℕ}
    (htime : Punctual (server.run env n (.start now reads))) :
    (∀ answers rest,
      ReadsInOrder ((server.conversation env 0 ws).map Prod.fst)
          (received (settledTurns (server.run env n (.start now reads)))) answers rest ↔
        answers = (server.conversation env 0 ws).map Prod.snd ∧ rest = []) ∧
    (server.conversation env 0 ws).map Prod.fst <+: ws.map WireRequest.method ∧
    (Server.Persists server env ws → ws.length ≤ server.limits.maxRequests →
      (server.conversation env 0 ws).map Prod.fst = ws.map WireRequest.method) := by
  have hturns : settledTurns (server.run env n (.start now reads)) =
      server.serveRequests env .ended 0 ws := by
    have hserve : server.serve env n 0 (ws.flatMap WireRequest.wire ++ []) =
        server.serveRequests env .ended 0 ws := server.serve_wire env 0 hwithin hn rfl fun _ => rfl
    rw [List.append_nil] at hserve
    rw [(settledTurns_run hidle hkeep env hword hcut hs htime).1, hserve]
  refine ⟨fun answers rest => ?_, Server.map_fst_conversation 0 ws, fun hpersists hmax => ?_⟩
  · rw [hturns, Server.received_serveRequests hcivil, Server.conversation_eq, List.map_map,
      List.map_map, ← List.append_nil (List.flatMap _ _)]
    exact readsInOrder_iff (Server.sends_replies hcivil 0 hconnect) []
  · exact Server.map_fst_conversation_of_persists hcivil 0 hpersists hconnect
      (by rw [Nat.zero_add]; exact hmax)

/-- A client with two requests reads two responses. -/
theorem run_dialogue_two :
    ReadsInOrder
      (((rootServer none).conversation (fun _ => constantEnv Response.new) 0 twoRequests).map
        Prod.fst)
      (received (settledTurns (runTwoReads (twoRequests.flatMap WireRequest.wire) 0 5)))
      (((rootServer none).conversation (fun _ => constantEnv Response.new) 0 twoRequests).map
        Prod.snd) [] := by
  have hcivil : Civil (rootServer none) fun _ => constantEnv Response.new :=
    ⟨fun _ _ _ _ => ownResponse_new.readable, fun _ hcors => nomatch hcors⟩
  exact ((run_dialogue (by decide) (by decide) hcivil twoRequests_within (by decide)
    (.inl (by decide)) (by decide) (cut_twoRequests (by decide) (by decide)) (flatten_twoReads _ _)
    punctual_twoRequests).1 _ _).2 ⟨rfl, rfl⟩

end Httpageboy
