import Httpageboy.Routing.Patterns
import Httpageboy.Runtime.Handover

set_option relaxedAutoImplicit false
set_option autoImplicit false

/-!
# Dispatch

A framed request is routed inside the parser, and once more in the connection loop when the
parser came back without a response. `respond_cases` says what the two passes come to together.

## Main definitions

* `Httpageboy.Requests` — the request line of an accepted request.
* `Httpageboy.Unserved` — no entry of the table serves a framed request.

## Main results

* `Httpageboy.dispatches_once` — the two passes invoke one handler exactly when an entry of the
  table serves the request, and none otherwise.
* `Httpageboy.Server.run_upgrades` — a connection is handed over to the upgrade of the entry whose
  handler accepted it.
-/

namespace Httpageboy

open Search

variable {H U : Type}

/-! ## Accepted requests -/

/-- The head of a framed request starts with an acceptable request line for this method and
target. -/
def Requests (raw : Bytes) (method : RequestType) (target : Str) : Prop :=
  ∃ separator head requestLine, position crlfcrlf raw = some separator ∧
    Utf8.decode (raw.take separator) = some head ∧
    (splitPair '\r' '\n' head).head? = some requestLine ∧
    Str.splitWhitespace requestLine = [method.name, target, httpVersion] ∧
    (Utf8.encode target).length ≤ maxUri

/-- The method tokens are the names of the methods. -/
lemma mem_allowed_iff {token : Str} :
    token ∈ allowed ↔ ∃ method : RequestType, token = method.name := by
  unfold allowed
  rw [List.mem_map]
  constructor
  · rintro ⟨method, -, rfl⟩
    exact ⟨method, rfl⟩
  · rintro ⟨method, rfl⟩
    exact ⟨method, RequestType.mem_all method, rfl⟩

/-- The method and the target of an accepted request are those of its request line. -/
lemma requests_of_ok {raw : Bytes} {routes : Routes H U} {request : Request}
    (h : parseRawOnly raw routes = .ok request) :
    ∃ target, Requests raw request.method target ∧ request.path = targetPath target ∧
      request.params = targetParams request.method target routes := by
  unfold parseRawOnly at h
  cases hposition : position crlfcrlf raw with
  | none => simp [hposition] at h
  | some separator =>
    cases hhead : Utf8.decode (raw.take separator) with
    | none => simp [hposition, hhead] at h
    | some head =>
      simp only [hposition, hhead] at h
      obtain ⟨requestLine, token, target, version, hlines, hwords, htoken, rfl, hlength, rfl⟩ :=
        parseHead_eq_ok_iff.1 h
      obtain ⟨method, rfl⟩ := mem_allowed_iff.1 htoken
      refine ⟨target, ⟨separator, head, requestLine, hposition, hhead, ?_, ?_, hlength⟩, rfl, rfl⟩
      · rw [hlines]
        rfl
      · show _ = [(RequestType.fromStr method.name).name, target, httpVersion]
        rw [RequestType.fromStr_name]
        exact hwords

/-- The request of an acceptable request line depends on the table in its parameters only. -/
lemma Requests.parsed {raw : Bytes} {method : RequestType} {target : Str}
    (h : Requests raw method target) :
    ∃ headers body, ∀ routes : Routes H U, parseRawOnly raw routes =
      .ok ⟨method, targetPath target, httpVersion, headers, body,
        targetParams method target routes⟩ := by
  obtain ⟨separator, head, requestLine, hposition, hhead, hfirst, hwords, hlength⟩ := h
  refine ⟨parseHeaders (headerLines head), raw.drop (separator + 4), fun routes => ?_⟩
  unfold parseRawOnly
  simp only [hposition, hhead]
  refine parseHead_eq_ok_iff.2 ⟨requestLine, method.name, target, httpVersion, ?_, hwords,
    mem_allowed_iff.2 ⟨method, rfl⟩, rfl, hlength, ?_⟩
  · unfold headerLines
    cases hlines : splitPair '\r' '\n' head with
    | nil =>
      rw [hlines] at hfirst
      cases hfirst
    | cons line lines =>
      rw [hlines] at hfirst
      obtain rfl := Option.some.inj hfirst
      rfl
  · unfold buildRequest
    rw [RequestType.fromStr_name]

/-- A rejection is no `101`. -/
lemma status_of_rejected {raw : Bytes} {routes : Routes H U} {response : Response}
    (h : parseRawOnly raw routes = .error response) : response.status ≠ .switchingProtocols := by
  have hbad : ∀ status : StatusCode, status ≠ .switchingProtocols →
      (errorResponse status).status ≠ .switchingProtocols := fun _ hne => hne
  unfold parseRawOnly at h
  cases hposition : position crlfcrlf raw with
  | none =>
    simp only [hposition, Except.error.injEq] at h
    exact h ▸ hbad .badRequest (by decide)
  | some separator =>
    cases hhead : Utf8.decode (raw.take separator) with
    | none =>
      simp only [hposition, hhead, Except.error.injEq] at h
      exact h ▸ hbad .badRequest (by decide)
    | some head =>
      simp only [hposition, hhead] at h
      unfold parseHead at h
      split at h
      · exact Except.error.inj h ▸ hbad .badRequest (by decide)
      · split at h
        · split_ifs at h
          · exact Except.error.inj h ▸ hbad .httpVersionNotSupported (by decide)
          · exact Except.error.inj h ▸ hbad .uriTooLong (by decide)
          · exact Except.error.inj h ▸ hbad .methodNotAllowed (by decide)
        · exact Except.error.inj h ▸ hbad .badRequest (by decide)

/-- The file server answers `200` or `404`. -/
lemma status_serveFile (fs : FileSystem) (path : Str) (bases : List Str) :
    (serveFile fs path bases).status = .ok ∨ (serveFile fs path bases).status = .notFound := by
  induction bases with
  | nil => exact .inr rfl
  | cons base bases ih =>
    rw [serveFile]
    cases securePath fs (Utf8.encode base) path with
    | none => exact ih
    | some realPath =>
      simp only
      cases fs.read realPath with
      | none => exact ih
      | some data => exact .inl rfl

/-- The default answer is `404` or `204`. -/
lemma status_responseOrDefault (method : RequestType) (cors : Option CorsPolicy) :
    (responseOrDefault none method cors).status = .notFound ∨
      (responseOrDefault none method cors).status = .noContent := by
  unfold responseOrDefault
  by_cases hoptions : method = .options
  · simp only [if_pos hoptions]
    cases cors with
    | none => exact .inl rfl
    | some policy => exact .inr rfl
  · simp only [if_neg hoptions]
    exact .inl rfl

/-! ## The two passes -/

/-- **What the two passes come to**, for any environment of the second one: a rejection; the
handler of the selected entry, invoked in the first pass; or, when nothing is selected, a
response that no handler made.

**Proof sketch.** The first pass returns without a response only when nothing is selected, and
leaves the request as it was; the second pass then selects nothing either. -/
lemma Server.respond_cases (server : Server H U) (env env' : Env H) (raw : Bytes) :
    (∃ response, parseRawOnly raw server.routes = .error response ∧
      (parseRaw env raw server.routes server.filesSources).request = Request.default ∧
      server.respond env' raw (parseRaw env raw server.routes server.filesSources) =
        ⟨raw, Request.default, response, []⟩) ∨
    (∃ request e, parseRawOnly raw server.routes = .ok request ∧
      selectEntry server.routes request.method request.path = some e ∧
      (parseRaw env raw server.routes server.filesSources).request =
        routedRequest server.routes request e ∧
      server.respond env' raw (parseRaw env raw server.routes server.filesSources) =
        ⟨raw, routedRequest server.routes request e,
          env.handle e.2.handler (routedRequest server.routes request e),
          [⟨e.1, e.2, routedRequest server.routes request e⟩]⟩) ∨
    ∃ request response, parseRawOnly raw server.routes = .ok request ∧
      selectEntry server.routes request.method request.path = none ∧
      (parseRaw env raw server.routes server.filesSources).request = request ∧
      response.status ≠ .switchingProtocols ∧
      server.respond env' raw (parseRaw env raw server.routes server.filesSources) =
        ⟨raw, request, response, []⟩ := by
  unfold parseRaw
  cases hparse : parseRawOnly raw server.routes with
  | error response => exact .inl ⟨response, rfl, rfl, rfl⟩
  | ok request =>
    right
    simp only
    have hroute := route_eq env request server.routes server.filesSources
    have hagain := route_eq env' request server.routes server.filesSources
    cases hselect : selectEntry server.routes request.method request.path with
    | some e =>
      simp only [hselect] at hroute
      rw [hroute]
      exact .inl ⟨request, e, rfl, hselect, rfl, rfl⟩
    | none =>
      simp only [hselect] at hroute hagain
      rw [hroute]
      by_cases hget : request.method = .get
      · rw [if_pos hget]
        refine .inr ⟨request, serveFile env.fs request.path server.filesSources, rfl, hselect, rfl,
          ?_, rfl⟩
        rcases status_serveFile env.fs request.path server.filesSources with hstatus | hstatus <;>
          simp [hstatus]
      · rw [if_neg hget] at hagain ⊢
        refine .inr ⟨request, responseOrDefault none request.method server.cors, rfl, hselect, rfl,
          ?_, ?_⟩
        · rcases status_responseOrDefault request.method server.cors with hstatus | hstatus <;>
            simp [hstatus]
        · unfold Server.respond
          simp only [hagain, List.append_nil]

/-- **A framed request is dispatched exactly once.** The two passes together invoke at most one
handler, all of it in the first pass; they invoke one exactly when the request is accepted and an
entry of the table serves it; that entry is the literal route when there is one, its handler
makes the response, and it is given the request that `parse_raw_only` built, up to the order of
the parameters. Routing never changes that request otherwise.

**Proof sketch.** The request is rejected, or an entry of the table is selected for it, or none is
(`Server.respond_cases`). What is selected serves the request, and none is selected only if none
serves it; a response of the first pass keeps the second one from routing. -/
theorem dispatches_once (server : Server H U) (env env' : Env H) (raw : Bytes) :
    (server.respond env' raw (parseRaw env raw server.routes server.filesSources)).invoked =
      (parseRaw env raw server.routes server.filesSources).invoked ∧
    (server.respond env' raw
      (parseRaw env raw server.routes server.filesSources)).invoked.length ≤ 1 ∧
    ((server.respond env' raw
        (parseRaw env raw server.routes server.filesSources)).invoked ≠ [] ↔
      ∃ request, parseRawOnly raw server.routes = .ok request ∧
        ∃ e ∈ server.routes.entries, Serves request.method request.path e) ∧
    (∀ invocation ∈ (server.respond env' raw
        (parseRaw env raw server.routes server.filesSources)).invoked,
      ∃ request, parseRawOnly raw server.routes = .ok request ∧
        ⟨invocation.key, invocation.entry⟩ ∈ server.routes.entries ∧
        Serves request.method request.path ⟨invocation.key, invocation.entry⟩ ∧
        (invocation.key.2 ≠ request.path →
          server.routes.lookup (request.method, request.path) = none) ∧
        request.Same invocation.request ∧
        (server.respond env' raw
            (parseRaw env raw server.routes server.filesSources)).response =
          env.handle invocation.entry.handler invocation.request) ∧
    ∀ request, parseRawOnly raw server.routes = .ok request →
      request.Same (parseRaw env raw server.routes server.filesSources).request ∧
      request.Same (server.respond env' raw
        (parseRaw env raw server.routes server.filesSources)).request := by
  have hfirst : ∀ routed : Routed H U, routed.response ≠ none →
      (server.respond env' raw routed).invoked = routed.invoked := by
    intro routed hsome
    unfold Server.respond
    cases hresponse : routed.response with
    | none => exact absurd hresponse hsome
    | some response => rfl
  rcases server.respond_cases env env' raw with
    ⟨response, hparse, hrequest, hrespond⟩ | ⟨request, e, hparse, hselect, hrequest, hrespond⟩ |
      ⟨request, response, hparse, hselect, hrequest, -, hrespond⟩
  · rw [hrespond, hrequest]
    refine ⟨?_, by simp, ?_, by simp, ?_⟩
    · rw [parseRaw, hparse]
    · simp [hparse]
    · intro request hok
      rw [hparse] at hok
      cases hok
  · obtain ⟨hmem, hserves, hliteral⟩ := selectEntry_eq_some hselect
    obtain ⟨target, -, hpath, hparams⟩ := requests_of_ok hparse
    have hsame := routedRequest_same hpath hparams hselect
    rw [hrespond, hrequest]
    refine ⟨?_, by simp, ?_, ?_, ?_⟩
    · rw [parseRaw, hparse]
      simp only [route_eq, hselect]
      rfl
    · simp only [ne_eq, List.cons_ne_nil, not_false_eq_true, true_iff]
      exact ⟨request, hparse, e, hmem, hserves⟩
    · intro invocation hinvocation
      obtain rfl := List.mem_singleton.1 hinvocation
      exact ⟨request, hparse, hmem, hserves, hliteral, hsame, rfl⟩
    · intro request' hok
      obtain rfl : request = request' := Except.ok.inj (hparse.symm.trans hok)
      exact ⟨hsame, hsame⟩
  · rw [hrespond, hrequest]
    refine ⟨?_, by simp, ?_, by simp, ?_⟩
    · rw [parseRaw, hparse]
      simp only [route_eq, hselect]
    · have hnone := selectEntry_eq_none_iff.1 hselect
      simp only [ne_eq, not_true_eq_false, false_iff]
      rintro ⟨request', hok, e, hmem, hserves⟩
      obtain rfl : request = request' := Except.ok.inj (hparse.symm.trans hok)
      exact hnone e hmem hserves
    · intro request' hok
      obtain rfl : request = request' := Except.ok.inj (hparse.symm.trans hok)
      exact ⟨.refl request, .refl request⟩

/-! ## Handing a connection over -/

/-- No entry of the table serves a framed request: it is rejected, answered by the file server
or left unrouted. -/
def Unserved (routes : Routes H U) (raw : Bytes) : Prop :=
  ∀ request, parseRawOnly raw routes = .ok request →
    ∀ e ∈ routes.entries, ¬ Serves request.method request.path e

/-- A turn that hands the connection over has a response `101` and the upgrade that
`upgrade_handler` finds for the routed request. -/
lemma Server.answer_eq_upgraded {server : Server H U} {env : Env H} {handled : ℕ} {raw : Bytes}
    {routed : Routed H U} {stream stream' : List Read} {exchange : Exchange H U} {reply : Reply}
    {upgrade : U} (h : server.answer env handled raw routed stream =
      .upgraded exchange reply upgrade stream') :
    exchange = server.respond env raw routed ∧ reply.response = exchange.response ∧
      exchange.response.status = .switchingProtocols ∧
      routed.request.upgradeHandler server.routes = some upgrade := by
  unfold Server.answer at h
  by_cases hstatus :
      (server.respond env raw routed).response.status = .switchingProtocols
  · simp only [if_pos hstatus] at h
    cases hupgrade : routed.request.upgradeHandler server.routes with
    | none => simp [hupgrade] at h
    | some found =>
      simp only [hupgrade] at h
      cases hsend : (server.reply routed (server.respond env raw routed).response false).send.2 with
      | false => simp [hsend] at h
      | true =>
        simp only [hsend, if_true, Turn.upgraded.injEq] at h
        obtain ⟨rfl, rfl, rfl, -⟩ := h
        exact ⟨rfl, rfl, hstatus, rfl⟩
  · simp [if_neg hstatus] at h

/-- **A connection is handed over to the upgrade of the route that accepted it.** In every run,
for every behaviour of the client and of the handlers, a connection that is handed over goes to
the upgrade of an entry of the table that serves the request; the handler of that same entry was
the one invoked, and made the response `101`. A request that no entry serves is not handed over.

**Proof sketch.** The response of a turn that hands the connection over has the status `101`, so
it is neither a rejection, nor a file, nor a default: `respond_cases` leaves the handler of the
selected entry. Routing leaves the method and the path of the request alone, so
`upgrade_handler` selects the same entry on the routed request. -/
theorem Server.run_upgrades {server : Server H U} {env : ℕ → Env H} {n now : ℕ}
    {reads : List Read} {before after : List (Turn H U × Conn)} {turn : Turn H U} {conn : Conn}
    (hturns : (server.run env n (.start now reads)).turns = before ++ (turn, conn) :: after) :
    (∀ exchange reply upgrade stream, turn = .upgraded exchange reply upgrade stream →
      ∃ request key entry seen, parseRawOnly exchange.raw server.routes = .ok request ∧
        ⟨key, entry⟩ ∈ server.routes.entries ∧
        Serves request.method request.path ⟨key, entry⟩ ∧
        exchange.invoked = [⟨key, entry, seen⟩] ∧
        exchange.response = (env before.length).handle entry.handler seen ∧
        exchange.response.status = .switchingProtocols ∧
        reply.response = exchange.response ∧ entry.upgrade = some upgrade) ∧
    ∀ raw, turn.raw? = some raw → Unserved server.routes raw → turn.handover? = none := by
  have hupgraded : ∀ exchange reply upgrade stream,
      turn = .upgraded exchange reply upgrade stream →
      ∃ request key entry seen, parseRawOnly exchange.raw server.routes = .ok request ∧
        ⟨key, entry⟩ ∈ server.routes.entries ∧
        Serves request.method request.path ⟨key, entry⟩ ∧
        exchange.invoked = [⟨key, entry, seen⟩] ∧
        exchange.response = (env before.length).handle entry.handler seen ∧
        exchange.response.status = .switchingProtocols ∧
        reply.response = exchange.response ∧ entry.upgrade = some upgrade := by
    rintro exchange reply upgrade stream rfl
    obtain ⟨conn₀, hhandled, hturn⟩ := Server.run_turn hturns
    rcases Server.turn_cases hturn with ⟨h, -⟩ | ⟨response, h, -⟩ | ⟨raw, -, -, h⟩
    · cases h
    · cases h
    obtain ⟨rfl, hreply, hstatus, hhandler⟩ := Server.answer_eq_upgraded h.symm
    rw [hhandled] at hstatus hreply hhandler ⊢
    rcases server.respond_cases (env before.length) (env before.length) raw with
      ⟨response, hparse, -, hrespond⟩ | ⟨request, e, hparse, hselect, hrequest, hrespond⟩ |
        ⟨request, response, -, -, -, hother, hrespond⟩
    · rw [hrespond] at hstatus
      exact absurd hstatus (status_of_rejected hparse)
    · obtain ⟨hmem, hserves, -⟩ := selectEntry_eq_some hselect
      obtain ⟨target, -, hpath, hparams⟩ := requests_of_ok hparse
      have hsame := routedRequest_same hpath hparams hselect
      rw [hrequest, upgradeHandler_eq, hsame.method, hsame.path, hselect, Option.bind_some]
        at hhandler
      rw [hrespond] at hstatus hreply ⊢
      exact ⟨request, e.1, e.2, _, hparse, hmem, hserves, rfl, rfl, hstatus, hreply, hhandler⟩
    · rw [hrespond] at hstatus
      exact absurd hstatus hother
  refine ⟨hupgraded, fun raw hraw hnone => ?_⟩
  cases turn with
  | upgraded exchange reply upgrade stream =>
    obtain ⟨request, key, entry, -, hparse, hmem, hserves, -⟩ :=
      hupgraded exchange reply upgrade stream rfl
    obtain rfl : exchange.raw = raw := Option.some.inj hraw
    exact absurd hserves (hnone request hparse _ hmem)
  | _ => rfl

/-- A run with an upgrade: the handler that is invoked is the one that takes the connection over. -/
theorem Server.run_upgrades_hello :
    ∃ exchange reply upgrade stream conn,
      (upgradeRun [⟨0, .ok shortRequest⟩, ⟨0, .ok hello⟩]).turns =
        [(.upgraded exchange reply upgrade stream, conn)] ∧
      ∃ request key entry seen,
        parseRawOnly exchange.raw (rootServer (some ())).routes = .ok request ∧
        ⟨key, entry⟩ ∈ (rootServer (some ())).routes.entries ∧
        Serves request.method request.path ⟨key, entry⟩ ∧
        exchange.invoked = [⟨key, entry, seen⟩] ∧
        exchange.response = (constantEnv switching).handle entry.handler seen ∧
        exchange.response.status = .switchingProtocols ∧
        reply.response = exchange.response ∧ entry.upgrade = some upgrade := by
  obtain ⟨exchange, reply, upgrade, stream, conn, hturns, -⟩ :=
    Turn.exists_handover upgradeRun_late
  have hupgrades := Server.run_upgrades
    (hturns.trans (List.nil_append [(Turn.upgraded exchange reply upgrade stream, conn)]).symm)
  exact ⟨exchange, reply, upgrade, stream, conn, hturns,
    hupgrades.1 exchange reply upgrade stream rfl⟩

end Httpageboy
