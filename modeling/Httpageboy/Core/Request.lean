import Httpageboy.Core.Framing
import Httpageboy.Core.Utils

set_option relaxedAutoImplicit false
set_option autoImplicit false

/-!
# Parsing and routing one request

`parse_raw_only`, the two routing functions and the accessors of `request.rs`. The behaviour of
the handlers and the file system are parameters, collected in `Env`. Invoking a handler is
recorded together with the table entry it belongs to. The synchronous and the asynchronous
routing functions differ only in how they wait for a handler, so one definition models both.

## Main definitions

* `Httpageboy.parseRawOnly` — a framed request, or the response that rejects it.
* `Httpageboy.Request.route`, `Httpageboy.parseRaw` — dispatch to a handler or a file.
* `Httpageboy.Request.wantsClose`, `Httpageboy.Request.upgradeHandler`.
-/

namespace Httpageboy

open Search

variable {H U : Type}

/-! ## Path parameters -/

/-- `starts_with('{') && ends_with('}')`. -/
def isPlaceholder (part : Str) : Bool := part.head? = some '{' && part.getLast? = some '}'

/-- `trim_matches` of braces. -/
def trimBraces (part : Str) : Str :=
  (part.dropWhile fun c => c = '{' || c = '}').rdropWhile fun c => c = '{' || c = '}'

/-- The loop of `extract_params` over the segments of the route and of the path; `none` is the
early return of the empty map. -/
def extractLoop : List (Str × Str) → HashMap Str Str → Option (HashMap Str Str)
  | [], sorted => some sorted
  | (part, pathPart) :: parts, sorted =>
    if isPlaceholder part then extractLoop parts (sorted.insert (trimBraces part) pathPart)
    else if part ≠ pathPart then none
    else extractLoop parts sorted

/-- `extract_params`: the bindings of the placeholders, empty when the route does not match. -/
def extractParams (route path : Str) : HashMap Str Str :=
  let routeParts := route.splitOn '/'
  let pathParts := path.splitOn '/'
  if routeParts.length ≠ pathParts.length then ∅
  else (extractLoop (routeParts.zip pathParts) ∅).getD ∅

/-- Whether a pattern matches: `!extract_params(..).is_empty()`. -/
def patternMatches (route path : Str) : Bool := (extractParams route path).entries ≠ []

/-! ## `parse_raw_only` -/

/-- The methods `parse_raw_only` allows. -/
def allowed : List Str := RequestType.all.map RequestType.name

/-- `"HTTP/1.1"`. -/
def httpVersion : Str := "HTTP/1.1".toList

/-- `MAX_URI`. -/
def maxUri : ℕ := 2000

/-- The header entries of the lines behind the request line: lines without a colon are
dropped, values lose their leading white space. -/
def parseHeaders (lines : List Str) : List (Str × Str) :=
  lines.filterMap fun line => (Str.splitOnce ':' line).map fun p => (p.1, Str.trimStart p.2)

/-- The bindings of the first pattern of this method, in iteration order, that matches. -/
def firstParams (method : RequestType) (path : Str) :
    List (RequestType × Str) → HashMap Str Str
  | [] => ∅
  | (m, routePath) :: keys =>
    if m = method ∧ patternMatches routePath path then extractParams routePath path
    else firstParams method path keys

/-- The parameters of the query string, inserted pair by pair. -/
def insertQuery (query : Str) (params : HashMap Str Str) : HashMap Str Str :=
  (query.splitOn '&').foldl
    (fun params pair =>
      match Str.splitOnce '=' pair with
      | some (key, value) => params.insert key value
      | none => params)
    params

/-- The path of a request target: what is in front of the first question mark. -/
def targetPath (target : Str) : Str := ((Str.splitOnce '?' target).map Prod.fst).getD target

/-- The parameters of a request target: those of the path, then those of the query. -/
def targetParams (method : RequestType) (target : Str) (routes : Routes H U) : HashMap Str Str :=
  let params := firstParams method (targetPath target) routes.keys
  match Str.splitOnce '?' target with
  | some (_, query) => insertQuery query params
  | none => params

/-- The request of an accepted request line. -/
def buildRequest (method : Str) (target : Str) (version : Str) (lines : List Str) (body : Bytes)
    (routes : Routes H U) : Request where
  method := RequestType.fromStr method
  path := targetPath target
  version := version
  headers := parseHeaders lines
  body := body
  params := targetParams (RequestType.fromStr method) target routes

/-- `parse_raw_only` behind the separator: the request line, its checks in the order of the
source, then the request. -/
def parseHead (head : Str) (body : Bytes) (routes : Routes H U) : Except Response Request :=
  match splitPair '\r' '\n' head with
  | [] => .error (errorResponse .badRequest)
  | requestLine :: lines =>
    match Str.splitWhitespace requestLine with
    | [method, path, version] =>
      if method ∉ allowed then .error (errorResponse .methodNotAllowed)
      else if version ≠ httpVersion then .error (errorResponse .httpVersionNotSupported)
      else if (Utf8.encode path).length > maxUri then .error (errorResponse .uriTooLong)
      else .ok (buildRequest method path version lines body routes)
    | _ => .error (errorResponse .badRequest)

/-- `parse_raw_only`. -/
def parseRawOnly (raw : Bytes) (routes : Routes H U) : Except Response Request :=
  match position crlfcrlf raw with
  | none => .error (errorResponse .badRequest)
  | some separator =>
    match Utf8.decode (raw.take separator) with
    | none => .error (errorResponse .badRequest)
    | some head => parseHead head (raw.drop (separator + 4)) routes

/-! ## Accessors -/

namespace Request

/-- `origin`. -/
def origin (request : Request) : Option Str :=
  (request.headers.find? fun entry => Str.eqIgnoreAsciiCase entry.1 "origin".toList).map Prod.snd

end Request

/-- Whether header entries hold a `Connection` field with a `close` token: the search of
`wants_close`, which the connection loop repeats on the headers of the response. -/
def headersClose (headers : List (Str × Str)) : Bool :=
  ((headers.filter fun entry => Str.eqIgnoreAsciiCase entry.1 "connection".toList).flatMap
    fun entry => entry.2.splitOn ',').any
      fun token => Str.eqIgnoreAsciiCase (Str.trim token) "close".toList

namespace Request

/-- `wants_close`. -/
def wantsClose (request : Request) : Bool := headersClose request.headers

/-- `upgrade_handler`: the upgrade of the literal route, else of the first pattern that
matches. -/
def upgradeHandler (request : Request) (routes : Routes H U) : Option U :=
  match routes.lookup (request.method, request.path) with
  | some entry => entry.upgrade
  | none =>
    match routes.entries.find? fun e =>
      e.1.1 = request.method ∧ patternMatches e.1.2 request.path with
    | some e => e.2.upgrade
    | none => none

end Request

/-! ## Routing -/

/-- What a request meets outside the server: the behaviour of the handlers and the files. -/
structure Env (H : Type) where
  handle : H → Request → Response
  fs : FileSystem

/-- The table entry whose handler was invoked, and the request it was given. -/
structure Invocation (H U : Type) where
  key : RequestType × Str
  entry : RouteEntry H U
  request : Request

/-- The outcome of routing: the request as routing leaves it, the response, if any, and the
handlers invoked on the way. -/
structure Routed (H U : Type) where
  request : Request
  response : Option Response
  invoked : List (Invocation H U)

/-- `serve_file`: the first base directory that has the file answers. -/
def serveFile (fs : FileSystem) (path : Str) : List Str → Response
  | [] => Response.new
  | base :: bases =>
    match securePath fs (Utf8.encode base) path with
    | none => serveFile fs path bases
    | some realPath =>
      match fs.read realPath with
      | none => serveFile fs path bases
      | some data =>
        { status := .ok
          headers := [("Content-Type".toList, getContentTypeQuick realPath)]
          body := data }

/-- Invoke the handler of an entry. -/
def invoke (env : Env H) (key : RequestType × Str) (entry : RouteEntry H U) (request : Request) :
    Routed H U where
  request := request
  response := some (env.handle entry.handler request)
  invoked := [⟨key, entry, request⟩]

/-- `params` of a request that a pattern route answers: the path parameters, overridden by the
parameters the request already has. -/
def mergeParams (pathParams params : HashMap Str Str) : HashMap Str Str :=
  params.entries.foldl (fun merged e => merged.insert e.1 e.2) pathParams

/-- `route_sync` and `route_async`: the literal route, the first pattern that matches, or, for
`GET`, a file. -/
def Request.route (env : Env H) (request : Request) (routes : Routes H U) (fileBases : List Str) :
    Routed H U :=
  match routes.lookup (request.method, request.path) with
  | some entry => invoke env (request.method, request.path) entry request
  | none =>
    match routes.entries.find? fun e =>
      e.1.1 = request.method ∧ patternMatches e.1.2 request.path with
    | some e =>
      invoke env e.1 e.2
        { request with
          params := mergeParams (extractParams e.1.2 request.path) request.params }
    | none =>
      if request.method = .get then
        { request := request
          response := some (serveFile env.fs request.path fileBases)
          invoked := [] }
      else
        { request := request
          response := none
          invoked := [] }

/-- `parse_raw_sync` and `parse_raw_async`: parse, then route. A rejected request leaves the
default request behind. -/
def parseRaw (env : Env H) (raw : Bytes) (routes : Routes H U) (fileBases : List Str) :
    Routed H U :=
  match parseRawOnly raw routes with
  | .ok request => request.route env routes fileBases
  | .error response =>
    { request := Request.default
      response := some response
      invoked := [] }

end Httpageboy
