import Httpageboy.Lib.Yaml
import Httpageboy.OpenApi.Extract

set_option relaxedAutoImplicit false
set_option autoImplicit false

/-!
# Emitting the OpenAPI document

The writing half of `openapi_from_code.rs`: the lines of the document, with a group of operations
for each path. What the environment of the generator and its `Cargo.toml` say is a parameter.

## Main definitions

* `Httpageboy.OpenApi.quote` — a text in quotes.
* `Httpageboy.OpenApi.pathParams` — the names in braces that are documented for a path.
* `Httpageboy.OpenApi.emitOpenapi` — the text of the document.
* `Httpageboy.OpenApi.document` — the mapping that this is the text of.

## Main results

* `Httpageboy.OpenApi.emitOpenapi_eq` — the text is the block style of the mapping.
-/

namespace Httpageboy

namespace OpenApi

/-! ## The functions of the source -/

/-- `value.replace('"', "\\\"")`. -/
def escapeQuotes (value : Str) : Str := value.flatMap fun c => if c = '"' then ['\\', '"'] else [c]

/-- `quote`. -/
def quote (value : Str) : Str := '"' :: escapeQuotes value ++ ['"']

/-- The text between the first opening brace and the next closing one, and what is behind it. -/
def nextBraces (path : Str) : Option (Str × Str) := do
  let (_, rest) ← Str.splitOnce '{' path
  Str.splitOnce '}' rest

/-- The name in the next braces: it begins behind the first opening brace, and ends at the next
closing one. -/
lemma nextBraces_eq_some_iff {path name rest : Str} :
    nextBraces path = some (name, rest) ↔
      ∃ before, path = before ++ '{' :: name ++ '}' :: rest ∧ '{' ∉ before ∧ '}' ∉ name := by
  unfold nextBraces
  simp only [Option.bind_eq_bind, Option.bind_eq_some_iff, Prod.exists, Str.splitOnce_eq_some_iff]
  constructor
  · rintro ⟨before, _, ⟨rfl, hbefore⟩, rfl, hname⟩
    exact ⟨before, by simp, hbefore, hname⟩
  · rintro ⟨before, rfl, hbefore, hname⟩
    exact ⟨before, _, ⟨by simp, hbefore⟩, rfl, hname⟩

/-- `path_params`: the names in braces, one behind the other. -/
def pathParams (path : Str) : List Str :=
  match _hnext : nextBraces path with
  | none => []
  | some (name, rest) => name :: pathParams rest
termination_by path.length
decreasing_by
  obtain ⟨before, hpath, -, -⟩ := nextBraces_eq_some_iff.1 _hnext
  rw [hpath]
  simp only [List.length_append, List.length_cons]
  omega

/-- A path without braces has no parameters. -/
lemma pathParams_of_none {path : Str} (h : nextBraces path = none) : pathParams path = [] := by
  rw [pathParams, h]

/-- The first name, and those behind it. -/
lemma pathParams_of_some {path name rest : Str} (h : nextBraces path = some (name, rest)) :
    pathParams path = name :: pathParams rest := by
  rw [pathParams, h]

/-- What the generator reads besides the source directory: the environment variables
`OPENAPI_TITLE`, `OPENAPI_VERSION` and `OPENAPI_SERVER_URL`, and the text of `Cargo.toml`, each if
it can be read. -/
structure Environment where
  title : Option Str
  version : Option Str
  serverUrl : Option Str
  cargoToml : Option Str

/-- The value of a line `name = value` of `Cargo.toml`. -/
def cargoValue (name line : Str) : Option Str :=
  ((Str.trim line).dropPrefix? (name ++ " = ".toList)).map fun value =>
    ((Str.trim value).dropWhile (· = '"')).rdropWhile (· = '"')

/-- `cargo_field`: the value of the first line that gives the field. -/
def cargoField (cargoToml : Option Str) (name fallback : Str) : Str :=
  match cargoToml with
  | none => fallback
  | some content => ((Str.lines content).findSome? (cargoValue name)).getD fallback

/-- The title of the document. -/
def Environment.titleText (env : Environment) : Str :=
  env.title.getD (cargoField env.cargoToml "name".toList "httpageboy-api".toList)

/-- The version of the document. -/
def Environment.versionText (env : Environment) : Str :=
  env.version.getD (cargoField env.cargoToml "version".toList "0.1.0".toList)

/-- The server of the document. -/
def Environment.serverText (env : Environment) : Str :=
  env.serverUrl.getD "http://127.0.0.1".toList

/-- The headers whose lower-case names have not been seen. -/
def freshHeaders : List Str → List Str → List Str
  | _, [] => []
  | seen, header :: headers =>
    if Str.toAsciiLowercase header ∈ seen then freshHeaders seen headers
    else header :: freshHeaders (Str.toAsciiLowercase header :: seen) headers

/-- The lines of a parameter of an operation. -/
def emitParameter (place : String) (name : Str) : List Str :=
  ["        - name: ".toList ++ quote name,
    "          in: ".toList ++ place.toList,
    "          required: true".toList,
    "          schema:".toList,
    "            type: string".toList]

/-- The lines of the parameters of an operation. -/
def emitParameters (params headers : List Str) : List Str :=
  if params ≠ [] ∨ headers ≠ [] then
    "      parameters:".toList :: params.flatMap (emitParameter "path") ++
      (freshHeaders [] headers).flatMap (emitParameter "header")
  else ["      parameters: []".toList]

/-- The lines of the body of an operation. -/
def emitBody (body : Str) : List Str :=
  ["      requestBody:".toList,
    "        required: true".toList,
    "        content:".toList,
    "          application/json:".toList,
    "            schema:".toList,
    "              type: ".toList ++ quote body]

/-- The lines of the responses of an operation. -/
def emitResponses (responses : List (Str × Str)) : List Str :=
  "      responses:".toList ::
    if responses = [] then
      ["        \"200\":".toList, "          description: \"OK\"".toList]
    else
      responses.flatMap fun response =>
        ["        ".toList ++ quote response.1 ++ ":".toList,
          "          description: ".toList ++ quote response.2]

/-- The lines of an operation: the body of the inner loop of `emit_openapi`. -/
def emitRoute (path : Str) (route : RouteDoc) : List Str :=
  ["    ".toList ++ route.method ++ ":".toList,
    "      summary: ".toList ++ quote route.summary,
    "      operationId: ".toList ++ quote route.handler] ++
  (match route.permission with
    | some permission =>
      ["      x-permission:".toList, "        name: ".toList ++ quote permission]
    | none => []) ++
  emitParameters (pathParams path) route.headers ++
  (match route.requestBody with
    | some body => emitBody body
    | none => []) ++
  emitResponses route.responses

/-- The lines of a path: the body of the outer loop of `emit_openapi`. -/
def emitPath (group : Str × List RouteDoc) : List Str :=
  ("  ".toList ++ group.1 ++ ":".toList) :: group.2.flatMap (emitRoute group.1)

/-- `emit_openapi`. -/
def emitOpenapi (env : Environment) (routes : List RouteDoc) : Str :=
  let out := [
    "openapi: 3.2.1".toList,
    "info:".toList,
    "  title: ".toList ++ quote env.titleText,
    "  version: ".toList ++ quote env.versionText,
    "servers:".toList,
    "  - url: ".toList ++ quote env.serverText,
    "paths:".toList] ++ (Sorting.groupBy RouteDoc.path routes).flatMap emitPath
  List.intercalate ['\n'] out ++ ['\n']

/-! ## The mapping behind the text -/

open Yaml

/-- A scalar in quotes. -/
def quoted (value : Str) : Node := .scalar (quote value)

/-- A parameter of an operation. -/
def parameterNode (place : String) (name : Str) : Node :=
  .mapping [("name".toList, quoted name), ("in".toList, .scalar place.toList),
    ("required".toList, .scalar "true".toList),
    ("schema".toList, .mapping [("type".toList, .scalar "string".toList)])]

/-- The body of an operation. -/
def bodyNode (body : Str) : Node :=
  .mapping [("required".toList, .scalar "true".toList),
    ("content".toList, .mapping [("application/json".toList,
      .mapping [("schema".toList, .mapping [("type".toList, quoted body)])])])]

/-- The responses of an operation, by their statuses. -/
def responsesNode (responses : List (Str × Str)) : Node :=
  .mapping <|
    if responses = [] then
      [("\"200\"".toList, .mapping [("description".toList, .scalar "\"OK\"".toList)])]
    else
      responses.map fun response =>
        (quote response.1, .mapping [("description".toList, quoted response.2)])

/-- An operation. -/
def operationNode (path : Str) (route : RouteDoc) : Node :=
  .mapping <|
    [("summary".toList, quoted route.summary), ("operationId".toList, quoted route.handler)] ++
    (match route.permission with
      | some permission =>
        [("x-permission".toList, .mapping [("name".toList, quoted permission)])]
      | none => []) ++
    [("parameters".toList, .sequence <| (pathParams path).map (parameterNode "path") ++
      (freshHeaders [] route.headers).map (parameterNode "header"))] ++
    (match route.requestBody with
      | some body => [("requestBody".toList, bodyNode body)]
      | none => []) ++
    [("responses".toList, responsesNode route.responses)]

/-- The operations of a path, by their methods. -/
def pathEntry (group : Str × List RouteDoc) : Str × Node :=
  (group.1, .mapping (group.2.map fun route => (route.method, operationNode group.1 route)))

/-- The document, as a mapping. -/
def document (env : Environment) (routes : List RouteDoc) : List (Str × Node) :=
  [("openapi".toList, .scalar "3.2.1".toList),
    ("info".toList, .mapping [("title".toList, quoted env.titleText),
      ("version".toList, quoted env.versionText)]),
    ("servers".toList, .sequence [.mapping [("url".toList, quoted env.serverText)]]),
    ("paths".toList, .mapping ((Sorting.groupBy RouteDoc.path routes).map pathEntry))]

/-- The first header is fresh. -/
lemma freshHeaders_ne_nil {headers : List Str} (h : headers ≠ []) :
    freshHeaders [] headers ≠ [] := by
  obtain ⟨header, headers, rfl⟩ := List.exists_cons_of_ne_nil h
  exact List.cons_ne_nil header (freshHeaders [Str.toAsciiLowercase header] headers)

/-- The lines of the parameters of an operation. -/
lemma entryLines_parameters (params headers : List Str) :
    entryLines 6 "parameters".toList (.sequence <| params.map (parameterNode "path") ++
      (freshHeaders [] headers).map (parameterNode "header")) = emitParameters params headers := by
  unfold emitParameters
  split_ifs with hsome
  · have hne : params.map (parameterNode "path") ++
        (freshHeaders [] headers).map (parameterNode "header") ≠ [] := by
      rcases hsome with h | h
      · simp [h]
      · simp [freshHeaders_ne_nil h]
    rw [entryLines_sequence _ _ hne, itemsLines_append, itemsLines_map, itemsLines_map]
    rfl
  · obtain ⟨rfl, rfl⟩ : params = [] ∧ headers = [] := by
      simpa using hsome
    rfl

/-- The lines of the responses of an operation. -/
lemma entryLines_responses (responses : List (Str × Str)) :
    entryLines 6 "responses".toList (responsesNode responses) = emitResponses responses := by
  unfold responsesNode emitResponses
  rw [entryLines]
  split_ifs with h
  · rfl
  · rw [entriesLines_map]
    rfl

/-- The lines of an operation. -/
lemma entryLines_operation (path : Str) (route : RouteDoc) :
    entryLines 4 route.method (operationNode path route) = emitRoute path route := by
  unfold operationNode emitRoute
  rw [entryLines, entriesLines_append, entriesLines_append, entriesLines_append,
    entriesLines_append]
  have hparameters := entryLines_parameters (pathParams path) route.headers
  have hresponses := entryLines_responses route.responses
  simp only [entriesLines, List.append_nil, hparameters, hresponses]
  cases route.permission <;> cases route.requestBody <;> rfl

/-- The lines of a path. -/
lemma entryLines_path (group : Str × List RouteDoc) :
    entryLines 2 (pathEntry group).1 (pathEntry group).2 = emitPath group := by
  unfold pathEntry emitPath
  rw [entryLines, entriesLines_map]
  show _ :: group.2.flatMap (fun route =>
    entryLines 4 route.method (operationNode group.1 route)) = _
  simp only [entryLines_operation]
  rfl

/-- **The text that is emitted** is the block style of the document. -/
theorem emitOpenapi_eq (env : Environment) (routes : List RouteDoc) :
    emitOpenapi env routes = documentText (document env routes) := by
  have hpaths : entriesLines 2 ((Sorting.groupBy RouteDoc.path routes).map pathEntry) =
      (Sorting.groupBy RouteDoc.path routes).flatMap emitPath := by
    rw [entriesLines_map]
    simp only [entryLines_path]
  unfold emitOpenapi documentText document
  simp only [entriesLines, entryLines, hpaths, List.append_nil]
  rfl

end OpenApi

end Httpageboy
