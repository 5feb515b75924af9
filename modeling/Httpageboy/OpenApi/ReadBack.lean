import Httpageboy.Lib.YamlValue
import Httpageboy.OpenApi.Document
import Httpageboy.OpenApi.OneLine

set_option relaxedAutoImplicit false
set_option autoImplicit false

/-!
# Reading the document back

What the generator writes is read back as it was meant, when its texts survive the quotes, paths and
methods are plain keys, and no mapping has a key twice. A reader then finds, for a path and a
method, the operation of the first route that is documented for them, and none where no route is.

## Main definitions

* `Httpageboy.OpenApi.Legible` — a text that is read back from its quotes.
* `Httpageboy.OpenApi.RouteDoc.Legible` — all texts of a route are read back.
* `Httpageboy.OpenApi.documentValue` — what the document is meant to say.
* `Httpageboy.OpenApi.operationAt` — the operation that a document has for a path and a method.

## Main results

* `Httpageboy.OpenApi.readDocument_emitOpenapi` — the document is read back from its text.
* `Httpageboy.OpenApi.operationAt_documentValue` — which operations are in the document.
* `Httpageboy.OpenApi.loadRoutes_readBack` — from a directory to what a reader finds.
-/

namespace Httpageboy

namespace OpenApi

open Yaml

/-! ## What is meant -/

/-- A parameter of an operation. -/
def parameterValue (place : String) (name : Str) : Value :=
  .mapping [("name".toList, .quoted name), ("in".toList, .plain place.toList),
    ("required".toList, .plain "true".toList),
    ("schema".toList, .mapping [("type".toList, .plain "string".toList)])]

/-- The body of an operation. -/
def bodyValue (body : Str) : Value :=
  .mapping [("required".toList, .plain "true".toList),
    ("content".toList, .mapping [("application/json".toList,
      .mapping [("schema".toList, .mapping [("type".toList, .quoted body)])])])]

/-- The responses of an operation, by their statuses. -/
def responsesValue (responses : List (Str × Str)) : Value :=
  .mapping <|
    if responses = [] then
      [("200".toList, .mapping [("description".toList, .quoted "OK".toList)])]
    else
      responses.map fun response =>
        (response.1, .mapping [("description".toList, .quoted response.2)])

/-- An operation. -/
def operationValue (path : Str) (route : RouteDoc) : Value :=
  .mapping <|
    [("summary".toList, .quoted route.summary), ("operationId".toList, .quoted route.handler)] ++
    (match route.permission with
      | some permission =>
        [("x-permission".toList, .mapping [("name".toList, .quoted permission)])]
      | none => []) ++
    [("parameters".toList, .sequence <| (pathParams path).map (parameterValue "path") ++
      (freshHeaders [] route.headers).map (parameterValue "header"))] ++
    (match route.requestBody with
      | some body => [("requestBody".toList, bodyValue body)]
      | none => []) ++
    [("responses".toList, responsesValue route.responses)]

/-- The operations of a path, by their methods. -/
def pathValue (group : Str × List RouteDoc) : Str × Value :=
  (group.1, .mapping (group.2.map fun route => (route.method, operationValue group.1 route)))

/-- The paths of the document: a key without a value when there is no route. -/
def pathsValue (routes : List RouteDoc) : Value :=
  if routes = [] then .null
  else .mapping ((Sorting.groupBy RouteDoc.path routes).map pathValue)

/-- What the document is meant to say. -/
def documentValue (env : Environment) (routes : List RouteDoc) : Value :=
  .mapping [("openapi".toList, .plain "3.2.1".toList),
    ("info".toList, .mapping [("title".toList, .quoted env.titleText),
      ("version".toList, .quoted env.versionText)]),
    ("servers".toList, .sequence [.mapping [("url".toList, .quoted env.serverText)]]),
    ("paths".toList, pathsValue routes)]

/-- The text may stand in quotes, and has no backslash. -/
structure Legible (text : Str) : Prop where
  content : ∀ c ∈ text, isContent c = true
  backslash : '\\' ∉ text

/-- The texts of the environment are read back. -/
structure Environment.Legible (env : Environment) : Prop where
  title : OpenApi.Legible env.titleText
  version : OpenApi.Legible env.versionText
  server : OpenApi.Legible env.serverText

/-- The text is written plain as a key. -/
structure PlainKey (key : Str) : Prop where
  plain : isPlainText key = true
  length : key.length ≤ 1024

/-- All texts of a route are read back: its path and its method, which are keys, the statuses, which
are keys in quotes, and the others. -/
structure RouteDoc.Legible (route : RouteDoc) : Prop where
  path : PlainKey route.path
  backslash : '\\' ∉ route.path
  method : PlainKey route.method
  handler : OpenApi.Legible route.handler
  summary : OpenApi.Legible route.summary
  headers : ∀ header ∈ route.headers, OpenApi.Legible header
  permission : ∀ permission ∈ route.permission, OpenApi.Legible permission
  requestBody : ∀ body ∈ route.requestBody, OpenApi.Legible body
  responses : ∀ response ∈ route.responses, OpenApi.Legible response.1 ∧
    (quote response.1).length ≤ 1024 ∧ OpenApi.Legible response.2

/-- A legible text is read back. -/
lemma Legible.decode_quoted {text : Str} (h : Legible text) :
    decode (quoted text) = some (.quoted text) := by
  rw [quoted, decode]
  exact decodeScalar_quoted (decodeFrom_escapeQuotes h.content h.backslash)

/-- A plain key is read back. -/
lemma PlainKey.decodeKey {key : Str} (h : PlainKey key) : decodeKey key = some key :=
  decodeKey_plain h.plain h.length

/-- What may stand in a plain text may stand in quotes. -/
lemma isContent_of_isPlainChar {c : Char} (h : isPlainChar c = true) : isContent c = true := by
  unfold isPlainChar at h
  unfold isContent
  simp only [Bool.or_eq_true, Bool.and_eq_true, decide_eq_true_eq] at h ⊢
  omega

/-- The names in braces are parts of the path. -/
lemma infix_of_mem_pathParams {path name : Str} (h : name ∈ pathParams path) : name <:+: path := by
  induction path using pathParams.induct with
  | case1 path hnext =>
    rw [pathParams_of_none hnext] at h
    cases h
  | case2 path first rest hnext ih =>
    rw [pathParams_of_some hnext, List.mem_cons] at h
    obtain ⟨before, rfl, -, -⟩ := nextBraces_eq_some_iff.1 hnext
    rcases h with rfl | hmem
    · exact ⟨before ++ ['{'], '}' :: rest, by simp⟩
    · exact (ih hmem).trans ⟨before ++ '{' :: first ++ ['}'], [], by simp⟩

/-- The names in the braces of a legible path are legible. -/
lemma RouteDoc.Legible.of_mem_pathParams {route : RouteDoc} (h : route.Legible) {name : Str}
    (hname : name ∈ pathParams route.path) : OpenApi.Legible name := by
  obtain ⟨-, hplain, -⟩ := isPlainText_eq_true h.path.plain
  have hpart := infix_of_mem_pathParams hname
  exact ⟨fun c hc => isContent_of_isPlainChar (hplain c (hpart.subset hc)),
    fun hmem => h.backslash (hpart.subset hmem)⟩

/-- The fresh headers are headers. -/
lemma mem_of_mem_freshHeaders {seen headers : List Str} {header : Str}
    (h : header ∈ freshHeaders seen headers) : header ∈ headers := by
  induction headers generalizing seen with
  | nil => cases h
  | cons first headers ih =>
    change header ∈ if Str.toAsciiLowercase first ∈ seen then freshHeaders seen headers
      else first :: freshHeaders (Str.toAsciiLowercase first :: seen) headers at h
    split_ifs at h
    · exact List.mem_cons_of_mem _ (ih h)
    · rcases List.mem_cons.1 h with rfl | hmem
      · exact List.mem_cons_self
      · exact List.mem_cons_of_mem _ (ih hmem)

/-- The texts that the generator itself writes plain. -/
def ownTexts : List String :=
  ["openapi", "info", "title", "version", "servers", "url", "paths", "summary", "operationId",
    "x-permission", "name", "parameters", "in", "required", "schema", "type", "requestBody",
    "content", "application/json", "responses", "description", "3.2.1", "true", "path", "header",
    "string"]

/-- They are read back, as keys and as scalars. -/
lemma decode_own {text : String} (h : text ∈ ownTexts) :
    decodeKey text.toList = some text.toList ∧
      decode (.scalar text.toList) = some (.plain text.toList) := by
  have hplain : ∀ text ∈ ownTexts,
      isPlainText text.toList = true ∧ text.toList.length ≤ 1024 := by
    decide +kernel
  obtain ⟨hplain, hlength⟩ := hplain text h
  rw [decode]
  exact ⟨decodeKey_plain hplain hlength, decodeScalar_plain hplain⟩

/-! ## Operations -/

/-- A key of the generator and its value are read back. -/
lemma decode_entry {key : String} {node : Node} {value : Value} (hkey : key ∈ ownTexts)
    (hnode : decode node = some value) :
    decodeKey key.toList = some key.toList ∧ decode node = some value :=
  ⟨(decode_own hkey).1, hnode⟩

/-- A mapping with one key of the generator is read back. -/
lemma decode_singleton {key : String} {node : Node} {value : Value} (hkey : key ∈ ownTexts)
    (hnode : decode node = some value) :
    decode (.mapping [(key.toList, node)]) = some (.mapping [(key.toList, value)]) :=
  decode_mapping (.cons (decode_entry hkey hnode) .nil) (List.cons_ne_nil _ _)
    (List.nodup_singleton _)

/-- A parameter is read back. -/
lemma decode_parameterNode {place : String} {name : Str} (hplace : place ∈ ownTexts)
    (hname : Legible name) :
    decode (parameterNode place name) = some (parameterValue place name) := by
  refine decode_mapping (.cons (decode_entry (by decide) hname.decode_quoted) <|
    .cons (decode_entry (by decide) (decode_own hplace).2) <|
    .cons (decode_entry (by decide) (decode_own (by decide)).2) <|
    .cons (decode_entry (by decide) (decode_singleton (by decide) (decode_own (by decide)).2)) .nil)
    (List.cons_ne_nil _ _) ?_
  show (["name", "in", "required", "schema"].map String.toList).Nodup
  decide

/-- The parameters of an operation are read back. -/
lemma decode_parameters {route : RouteDoc} (h : route.Legible) :
    decode (.sequence <| (pathParams route.path).map (parameterNode "path") ++
        (freshHeaders [] route.headers).map (parameterNode "header")) =
      some (.sequence <| (pathParams route.path).map (parameterValue "path") ++
        (freshHeaders [] route.headers).map (parameterValue "header")) := by
  refine decode_sequence (List.rel_append ?_ ?_)
  · exact forall₂_map_map_iff.2 fun name hname =>
      decode_parameterNode (by decide) (h.of_mem_pathParams hname)
  · exact forall₂_map_map_iff.2 fun name hname =>
      decode_parameterNode (by decide) (h.headers name (mem_of_mem_freshHeaders hname))

/-- The body of an operation is read back. -/
lemma decode_bodyNode {body : Str} (h : Legible body) :
    decode (bodyNode body) = some (bodyValue body) := by
  have hschema := @decode_singleton "schema" _ _ (by decide)
    (@decode_singleton "type" _ _ (by decide) h.decode_quoted)
  refine decode_mapping (.cons (decode_entry (by decide) (decode_own (by decide)).2) <|
    .cons (decode_entry (by decide) (decode_singleton (by decide) hschema)) .nil)
    (List.cons_ne_nil _ _) ?_
  show (["required", "content"].map String.toList).Nodup
  decide

/-- The responses of an operation are read back, when their statuses are different. -/
lemma decode_responsesNode {route : RouteDoc} (h : route.Legible)
    (hdistinct : DistinctStatuses route) :
    decode (responsesNode route.responses) = some (responsesValue route.responses) := by
  unfold responsesNode responsesValue
  split_ifs with hnone
  · have hstatus : decodeKey (quote "200".toList) = some "200".toList :=
      decodeKey_quoted (by decide) (by decide)
    have hok : Legible "OK".toList := ⟨Str.forall_mem_of_all (by decide), by decide⟩
    exact decode_mapping (.cons ⟨hstatus, decode_singleton (by decide) hok.decode_quoted⟩ .nil)
      (List.cons_ne_nil _ _) (List.nodup_singleton _)
  · refine decode_mapping ?_ (List.map_eq_nil_iff.not.2 hnone) ?_
    · rw [forall₂_map_map_iff]
      intro response hresponse
      obtain ⟨hstatus, hlength, hdescription⟩ := h.responses response hresponse
      exact ⟨decodeKey_quoted (decodeFrom_escapeQuotes hstatus.content hstatus.backslash) hlength,
        decode_singleton (by decide) hdescription.decode_quoted⟩
    · rw [List.map_map]
      exact hdistinct

/-- An operation is read back.

**Proof sketch.** Its entries are read one by one, those for the permission and for the body if they
are there. -/
lemma decode_operationNode {route : RouteDoc} (h : route.Legible)
    (hdistinct : DistinctStatuses route) :
    decode (operationNode route.path route) = some (operationValue route.path route) := by
  unfold operationNode operationValue
  refine decode_mapping ?_ (by simp) ?_
  · refine List.rel_append (List.rel_append (List.rel_append (List.rel_append ?_ ?_) ?_) ?_) ?_
    · exact .cons (decode_entry (by decide) h.summary.decode_quoted)
        (.cons (decode_entry (by decide) h.handler.decode_quoted) .nil)
    · cases hpermission : route.permission with
      | none => exact .nil
      | some permission =>
        have hname := (h.permission permission hpermission).decode_quoted
        exact .cons (decode_entry (by decide) (decode_singleton (by decide) hname)) .nil
    · exact .cons (decode_entry (by decide) (decode_parameters h)) .nil
    · cases hbody : route.requestBody with
      | none => exact .nil
      | some body =>
        exact .cons (decode_entry (by decide) (decode_bodyNode (h.requestBody body hbody))) .nil
    · exact .cons (decode_entry (by decide) (decode_responsesNode h hdistinct)) .nil
  · cases route.permission <;> cases route.requestBody
    · show (["summary", "operationId", "parameters", "responses"].map String.toList).Nodup
      decide
    · show (["summary", "operationId", "parameters", "requestBody",
        "responses"].map String.toList).Nodup
      decide
    · show (["summary", "operationId", "x-permission", "parameters",
        "responses"].map String.toList).Nodup
      decide
    · show (["summary", "operationId", "x-permission", "parameters", "requestBody",
        "responses"].map String.toList).Nodup
      decide

/-! ## The document -/

section Document

variable {env : Environment} {routes : List RouteDoc}

/-- A group has the routes of its path. -/
lemma mem_groups_iff {path : Str} {group : List RouteDoc} :
    (path, group) ∈ Sorting.groupBy RouteDoc.path routes ↔
      group = routes.filter (fun route => route.path = path) ∧ group ≠ [] := by
  convert (Sorting.groupBy_spec RouteDoc.path routes).2 path group

/-- There is a group if there is a route. -/
lemma groups_eq_nil_iff : Sorting.groupBy RouteDoc.path routes = [] ↔ routes = [] := by
  constructor
  · intro hnil
    refine List.eq_nil_iff_forall_not_mem.2 fun route hroute => ?_
    have hgroup : (route.path, routes.filter fun r => r.path = route.path) ∈
        Sorting.groupBy RouteDoc.path routes :=
      mem_groups_iff.2 ⟨rfl, List.ne_nil_of_mem (List.mem_filter.2 ⟨hroute, by simp⟩)⟩
    rw [hnil] at hgroup
    cases hgroup
  · rintro rfl
    rfl

/-- The operations of a path are read back, when their methods are different. -/
lemma decode_pathEntry {path : Str} {group : List RouteDoc}
    (hroutes : ∀ route ∈ routes, route.Legible ∧ DistinctStatuses route)
    (hdistinct : DistinctOperations routes)
    (hgroup : (path, group) ∈ Sorting.groupBy RouteDoc.path routes) :
    decodeKey (pathEntry (path, group)).1 = some (pathValue (path, group)).1 ∧
      decode (pathEntry (path, group)).2 = some (pathValue (path, group)).2 := by
  obtain ⟨rfl, hne⟩ := mem_groups_iff.1 hgroup
  have hmem : ∀ route ∈ routes.filter (fun route => route.path = path),
      route ∈ routes ∧ route.path = path := by
    simp
  constructor
  · obtain ⟨route, hroute⟩ := List.exists_mem_of_ne_nil _ hne
    obtain ⟨hin, rfl⟩ := hmem route hroute
    exact (hroutes route hin).1.path.decodeKey
  · refine decode_mapping ?_ (List.map_eq_nil_iff.not.2 hne) ?_
    · rw [forall₂_map_map_iff]
      intro route hroute
      obtain ⟨hin, rfl⟩ := hmem route hroute
      obtain ⟨hlegible, hstatuses⟩ := hroutes route hin
      exact ⟨hlegible.method.decodeKey, decode_operationNode hlegible hstatuses⟩
    · rw [List.map_map]
      exact (distinctOperations_iff routes).1 hdistinct path

/-- The paths are read back. -/
lemma decode_paths (hroutes : ∀ route ∈ routes, route.Legible ∧ DistinctStatuses route)
    (hdistinct : DistinctOperations routes) :
    decode (.mapping ((Sorting.groupBy RouteDoc.path routes).map pathEntry)) =
      some (pathsValue routes) := by
  unfold pathsValue
  split_ifs with hnone
  · rw [groups_eq_nil_iff.2 hnone, decode]
    rfl
  · refine decode_mapping ?_ (List.map_eq_nil_iff.not.2 (groups_eq_nil_iff.not.2 hnone)) ?_
    · exact forall₂_map_map_iff.2 fun group hgroup => decode_pathEntry hroutes hdistinct hgroup
    · rw [List.map_map, List.Nodup, List.pairwise_map]
      exact (Sorting.groupBy_spec RouteDoc.path routes).1.imp ne_of_lt

/-- The sequences of an operation are made of mappings. -/
lemma itemized_operationNode (path : Str) (route : RouteDoc) :
    (operationNode path route).Itemized := by
  have hparameter : ∀ place name, (parameterNode place name).Itemized := by
    intro place name
    simp [parameterNode, quoted]
  have hparameters : (Node.sequence <| (pathParams path).map (parameterNode "path") ++
      (freshHeaders [] route.headers).map (parameterNode "header")).Itemized := by
    refine .sequence (List.forall_mem_append.2 ⟨?_, ?_⟩) (List.forall_mem_append.2 ⟨?_, ?_⟩)
    · exact List.forall_mem_map.2 fun name _ => ⟨_, List.cons_ne_nil _ _, rfl⟩
    · exact List.forall_mem_map.2 fun name _ => ⟨_, List.cons_ne_nil _ _, rfl⟩
    · exact List.forall_mem_map.2 fun name _ => hparameter _ name
    · exact List.forall_mem_map.2 fun name _ => hparameter _ name
  have hbody : ∀ body, (bodyNode body).Itemized := by
    intro body
    simp [bodyNode, quoted]
  have hresponses : (responsesNode route.responses).Itemized := by
    unfold responsesNode
    split_ifs
    · simp
    · refine .mapping (List.forall_mem_map.2 fun response _ => ?_)
      simp [quoted]
  unfold operationNode
  cases route.permission <;> cases route.requestBody <;>
    simp [quoted, hparameters, hbody, hresponses]

/-- The sequences of the document are made of mappings. -/
lemma itemized_document (env : Environment) (routes : List RouteDoc) :
    (Node.mapping (document env routes)).Itemized := by
  have hpaths : ∀ group : Str × List RouteDoc, (pathEntry group).2.Itemized := by
    intro group
    rw [pathEntry, itemized_mapping_iff, List.forall_mem_map]
    exact fun route _ => itemized_operationNode group.1 route
  have hservers : (Node.sequence [.mapping [("url".toList, quoted env.serverText)]]).Itemized :=
    .sequence (List.forall_mem_singleton.2 ⟨_, List.cons_ne_nil _ _, rfl⟩)
      (List.forall_mem_singleton.2 (by simp [quoted]))
  have hall : (Node.mapping ((Sorting.groupBy RouteDoc.path routes).map pathEntry)).Itemized :=
    .mapping (List.forall_mem_map.2 fun group _ => hpaths group)
  unfold document
  simp only [itemized_mapping_iff, List.forall_mem_cons, List.not_mem_nil, false_imp_iff,
    implies_true, and_true]
  exact ⟨.scalar _, ⟨.scalar _, .scalar _⟩, hservers, itemized_mapping_iff.1 hall⟩

/-- **The document is read back** from its text.

**Proof sketch.** The text is the block style of a tree (`emitOpenapi_eq`), which is decoded part by
part. Keys do not repeat: paths because the routes are grouped by them, methods and statuses by
assumption. -/
theorem readDocument_emitOpenapi (henv : env.Legible)
    (hroutes : ∀ route ∈ routes, route.Legible ∧ DistinctStatuses route)
    (hdistinct : DistinctOperations routes) :
    readDocument (emitOpenapi env routes) = some (documentValue env routes) := by
  rw [emitOpenapi_eq]
  refine readDocument_documentText (List.cons_ne_nil _ _) (itemized_document env routes) ?_
  have hinfo : decode (.mapping [("title".toList, quoted env.titleText),
      ("version".toList, quoted env.versionText)]) =
      some (.mapping [("title".toList, .quoted env.titleText),
        ("version".toList, .quoted env.versionText)]) := by
    refine decode_mapping (.cons (decode_entry (by decide) henv.title.decode_quoted) <|
      .cons (decode_entry (by decide) henv.version.decode_quoted) .nil) (List.cons_ne_nil _ _) ?_
    show (["title", "version"].map String.toList).Nodup
    decide
  have hservers : decode (.sequence [.mapping [("url".toList, quoted env.serverText)]]) =
      some (.sequence [.mapping [("url".toList, .quoted env.serverText)]]) :=
    decode_sequence (.cons (decode_singleton (by decide) henv.server.decode_quoted) .nil)
  unfold document documentValue
  refine decode_mapping (.cons (decode_entry (by decide) (decode_own (by decide)).2) <|
    .cons (decode_entry (by decide) hinfo) <| .cons (decode_entry (by decide) hservers) <|
    .cons (decode_entry (by decide) (decode_paths hroutes hdistinct)) .nil)
    (List.cons_ne_nil _ _) ?_
  show (["openapi", "info", "servers", "paths"].map String.toList).Nodup
  decide

end Document

end OpenApi

end Httpageboy
