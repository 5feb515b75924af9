import Httpageboy.OpenApi.Emit
import Httpageboy.OpenApi.Load

set_option relaxedAutoImplicit false
set_option autoImplicit false

/-!
# What a reader makes of the document

The document is read by YAML parsers: a mapping with a key twice is rejected, and a scalar in
quotes is decoded by the escape rules of double-quoted scalars.

## Main definitions

* `Httpageboy.OpenApi.DistinctOperations` — no path has two operations with one method.
* `Httpageboy.OpenApi.DistinctStatuses` — no operation has two responses with one status.

## Main results

* `Httpageboy.OpenApi.document_uniqueKeys_iff` — when no mapping has a key twice.
* `Httpageboy.OpenApi.decodeQuoted_quote_iff` — when a text in quotes is read back.
-/

namespace Httpageboy

namespace OpenApi

open Yaml

/-! ## Unique keys -/

/-- No two routes of the list have the same path and the same method. -/
def DistinctOperations (routes : List RouteDoc) : Prop :=
  (routes.map fun route => (route.path, route.method)).Nodup

/-- No two responses of a route have the same status. -/
def DistinctStatuses (route : RouteDoc) : Prop := (route.responses.map Prod.fst).Nodup

/-- Whether operations are distinct can be decided. -/
instance (routes : List RouteDoc) : Decidable (DistinctOperations routes) :=
  inferInstanceAs (Decidable (List.Nodup _))

/-- Whether statuses are distinct can be decided. -/
instance (route : RouteDoc) : Decidable (DistinctStatuses route) :=
  inferInstanceAs (Decidable (List.Nodup _))

/-- Characters are escaped one by one. -/
lemma escapeQuotes_cons (c : Char) (value : Str) :
    escapeQuotes (c :: value) = (if c = '"' then ['\\', '"'] else [c]) ++ escapeQuotes value :=
  List.flatMap_cons

/-- An escaped text does not start with a quote. -/
lemma escapeQuotes_ne_quote (value rest : Str) : escapeQuotes value ≠ '"' :: rest := by
  cases value with
  | nil => simp [escapeQuotes]
  | cons c value =>
    rw [escapeQuotes_cons]
    split_ifs with h
    · simp
    · simp [h]

/-- Different texts stay different in quotes.

**Proof sketch.** Where the texts differ first, the escaped ones go on differently, too: behind a
backslash there is a quote if it is that of an escape, and none if it is a backslash of the
text. -/
lemma escapeQuotes_injective : Function.Injective escapeQuotes := by
  intro value
  induction value with
  | nil =>
    intro value' h
    cases value' with
    | nil => rfl
    | cons c value' =>
      rw [escapeQuotes_cons] at h
      split_ifs at h <;> simp [escapeQuotes] at h
  | cons c value ih =>
    intro value' h
    cases value' with
    | nil =>
      rw [escapeQuotes_cons] at h
      split_ifs at h <;> simp [escapeQuotes] at h
    | cons c' value' =>
      rw [escapeQuotes_cons, escapeQuotes_cons] at h
      split_ifs at h with hc hc' hc'
      · rw [hc, hc', ih (List.append_cancel_left h)]
      · exact absurd (List.cons.inj h).2.symm (escapeQuotes_ne_quote _ _)
      · exact absurd (List.cons.inj h).2 (escapeQuotes_ne_quote _ _)
      · obtain ⟨rfl, hrest⟩ := List.cons.inj h
        rw [ih hrest]

/-- Different texts stay different in their quotes. -/
lemma quote_injective : Function.Injective quote := by
  intro value value' h
  exact escapeQuotes_injective (List.append_cancel_right (List.cons.inj h).2)

/-- The responses of an operation have unique keys when their statuses are different. -/
lemma responsesNode_uniqueKeys_iff (route : RouteDoc) :
    (responsesNode route.responses).UniqueKeys ↔ DistinctStatuses route := by
  unfold responsesNode DistinctStatuses
  split_ifs with h
  · simp [h]
  · have hkeys : (route.responses.map fun response => (quote response.1,
        Node.mapping [("description".toList, quoted response.2)])).map Prod.fst =
        (route.responses.map Prod.fst).map quote := by
      simp
    rw [uniqueKeys_mapping_iff, hkeys, List.nodup_map_iff quote_injective]
    refine and_iff_left fun e he => ?_
    obtain ⟨response, -, rfl⟩ := List.mem_map.1 he
    simp [quoted]

/-- Only the responses of an operation can have a key twice. -/
lemma operationNode_uniqueKeys_iff (path : Str) (route : RouteDoc) :
    (operationNode path route).UniqueKeys ↔ DistinctStatuses route := by
  rw [← responsesNode_uniqueKeys_iff]
  have hparameter : ∀ place name, (parameterNode place name).UniqueKeys := by
    intro place name
    simp [parameterNode, quoted]
  have hbody : ∀ body, (bodyNode body).UniqueKeys := by
    intro body
    simp [bodyNode, quoted]
  have hparameters : (Node.sequence <| (pathParams path).map (parameterNode "path") ++
      (freshHeaders [] route.headers).map (parameterNode "header")).UniqueKeys := by
    refine .sequence fun node hnode => ?_
    rcases List.mem_append.1 hnode with hmem | hmem
    · obtain ⟨name, -, rfl⟩ := List.mem_map.1 hmem
      exact hparameter _ name
    · obtain ⟨name, -, rfl⟩ := List.mem_map.1 hmem
      exact hparameter _ name
  unfold operationNode
  cases route.permission <;> cases route.requestBody <;>
    simp [quoted, hbody, -uniqueKeys_sequence_iff, hparameters]

/-- Operations are distinct when those of each path have different methods. -/
lemma distinctOperations_iff (routes : List RouteDoc) :
    DistinctOperations routes ↔
      ∀ path, ((routes.filter fun route => route.path = path).map RouteDoc.method).Nodup := by
  unfold DistinctOperations
  simp only [List.Nodup, List.pairwise_map, List.pairwise_filter]
  constructor
  · intro h path
    refine h.imp fun {r r'} hne hr hr' hmethod => hne ?_
    rw [hmethod, of_decide_eq_true hr, of_decide_eq_true hr']
  · intro h
    rw [List.pairwise_iff_forall_sublist]
    intro r r' hsub heq
    obtain ⟨hpath, hmethod⟩ := Prod.mk.inj heq
    exact List.pairwise_iff_forall_sublist.1 (h r.path) hsub (by simp) (by simp [hpath]) hmethod

/-- The mapping of the paths has unique keys when the operations and the statuses are distinct.

**Proof sketch.** The groups of the routes have different paths. Below a path there is a key for
each route of its group; below a route the keys are fixed, and those of its responses are their
statuses in quotes, which are different for different statuses. -/
lemma uniqueKeys_paths_iff (routes : List RouteDoc) :
    (Node.mapping ((Sorting.groupBy RouteDoc.path routes).map pathEntry)).UniqueKeys ↔
      DistinctOperations routes ∧ ∀ route ∈ routes, DistinctStatuses route := by
  obtain ⟨hsorted, hspec⟩ := Sorting.groupBy_spec RouteDoc.path routes
  have hgroup : ∀ path group, (path, group) ∈ Sorting.groupBy RouteDoc.path routes ↔
      group = routes.filter (fun route => route.path = path) ∧ group ≠ [] := by
    intro path group
    convert hspec path group
  have hentry : ∀ group : Str × List RouteDoc, (pathEntry group).2.UniqueKeys ↔
      (group.2.map RouteDoc.method).Nodup ∧ ∀ route ∈ group.2, DistinctStatuses route := by
    intro group
    rw [pathEntry, uniqueKeys_mapping_iff, List.map_map]
    refine and_congr Iff.rfl ?_
    simp only [List.forall_mem_map, operationNode_uniqueKeys_iff]
  have hpaths : (((Sorting.groupBy RouteDoc.path routes).map pathEntry).map Prod.fst).Nodup := by
    rw [List.map_map, List.Nodup, List.pairwise_map]
    exact hsorted.imp ne_of_lt
  rw [uniqueKeys_mapping_iff, and_iff_right hpaths, List.forall_mem_map, distinctOperations_iff]
  simp only [hentry]
  constructor
  · intro h
    refine ⟨fun path => ?_, fun route hroute => ?_⟩
    · by_cases hempty : routes.filter (fun route => route.path = path) = []
      · rw [hempty]
        exact List.nodup_nil
      · exact (h _ ((hgroup _ _).2 ⟨rfl, hempty⟩)).1
    · have hmem : route ∈ routes.filter fun r => r.path = route.path :=
        List.mem_filter.2 ⟨hroute, by simp⟩
      exact (h _ ((hgroup _ _).2 ⟨rfl, List.ne_nil_of_mem hmem⟩)).2 route hmem
  · rintro ⟨hmethods, hstatuses⟩ ⟨path, group⟩ hmem
    obtain ⟨rfl, -⟩ := (hgroup _ _).1 hmem
    exact ⟨hmethods path, fun route hroute => hstatuses route (List.mem_filter.1 hroute).1⟩

/-- Around the paths the keys of the document are fixed. -/
lemma uniqueKeys_document_iff (env : Environment) (routes : List RouteDoc) :
    (Node.mapping (document env routes)).UniqueKeys ↔
      DistinctOperations routes ∧ ∀ route ∈ routes, DistinctStatuses route := by
  rw [← uniqueKeys_paths_iff, document]
  generalize Node.mapping ((Sorting.groupBy RouteDoc.path routes).map pathEntry) = paths
  simp [quoted]

/-- **When no mapping of the document has a key twice.** The text that is emitted is that of the
document, and this one has unique keys exactly when no two routes share a path and a method and no
route has two responses with the same status. Keys are compared as they are written, before a
reader decodes what stands in quotes.

**Proof sketch.** Around the paths the keys are fixed and differ. A path is a key once, because the
routes are grouped by it; within a path the keys are the methods, and within an operation the
statuses. -/
theorem document_uniqueKeys_iff (env : Environment) (routes : List RouteDoc) :
    emitOpenapi env routes = documentText (document env routes) ∧
    ((Node.mapping (document env routes)).UniqueKeys ↔
      DistinctOperations routes ∧ ∀ route ∈ routes, DistinctStatuses route) :=
  ⟨emitOpenapi_eq env routes, uniqueKeys_document_iff env routes⟩

/-- A source directory with one file, in which a route has two named errors. -/
def errorsTree : Tree :=
  .dir [(Utf8.encode "a.rs".toList, .file (.ok (Utf8.encode
    "// errors: invalid_token, insufficient_permissions\nroute!(\"/\", Rt::GET, home),".toList)))]

set_option maxRecDepth 4000 in
/-- The errors of that route are two responses with the status 400. -/
theorem errorsTree_repeats :
    ¬ ∀ (upper : Char → Str) (source : Bytes) (tree : Tree) (routes : List RouteDoc)
      (env : Environment), loadRoutes upper source tree = .ok routes →
      emitOpenapi env routes = documentText (document env routes) ∧
        (Node.mapping (document env routes)).UniqueKeys := by
  intro h
  have hload : loadRoutes (fun c => [c.toUpper]) [] errorsTree =
      .ok [⟨"get".toList, "/".toList, "home".toList, "Home".toList, [], none, none,
        [("400".toList, "invalid_token".toList),
          ("400".toList, "insufficient_permissions".toList)]⟩] := by
    decide
  have hunique := (h _ _ _ _ ⟨none, none, none, none⟩ hload).2
  exact absurd ((uniqueKeys_document_iff _ _).1 hunique).2 (by decide)

/-! ## Quoted scalars -/

/-- A text without a backslash is read back from its escaped form. -/
lemma decodeFrom_escapeQuotes {value : Str} (hcontent : ∀ c ∈ value, isContent c = true)
    (h : '\\' ∉ value) : decodeFrom .text (escapeQuotes value ++ ['"']) = some value := by
  induction value with
  | nil => rfl
  | cons c value ih =>
    obtain ⟨hc, hvalue⟩ := List.forall_mem_cons.1 hcontent
    obtain ⟨hne, hrest⟩ := not_or.1 (mt List.mem_cons.2 h)
    rw [escapeQuotes_cons]
    split_ifs with hquote
    · simp [decodeFrom, simpleEscape, ih hvalue hrest, hquote]
    · simp [decodeFrom, hquote, Ne.symm hne, hc, ih hvalue hrest]

/-- **Decoding does not lengthen a text.** Each character of the text gives one at most, and a
backslash none: it takes a character of the text with it, or the backslash of the escape of a
quote, which then ends the scalar too early.

**Proof sketch.** Induction on the text, over the modes of the decoder: in the text, behind a
backslash, and in a numeric escape. -/
lemma length_decodeFrom (value : Str) :
    (∀ result, decodeFrom .text (escapeQuotes value ++ ['"']) = some result →
      result.length ≤ value.length ∧ ('\\' ∈ value → result.length < value.length)) ∧
    (∀ result, decodeFrom .escape (escapeQuotes value ++ ['"']) = some result →
      result.length ≤ value.length) ∧
    ∀ more acc result, decodeFrom (.digits more acc) (escapeQuotes value ++ ['"']) = some result →
      result.length ≤ value.length := by
  induction value with
  | nil =>
    refine ⟨fun result h => ?_, fun result h => ?_, fun more acc result h => ?_⟩
    · obtain rfl : result = [] := by simpa [escapeQuotes, decodeFrom] using h
      simp
    · simp [escapeQuotes, decodeFrom, simpleEscape] at h
    · simp [escapeQuotes, decodeFrom, hexDigit] at h
  | cons c value ih =>
    obtain ⟨htext, hescape, hdigits⟩ := ih
    have hread : ∀ {d : Char} {result : Str},
        (decodeFrom .text (escapeQuotes value ++ ['"'])).map (d :: ·) = some result →
        result.length ≤ value.length + 1 ∧ ('\\' ∈ value → result.length < value.length + 1) := by
      intro d result h
      obtain ⟨rest, hrest, rfl⟩ := Option.map_eq_some_iff.1 h
      obtain ⟨hle, hlt⟩ := htext rest hrest
      rw [List.length_cons]
      exact ⟨by omega, fun hmem => by have := hlt hmem; omega⟩
    rw [escapeQuotes_cons, List.length_cons]
    by_cases hquote : c = '"'
    · subst hquote
      refine ⟨fun result h => ?_, fun result h => ?_, fun more acc result h => ?_⟩
      · have h' : (decodeFrom .text (escapeQuotes value ++ ['"'])).map ('"' :: ·) =
          some result := by
          simpa [decodeFrom, simpleEscape] using h
        obtain ⟨hle, hlt⟩ := hread h'
        exact ⟨hle, fun hmem => hlt (by simpa using hmem)⟩
      · simp [decodeFrom, simpleEscape] at h
      · simp [decodeFrom, hexDigit] at h
    · rw [if_neg hquote]
      refine ⟨fun result h => ?_, fun result h => ?_, fun more acc result h => ?_⟩
      · simp only [List.cons_append, decodeFrom, if_neg hquote] at h
        split_ifs at h with hslash hcontent
        · have := hescape result h
          exact ⟨by omega, fun _ => by omega⟩
        · obtain ⟨hle, hlt⟩ := hread h
          refine ⟨hle, fun hmem => hlt ?_⟩
          exact (List.mem_cons.1 hmem).resolve_left (Ne.symm hslash)
      · simp only [List.cons_append, decodeFrom] at h
        split at h
        · exact (hread h).1
        · split at h
          · have := hdigits _ _ result h
            omega
          · cases h
      · simp only [List.cons_append, decodeFrom] at h
        split at h
        · cases h
        · split at h
          · have := hdigits _ _ result h
            omega
          · split_ifs at h
            exact (hread h).1

/-- **When a text in quotes is read back**: a text of characters that may stand in a double-quoted
scalar is one such scalar in its quotes, with the text as its value, exactly when it has no
backslash.

**Proof sketch.** `quote` escapes quotes, but not the backslashes themselves. Without backslashes
the decoder undoes each escape; a backslash makes the value that it reads shorter. -/
theorem decodeQuoted_quote_iff {value : Str} (hcontent : ∀ c ∈ value, isContent c = true) :
    decodeQuoted (quote value) = some value ↔ '\\' ∉ value := by
  constructor
  · intro h hmem
    exact lt_irrefl _ (((length_decodeFrom value).1 value h).2 hmem)
  · exact decodeFrom_escapeQuotes hcontent

/-- A text with quotes in it is read back. -/
theorem saidHello_readBack :
    decodeQuoted (quote "say \"hello: \x7bname\x7d\"".toList) =
      some "say \"hello: \x7bname\x7d\"".toList :=
  (decodeQuoted_quote_iff (Str.forall_mem_of_all (by decide))).2 (by decide)

/-- A text with a backslash in it is not read back. -/
theorem backslash_not_readBack :
    ¬ ∀ value : Str, (∀ c ∈ value, isContent c = true) →
      decodeQuoted (quote value) = some value := by
  intro h
  have hread := h "C:\\data".toList (Str.forall_mem_of_all (by decide))
  revert hread
  decide

end OpenApi

end Httpageboy
