import Httpageboy.Routing.Dispatch

set_option relaxedAutoImplicit false
set_option autoImplicit false

/-!
# Dispatch and the iteration order of the route table

The route table is a hash map, and the searches for a pattern stop at the first one that
matches. This file says for which tables and requests the order of the map is invisible.

## Main definitions

* `Httpageboy.SameDispatch` — two tables dispatch a framed request in the same way.
* `Httpageboy.Unambiguous` — the patterns that bind a path agree on what the order would decide.

## Main results

* `Httpageboy.sameDispatch_iff` — dispatch does not depend on the order exactly for
  unambiguous requests.
-/

namespace Httpageboy

open Search

variable {H U : Type}

/-- Two tables dispatch a framed request in the same way: both accept it or both reject it; when
they accept it, the same handlers are invoked with the same parameters, and `upgrade_handler`
selects the same entry for the routed request. -/
structure SameDispatch (env : Env H) (fileBases : List Str) (raw : Bytes)
    (routes₁ routes₂ : Routes H U) : Prop where
  accepted : (∃ request, parseRawOnly raw routes₁ = .ok request) ↔
    ∃ request, parseRawOnly raw routes₂ = .ok request
  invoked : ∀ request₁ request₂, parseRawOnly raw routes₁ = .ok request₁ →
    parseRawOnly raw routes₂ = .ok request₂ →
    List.Forall₂ (fun i₁ i₂ => i₁.key = i₂.key ∧ i₁.entry = i₂.entry ∧ i₁.request.Same i₂.request)
      (request₁.route env routes₁ fileBases).invoked
      (request₂.route env routes₂ fileBases).invoked
  selected : ∀ request₁ request₂, parseRawOnly raw routes₁ = .ok request₁ →
    parseRawOnly raw routes₂ = .ok request₂ →
    selectEntry routes₁ request₁.method request₁.path =
      selectEntry routes₂ request₂.method request₂.path ∧
    (request₁.route env routes₁ fileBases).request.upgradeHandler routes₁ =
      (request₂.route env routes₂ fileBases).request.upgradeHandler routes₂

/-- Any two patterns of the method that bind the path bind the same names to the same segments,
but for the names that the query string binds; and without a literal route there are no two. -/
def Unambiguous (routes : Routes H U) (method : RequestType) (target : Str) : Prop :=
  ∀ e₁ ∈ routes.entries, ∀ e₂ ∈ routes.entries,
    e₁.1.1 = method → Binds e₁.1.2 (targetPath target) →
    e₂.1.1 = method → Binds e₂.1.2 (targetPath target) →
    (∀ name, (queryParams target).lookup name = none →
      (extractParams e₁.1.2 (targetPath target)).lookup name =
        (extractParams e₂.1.2 (targetPath target)).lookup name) ∧
    (routes.lookup (method, targetPath target) = none → e₁ = e₂)

/-! ## Unambiguous requests -/

/-- What one table accepts, every table accepts. -/
lemma accepted_of_ok {raw : Bytes} {routes : Routes H U} {request : Request}
    (h : parseRawOnly raw routes = .ok request) (routes' : Routes H U) :
    ∃ request', parseRawOnly raw routes' = .ok request' := by
  obtain ⟨target, hrequests, -, -⟩ := requests_of_ok h
  obtain ⟨headers, body, hparsed⟩ := hrequests.parsed (H := H) (U := U)
  exact ⟨_, hparsed routes'⟩

/-- Two orders accept the same requests, and the requests they build differ in the parameters
only. -/
lemma parsed_of_ok {raw : Bytes} {routes₁ routes₂ : Routes H U} {request₁ request₂ : Request}
    (h₁ : parseRawOnly raw routes₁ = .ok request₁)
    (h₂ : parseRawOnly raw routes₂ = .ok request₂) :
    ∃ method target headers body, Requests raw method target ∧
      request₁ = ⟨method, targetPath target, httpVersion, headers, body,
        targetParams method target routes₁⟩ ∧
      request₂ = ⟨method, targetPath target, httpVersion, headers, body,
        targetParams method target routes₂⟩ := by
  obtain ⟨target, hrequests, -, -⟩ := requests_of_ok h₁
  obtain ⟨headers, body, hparsed⟩ := hrequests.parsed (H := H) (U := U)
  exact ⟨request₁.method, target, headers, body, hrequests,
    Except.ok.inj (h₁.symm.trans (hparsed routes₁)),
    Except.ok.inj (h₂.symm.trans (hparsed routes₂))⟩

/-- Routing leaves the method and the path alone, so `upgrade_handler` selects the entry that
routing has selected. -/
lemma upgradeHandler_route (env : Env H) (request : Request) (routes : Routes H U)
    (fileBases : List Str) :
    (request.route env routes fileBases).request.upgradeHandler routes =
      (selectEntry routes request.method request.path).bind fun e => e.2.upgrade := by
  rw [upgradeHandler_eq, route_eq]
  cases hselect : selectEntry routes request.method request.path with
  | none => simp only [hselect]
  | some e =>
    unfold invoke routedRequest
    cases routes.lookup (request.method, request.path) <;> simp only [hselect]

namespace Unambiguous

variable {routes routes₁ routes₂ : Routes H U} {method : RequestType} {target : Str}

/-- Both orders select the same entry. -/
lemma selectEntry_eq (h : Unambiguous routes method target)
    (hperm₁ : routes₁.entries.Perm routes.entries) (hperm₂ : routes₂.entries.Perm routes.entries) :
    selectEntry routes₁ method (targetPath target) =
      selectEntry routes₂ method (targetPath target) := by
  have hlookup₁ : routes₁.lookup (method, targetPath target) =
      routes.lookup (method, targetPath target) := AList.perm_lookup hperm₁
  have hlookup₂ : routes₂.lookup (method, targetPath target) =
      routes.lookup (method, targetPath target) := AList.perm_lookup hperm₂
  cases hliteral : routes.lookup (method, targetPath target) with
  | some entry =>
    rw [selectEntry_of_literal (hlookup₁.trans hliteral),
      selectEntry_of_literal (hlookup₂.trans hliteral)]
  | none =>
    rw [selectEntry_of_no_literal (hlookup₁.trans hliteral),
      selectEntry_of_no_literal (hlookup₂.trans hliteral)]
    refine Assoc.find?_eq_of_unique (hperm₁.trans hperm₂.symm) fun e₁ he₁ e₂ he₂ hfits₁ hfits₂ => ?_
    obtain ⟨hmethod₁, hbinds₁⟩ := fits_iff.1 hfits₁
    obtain ⟨hmethod₂, hbinds₂⟩ := fits_iff.1 hfits₂
    exact (h e₁ (hperm₁.mem_iff.1 he₁) e₂ (hperm₁.mem_iff.1 he₂) hmethod₁ hbinds₁ hmethod₂
      hbinds₂).2 hliteral

/-- Both orders extract the same parameters. -/
lemma targetParams_eq (h : Unambiguous routes method target)
    (hperm₁ : routes₁.entries.Perm routes.entries) (hperm₂ : routes₂.entries.Perm routes.entries)
    (name : Str) :
    (targetParams method target routes₂).lookup name =
      (targetParams method target routes₁).lookup name := by
  rw [targetParams_lookup, targetParams_lookup]
  cases hquery : (queryParams target).lookup name with
  | some value => rfl
  | none =>
    rw [Option.none_or, Option.none_or, firstParams_keys, firstParams_keys]
    cases hfind₁ : routes₁.entries.find? (fits method (targetPath target)) with
    | none =>
      have hfind₂ : routes₂.entries.find? (fits method (targetPath target)) = none := by
        rw [List.find?_eq_none] at hfind₁ ⊢
        exact fun e he => hfind₁ e (hperm₁.mem_iff.2 (hperm₂.mem_iff.1 he))
      rw [hfind₂]
    | some e₁ =>
      obtain ⟨he₁, hmethod₁, hbinds₁⟩ := selectPattern_eq_some hfind₁
      obtain ⟨e₂, hfind₂⟩ : ∃ e₂, routes₂.entries.find? (fits method (targetPath target)) =
          some e₂ := by
        rw [← Option.isSome_iff_exists, List.find?_isSome]
        exact ⟨e₁, hperm₂.mem_iff.2 (hperm₁.mem_iff.1 he₁), fits_iff.2 ⟨hmethod₁, hbinds₁⟩⟩
      obtain ⟨he₂, hmethod₂, hbinds₂⟩ := selectPattern_eq_some hfind₂
      rw [hfind₂]
      exact (h e₂ (hperm₂.mem_iff.1 he₂) e₁ (hperm₁.mem_iff.1 he₁) hmethod₂ hbinds₂ hmethod₁
        hbinds₁).1 name hquery

end Unambiguous

/-- What is invoked for an accepted request: the handler of the selected entry. -/
lemma invoked_eq (env : Env H) (request : Request) (routes : Routes H U) (fileBases : List Str) :
    (request.route env routes fileBases).invoked =
      ((selectEntry routes request.method request.path).map fun e =>
        ⟨e.1, e.2, routedRequest routes request e⟩).toList := by
  rw [route_eq]
  cases selectEntry routes request.method request.path <;> rfl

/-- The request as a handler is given it, when the parser accepted it. -/
lemma routedRequest_params {routes : Routes H U} {method : RequestType} {target : Str}
    {e : TableEntry H U} (hselect : selectEntry routes method (targetPath target) = some e)
    (version : Str) (headers : List (Str × Str)) (body : Bytes) :
    Request.Same ⟨method, targetPath target, version, headers, body,
        targetParams method target routes⟩
      (routedRequest routes ⟨method, targetPath target, version, headers, body,
        targetParams method target routes⟩ e) :=
  routedRequest_same rfl rfl hselect

/-- **Dispatch is independent of the order exactly for unambiguous requests**: any two orders of a
table dispatch a framed request in the same way if and only if it is rejected, or the patterns
that bind its path leave nothing for the order to decide.

**Proof sketch.** Every entry can be the first one of the walk. Two patterns that bind the path
are thus the first matches of two orders, and the parameters and, without a literal route, the
entries of the two orders are theirs. Conversely the searches of two orders find the same entry
when only one pattern binds, and patterns with the same bindings give the same parameters behind
a literal route. -/
theorem sameDispatch_iff (env : Env H) (fileBases : List Str) (raw : Bytes)
    (routes : Routes H U) :
    (∀ routes₁ routes₂ : Routes H U, routes₁.entries.Perm routes.entries →
      routes₂.entries.Perm routes.entries → SameDispatch env fileBases raw routes₁ routes₂) ↔
    ∀ method target, Requests raw method target → Unambiguous routes method target := by
  constructor
  · intro hsame method target hrequests e₁ he₁ e₂ he₂ hmethod₁ hbinds₁ hmethod₂ hbinds₂
    obtain ⟨routes₁, hperm₁, rest₁, hentries₁⟩ := Assoc.exists_front he₁
    obtain ⟨routes₂, hperm₂, rest₂, hentries₂⟩ := Assoc.exists_front he₂
    obtain ⟨headers, body, hparsed⟩ := hrequests.parsed (H := H) (U := U)
    have hdispatch := hsame routes₁ routes₂ hperm₁ hperm₂
    have hfind₁ : routes₁.entries.find? (fits method (targetPath target)) = some e₁ := by
      rw [hentries₁]
      exact List.find?_cons_of_pos (fits_iff.2 ⟨hmethod₁, hbinds₁⟩)
    have hfind₂ : routes₂.entries.find? (fits method (targetPath target)) = some e₂ := by
      rw [hentries₂]
      exact List.find?_cons_of_pos (fits_iff.2 ⟨hmethod₂, hbinds₂⟩)
    have hselected := (hdispatch.selected _ _ (hparsed routes₁) (hparsed routes₂)).1
    constructor
    · intro name hquery
      -- a handler is invoked, and given the parameters of its order
      have hinvoked := hdispatch.invoked _ _ (hparsed routes₁) (hparsed routes₂)
      rw [invoked_eq, invoked_eq, ← hselected] at hinvoked
      obtain ⟨e, hselect⟩ : ∃ e, selectEntry routes₁ method (targetPath target) = some e := by
        rw [← Option.ne_none_iff_exists', Ne, selectEntry_eq_none_iff, not_forall]
        exact ⟨e₁, by simpa using ⟨hperm₁.mem_iff.2 he₁, hmethod₁, .inr hbinds₁⟩⟩
      have hselect₂ : selectEntry routes₂ method (targetPath target) = some e :=
        hselected.symm.trans hselect
      simp only [hselect, Option.map_some, Option.toList_some] at hinvoked
      obtain ⟨-, -, hrequests⟩ := (List.forall₂_cons.1 hinvoked).1
      have hparams := hrequests.params name
      rw [(routedRequest_params hselect _ _ _).params,
        (routedRequest_params hselect₂ _ _ _).params] at hparams
      simp only [targetParams_lookup, hquery, Option.none_or] at hparams
      rw [firstParams_keys, firstParams_keys, hfind₁, hfind₂] at hparams
      exact hparams.symm
    · intro hliteral
      have hlookup₁ : routes₁.lookup (method, targetPath target) = none :=
        (AList.perm_lookup hperm₁).trans hliteral
      have hlookup₂ : routes₂.lookup (method, targetPath target) = none :=
        (AList.perm_lookup hperm₂).trans hliteral
      simp only at hselected
      rw [selectEntry_of_no_literal hlookup₁, selectEntry_of_no_literal hlookup₂] at hselected
      exact Option.some.inj (hfind₁.symm.trans (hselected.trans hfind₂))
  · intro hunambiguous routes₁ routes₂ hperm₁ hperm₂
    constructor
    · exact ⟨fun ⟨_, h⟩ => accepted_of_ok h routes₂, fun ⟨_, h⟩ => accepted_of_ok h routes₁⟩
    · intro request₁ request₂ h₁ h₂
      obtain ⟨method, target, headers, body, hrequests, rfl, rfl⟩ := parsed_of_ok h₁ h₂
      have hselected := (hunambiguous method target hrequests).selectEntry_eq hperm₁ hperm₂
      have hparams := (hunambiguous method target hrequests).targetParams_eq hperm₁ hperm₂
      rw [invoked_eq, invoked_eq]
      simp only
      cases hselect : selectEntry routes₁ method (targetPath target) with
      | none =>
        rw [← hselected, hselect]
        exact .nil
      | some e =>
        rw [← hselected, hselect]
        have hsame₁ := routedRequest_params hselect httpVersion headers body
        have hsame₂ :=
          routedRequest_params (hselected.symm.trans hselect) httpVersion headers body
        refine .cons ⟨rfl, rfl, ?_⟩ .nil
        exact ⟨hsame₂.method.trans hsame₁.method.symm, hsame₂.path.trans hsame₁.path.symm,
          hsame₂.version.trans hsame₁.version.symm, hsame₂.headers.trans hsame₁.headers.symm,
          hsame₂.body.trans hsame₁.body.symm,
          fun name => (hsame₂.params name).trans ((hparams name).trans (hsame₁.params name).symm)⟩
    · intro request₁ request₂ h₁ h₂
      obtain ⟨method, target, headers, body, hrequests, rfl, rfl⟩ := parsed_of_ok h₁ h₂
      have hselected := (hunambiguous method target hrequests).selectEntry_eq hperm₁ hperm₂
      refine ⟨hselected, ?_⟩
      rw [upgradeHandler_route, upgradeHandler_route]
      simp only [hselected]

/-! ## A table whose order decides -/

/-- The two routes `GET /{a}/x` and `GET /y/{b}`, in this order or in the other one. The handler
of the first one is `false`, that of the second one `true`. -/
def crossing (swapped : Bool) : Routes Bool Bool :=
  let first := ((RequestType.get, "/\x7ba\x7d/x".toList), RouteEntry.mk false (some false))
  let second := ((RequestType.get, "/y/\x7bb\x7d".toList), RouteEntry.mk true (some true))
  if swapped then (∅ : Routes Bool Bool).insert first.1 first.2 |>.insert second.1 second.2
  else (∅ : Routes Bool Bool).insert second.1 second.2 |>.insert first.1 first.2

/-- A request for `/y/x`, which both routes bind. -/
def crossingRequest : Bytes := Utf8.encode "GET /y/x HTTP/1.1\r\n\r\n".toList

/-- Handlers that answer alike, and no files. -/
def crossingEnv : Env Bool where
  handle := fun _ _ => Response.new
  fs := (constantEnv Response.new).fs

/-- What the two orders have in common when they dispatch alike. -/
lemma SameDispatch.entries_eq {env : Env H} {fileBases : List Str} {raw : Bytes}
    {routes₁ routes₂ : Routes H U} (h : SameDispatch env fileBases raw routes₁ routes₂) :
    (parseRaw env raw routes₁ fileBases).invoked.map Invocation.entry =
      (parseRaw env raw routes₂ fileBases).invoked.map Invocation.entry := by
  unfold parseRaw
  cases h₁ : parseRawOnly raw routes₁ with
  | error response₁ =>
    cases h₂ : parseRawOnly raw routes₂ with
    | error response₂ => rfl
    | ok request₂ =>
      obtain ⟨request₁, hok⟩ := h.accepted.2 ⟨request₂, h₂⟩
      rw [h₁] at hok
      cases hok
  | ok request₁ =>
    cases h₂ : parseRawOnly raw routes₂ with
    | error response₂ =>
      obtain ⟨request₂, hok⟩ := h.accepted.1 ⟨request₁, h₁⟩
      rw [h₂] at hok
      cases hok
    | ok request₂ =>
      rw [← List.forall₂_eq_eq_eq, List.forall₂_map_left_iff, List.forall₂_map_right_iff]
      exact (h.invoked request₁ request₂ h₁ h₂).imp fun _ _ hsame => hsame.2.1

/-- The two orders invoke different handlers with different parameters, and select different
upgrades. -/
theorem crossing_not_sameDispatch :
    (crossing true).entries.Perm (crossing false).entries ∧
    ((parseRaw crossingEnv crossingRequest (crossing false) []).invoked.map fun i =>
      (i.entry, i.request.params.keys)) = [(⟨false, some false⟩, ["a".toList])] ∧
    ((parseRaw crossingEnv crossingRequest (crossing true) []).invoked.map fun i =>
      (i.entry, i.request.params.keys)) = [(⟨true, some true⟩, ["b".toList])] ∧
    (parseRaw crossingEnv crossingRequest (crossing false) []).request.upgradeHandler
      (crossing false) = some false ∧
    (parseRaw crossingEnv crossingRequest (crossing true) []).request.upgradeHandler
      (crossing true) = some true ∧
    ¬ SameDispatch crossingEnv [] crossingRequest (crossing false) (crossing true) := by
  have hperm : (crossing true).entries.Perm (crossing false).entries := by decide
  have hfirst : ((parseRaw crossingEnv crossingRequest (crossing false) []).invoked.map fun i =>
      (i.entry, i.request.params.keys)) = [(⟨false, some false⟩, ["a".toList])] := by
    decide
  have hsecond : ((parseRaw crossingEnv crossingRequest (crossing true) []).invoked.map fun i =>
      (i.entry, i.request.params.keys)) = [(⟨true, some true⟩, ["b".toList])] := by
    decide
  refine ⟨hperm, hfirst, hsecond, by decide, by decide, fun hsame => ?_⟩
  have hentries := hsame.entries_eq
  have hfirst' := congrArg (List.map Prod.fst) hfirst
  have hsecond' := congrArg (List.map Prod.fst) hsecond
  rw [List.map_map] at hfirst' hsecond'
  have hsame : [RouteEntry.mk false (some false)] = [RouteEntry.mk true (some true)] :=
    hfirst'.symm.trans (hentries.trans hsecond')
  cases hsame

end Httpageboy
