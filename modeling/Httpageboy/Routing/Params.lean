import Httpageboy.Routing.Bindings
import Httpageboy.Routing.Order

set_option relaxedAutoImplicit false
set_option autoImplicit false

/-!
# The parameters a handler is given

Path parameters and query parameters share one map. `parse_raw_only` fills it from the first
pattern that binds the path, whichever route is dispatched to later, and then from the query
string; the routing functions merge the bindings of the dispatched pattern in once more. Here is
what a handler reads under each name.

## Main definitions

* `Httpageboy.PathFirst` — the path decides about the placeholders, the query about the rest.
* `Httpageboy.Unshadowed` — where the query does not contradict the path.

## Main results

* `Httpageboy.invoked_params` — what a handler reads under a name.
* `Httpageboy.pathFirst_iff` — when the path decides about the placeholders.
* `Httpageboy.params_known_iff` — when a handler is given no other names.
-/

namespace Httpageboy

variable {H U : Type}

/-! ## What a handler reads -/

/-- **What a handler reads under a name**: the value that the query string gives it; without one
the segment that the first pattern that binds the path has for it. Nothing is invoked when no
entry is selected.

**Proof sketch.** The merge in the routing functions changes nothing, so that the handler is given
the parameters of `parse_raw_only`: those of the first pattern, overwritten by those of the
query. -/
lemma invoked_params (env : Env H) (routes : Routes H U) (fileBases : List Str) {raw : Bytes}
    {method : RequestType} {target : Str} (h : Requests raw method target) :
    (selectEntry routes method (targetPath target) = none ∧
      (parseRaw env raw routes fileBases).invoked = []) ∨
    ∃ e request, selectEntry routes method (targetPath target) = some e ∧
      (parseRaw env raw routes fileBases).invoked = [⟨e.1, e.2, request⟩] ∧
      ∀ name, request.params.lookup name = (queryValue target name).or
        ((selectPattern routes method (targetPath target)).bind fun pattern =>
          segment pattern.1.2 (targetPath target) name) := by
  obtain ⟨headers, body, hparsed⟩ := h.parsed (H := H) (U := U)
  unfold parseRaw
  simp only [hparsed routes, invoked_eq]
  cases hselect : selectEntry routes method (targetPath target) with
  | none => exact .inl ⟨rfl, rfl⟩
  | some e =>
    refine .inr ⟨e, _, rfl, rfl, fun name => ?_⟩
    rw [(routedRequest_params hselect _ _ _).params]
    show (targetParams method target routes).lookup name = _
    rw [targetParams_lookup, queryParams_lookup, firstParams_keys]
    congr 1
    show (((selectPattern routes method (targetPath target)).map fun e =>
      extractParams e.1.2 (targetPath target)).getD ∅).lookup name = _
    cases hpattern : selectPattern routes method (targetPath target) with
    | none => rfl
    | some pattern =>
      obtain ⟨-, -, hbinds⟩ := selectPattern_eq_some hpattern
      exact extractParams_lookup hbinds name

/-! ## Placeholders and the query -/

/-- The path decides about the placeholders of a route, and the query about the other names that
it has values for. -/
def PathFirst (route target : Str) (params : HashMap Str Str) : Prop :=
  (∀ name ∈ placeholders route, params.lookup name = segment route (targetPath target) name) ∧
  ∀ name, name ∉ placeholders route → ∀ value, queryValue target name = some value →
    params.lookup name = some value

/-- The query gives the placeholders of an entry no other value than the path. Where the path is
the text of the route itself, the entry is found as a literal route, and the parameters are those
of the first pattern that binds this text: then that one gives the placeholders that the query
does not name the same values, too. -/
def Unshadowed (routes : Routes H U) (method : RequestType) (target : Str)
    (e : TableEntry H U) : Prop :=
  ∀ name ∈ placeholders e.1.2,
    (∀ value, queryValue target name = some value →
      segment e.1.2 (targetPath target) name = some value) ∧
    (e.1.2 = targetPath target → queryValue target name = none →
      ∀ pattern, selectPattern routes method (targetPath target) = some pattern →
        segment pattern.1.2 (targetPath target) name = segment e.1.2 (targetPath target) name)

/-- The text of a route is bound by the route, if it has a placeholder. -/
lemma binds_self {route name : Str} (h : name ∈ placeholders route) : Binds route route := by
  obtain ⟨part, hpart, -⟩ := List.mem_map.1 h
  obtain ⟨hmem, hplace⟩ := List.mem_filter.1 hpart
  exact ⟨List.forall₂_same.2 fun part _ => .inr rfl, part, hmem, hplace⟩

/-- When an entry with placeholders is selected, some pattern is found: the entry itself, unless
the path is the text of its route. -/
lemma exists_selectPattern {routes : Routes H U} {method : RequestType} {path name : Str}
    {e : TableEntry H U} (hselect : selectEntry routes method path = some e)
    (hname : name ∈ placeholders e.1.2) :
    ∃ pattern, selectPattern routes method path = some pattern ∧
      (e.1.2 ≠ path → pattern = e) := by
  obtain ⟨hmem, ⟨hmethod, hserves⟩, hliteral⟩ := selectEntry_eq_some hselect
  by_cases hpath : e.1.2 = path
  · have hbinds : Binds e.1.2 path := by
      rw [← hpath]
      exact binds_self hname
    have hsome : (selectPattern routes method path).isSome = true :=
      List.find?_isSome.2 ⟨e, hmem, fits_iff.2 ⟨hmethod, hbinds⟩⟩
    obtain ⟨pattern, hpattern⟩ := Option.isSome_iff_exists.1 hsome
    exact ⟨pattern, hpattern, fun hne => absurd hpath hne⟩
  · rw [selectEntry_of_no_literal (hliteral hpath)] at hselect
    exact ⟨e, hselect, fun _ => rfl⟩

/-- **When path segments cannot be overridden by the query string**: a handler reads the segments
of the path under the placeholders of its route exactly when the query gives them no other value,
and the corner case of a path that is the text of the route does no harm.

**Proof sketch.** A handler reads the value of the query under a name if there is one, and behind
it the segment of the first pattern that binds the path. That pattern is the dispatched entry,
unless the path is the text of the route itself. -/
theorem pathFirst_iff (env : Env H) (routes : Routes H U) (fileBases : List Str) (raw : Bytes) :
    (∀ method target, Requests raw method target →
      ∀ i ∈ (parseRaw env raw routes fileBases).invoked, placeholders i.key.2 ≠ [] →
        PathFirst i.key.2 target i.request.params) ↔
    ∀ method target, Requests raw method target →
      ∀ e, selectEntry routes method (targetPath target) = some e →
        Unshadowed routes method target e := by
  refine forall₃_congr fun method target hrequests => ?_
  rcases invoked_params env routes fileBases hrequests with
    ⟨hnone, hinvoked⟩ | ⟨e, request, hselect, hinvoked, hparams⟩
  · rw [hinvoked, hnone]
    simp
  · rw [hinvoked, hselect]
    simp only [List.forall_mem_singleton, Option.some.injEq, forall_eq']
    constructor
    · intro hfirst name hname
      obtain ⟨pattern, hpattern, -⟩ := exists_selectPattern hselect hname
      have hread := (hfirst (List.ne_nil_of_mem hname)).1 name hname
      rw [hparams, hpattern, Option.bind_some] at hread
      refine ⟨?_, ?_⟩
      · intro value hvalue
        rw [← hread, hvalue, Option.some_or]
      · intro _ hquery pattern' hpattern'
        obtain rfl := Option.some.inj (hpattern.symm.trans hpattern')
        rw [← hread, hquery, Option.none_or]
    · intro hunshadowed _
      refine ⟨?_, ?_⟩
      · intro name hname
        obtain ⟨hquery, hliteral⟩ := hunshadowed name hname
        obtain ⟨pattern, hpattern, hself⟩ := exists_selectPattern hselect hname
        rw [hparams, hpattern, Option.bind_some]
        cases hvalue : queryValue target name with
        | some value => rw [Option.some_or, hquery value hvalue]
        | none =>
          rw [Option.none_or]
          by_cases hpath : e.1.2 = targetPath target
          · exact hliteral hpath hvalue pattern hpattern
          · rw [hself hpath]
      · intro name _ value hvalue
        rw [hparams, hvalue, Option.some_or]

/-- The route `GET /users/{id}`. -/
def userRoute : Routes Bool Bool :=
  (∅ : Routes Bool Bool).insert (RequestType.get, "/users/\x7bid\x7d".toList) ⟨false, none⟩

/-- A request for user 7 whose query says that it is for user 1. -/
def userRequest : Bytes := Utf8.encode "GET /users/7?id=1 HTTP/1.1\r\n\r\n".toList

/-- What it asks for. -/
lemma requests_userRequest : Requests userRequest .get "/users/7?id=1".toList := by
  refine ⟨26, "GET /users/7?id=1 HTTP/1.1".toList, "GET /users/7?id=1 HTTP/1.1".toList, ?_, ?_, ?_,
    ?_, ?_⟩ <;> decide

/-- The handler of user 7 reads the number 1. -/
theorem userRequest_overridden :
    ¬ ∀ (env : Env Bool) (routes : Routes Bool Bool) (fileBases : List Str) (raw : Bytes)
      (method : RequestType) (target : Str), Requests raw method target →
      ∀ i ∈ (parseRaw env raw routes fileBases).invoked, placeholders i.key.2 ≠ [] →
        PathFirst i.key.2 target i.request.params := by
  intro h
  have hall := h crossingEnv userRoute [] userRequest _ _ requests_userRequest
  rcases invoked_params crossingEnv userRoute [] requests_userRequest with
    ⟨hnone, -⟩ | ⟨e, request, hselect, hinvoked, hparams⟩
  · revert hnone
    decide
  · have hroute : (selectEntry userRoute .get (targetPath "/users/7?id=1".toList)).map
        (fun e => e.1.2) = some "/users/\x7bid\x7d".toList := by decide
    rw [hselect, Option.map_some, Option.some.injEq] at hroute
    rw [hinvoked, List.forall_mem_singleton] at hall
    simp only [hroute] at hall
    have hid := (hall (by decide)).1 "id".toList (by decide)
    have hquery : queryValue "/users/7?id=1".toList "id".toList = some "1".toList := by
      decide
    rw [hparams, hquery, Option.some_or] at hid
    revert hid
    decide

/-! ## Other names -/

/-- The names a handler is given: the keys of the query, and the placeholders of the first pattern
that binds the path. -/
lemma mem_keys_of_lookup {routes : Routes H U} {method : RequestType} {target name : Str}
    {params : HashMap Str Str}
    (h : params.lookup name = (queryValue target name).or
      ((selectPattern routes method (targetPath target)).bind fun pattern =>
        segment pattern.1.2 (targetPath target) name)) :
    name ∈ params.keys ↔ name ∈ queryKeys target ∨
      ∃ pattern, selectPattern routes method (targetPath target) = some pattern ∧
        name ∈ placeholders pattern.1.2 := by
  rw [← AList.mem_keys, ← not_iff_not, ← AList.lookup_eq_none, h, Option.or_eq_none_iff,
    queryValue_eq_none_iff, not_or, not_exists]
  apply and_congr_right
  intro _
  cases hpattern : selectPattern routes method (targetPath target) with
  | none => simp
  | some pattern =>
    obtain ⟨-, -, hbinds⟩ := selectPattern_eq_some hpattern
    rw [Option.bind_some, segment_eq_none_iff hbinds.1.length_eq]
    simp

/-- **When a handler is given no other names** than the placeholders of its route and the keys of
the query: exactly when, in front of a literal route, the first pattern that binds the path has
no other names either.

**Proof sketch.** A handler is given a value under a name when the query or the first pattern that
binds the path does. Without a literal route that pattern is the dispatched entry; in front of a
literal route it is another one, and its names have nothing to do with that route. -/
theorem params_known_iff (env : Env H) (routes : Routes H U) (fileBases : List Str)
    (raw : Bytes) :
    (∀ method target, Requests raw method target →
      ∀ i ∈ (parseRaw env raw routes fileBases).invoked, ∀ name ∈ i.request.params.keys,
        name ∈ placeholders i.key.2 ∨ name ∈ queryKeys target) ↔
    ∀ method target, Requests raw method target →
      ∀ entry, routes.lookup (method, targetPath target) = some entry →
        ∀ pattern, selectPattern routes method (targetPath target) = some pattern →
          ∀ name ∈ placeholders pattern.1.2,
            name ∈ placeholders (targetPath target) ∨ name ∈ queryKeys target := by
  refine forall₃_congr fun method target hrequests => ?_
  rcases invoked_params env routes fileBases hrequests with
    ⟨hnone, hinvoked⟩ | ⟨e, request, hselect, hinvoked, hparams⟩
  · rw [hinvoked]
    simp only [List.not_mem_nil, false_implies, implies_true, true_iff]
    intro entry hentry
    rw [selectEntry_of_literal hentry] at hnone
    cases hnone
  · rw [hinvoked]
    simp only [List.forall_mem_singleton]
    have hkeys := fun name => mem_keys_of_lookup (hparams name)
    constructor
    · intro hknown entry hentry pattern hpattern name hname
      rw [selectEntry_of_literal hentry, Option.some.injEq] at hselect
      have hmem := hknown name ((hkeys name).2 (.inr ⟨pattern, hpattern, hname⟩))
      rw [← hselect] at hmem
      exact hmem
    · intro hliteral name hname
      rcases (hkeys name).1 hname with hquery | ⟨pattern, hpattern, hmem⟩
      · exact .inr hquery
      · cases hentry : routes.lookup (method, targetPath target) with
        | some entry =>
          rw [selectEntry_of_literal hentry, Option.some.injEq] at hselect
          rw [← hselect]
          exact hliteral entry hentry pattern hpattern name hmem
        | none =>
          rw [selectEntry_of_no_literal hentry, hpattern, Option.some.injEq] at hselect
          rw [← hselect]
          exact .inl hmem

/-- The routes `GET /users/me` and `GET /users/{id}`. -/
def meRoute : Routes Bool Bool :=
  userRoute.insert (RequestType.get, "/users/me".toList) ⟨true, none⟩

/-- A request for `/users/me`. -/
def meRequest : Bytes := Utf8.encode "GET /users/me HTTP/1.1\r\n\r\n".toList

/-- What it asks for. -/
lemma requests_meRequest : Requests meRequest .get "/users/me".toList := by
  refine ⟨22, "GET /users/me HTTP/1.1".toList, "GET /users/me HTTP/1.1".toList, ?_, ?_, ?_, ?_,
    ?_⟩ <;> decide

/-- The handler of `/users/me` is given a parameter of the other route. -/
theorem meRequest_unknown :
    ¬ ∀ (env : Env Bool) (routes : Routes Bool Bool) (fileBases : List Str) (raw : Bytes)
      (method : RequestType) (target : Str), Requests raw method target →
      ∀ i ∈ (parseRaw env raw routes fileBases).invoked, ∀ name ∈ i.request.params.keys,
        name ∈ placeholders i.key.2 ∨ name ∈ queryKeys target := by
  intro h
  have hall := h crossingEnv meRoute [] meRequest _ _ requests_meRequest
  have hinvoked : ((parseRaw crossingEnv meRequest meRoute []).invoked.map fun i =>
      (i.key.2, i.request.params.keys)) = [("/users/me".toList, ["id".toList])] := by
    decide
  obtain ⟨i, hi, hread⟩ := List.mem_map.1 (hinvoked ▸ List.mem_singleton.2 rfl)
  obtain ⟨hroute, hkeys⟩ := Prod.mk.inj hread
  have hknown := hall i hi "id".toList (by rw [hkeys]; exact List.mem_singleton.2 rfl)
  rw [hroute] at hknown
  revert hknown
  decide

end Httpageboy
