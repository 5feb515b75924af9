import Httpageboy.Core.Request
import Httpageboy.Lib.Assoc

set_option relaxedAutoImplicit false
set_option autoImplicit false

/-!
# Route patterns and the entry a request selects

`extract_params` decides whether a pattern matches and what it binds. The three searches of
`request.rs` (in `parse_raw_only`, in the routing functions, in `upgrade_handler`) all stop at
the first pattern of the request's method that matches; `selectPattern` is that search, and
`selectEntry` puts the literal route in front of it.

## Main definitions

* `Httpageboy.Binds` — a pattern matches a path and binds at least one of its segments.
* `Httpageboy.selectPattern`, `Httpageboy.selectEntry` — the entry that is found.
* `Httpageboy.Request.Same` — requests that differ in the order of their parameters only.

## Main results

* `Httpageboy.patternMatches_iff` — the test on the extracted parameters decides `Binds`.
* `Httpageboy.route_eq`, `Httpageboy.upgradeHandler_eq`, `Httpageboy.firstParams_eq` — the three
  searches select the same entry.
* `Httpageboy.selectEntry_eq_none_iff` — nothing is selected exactly when no entry serves the
  request.
-/

namespace Httpageboy

open Search

variable {H U : Type}

/-! ## Patterns -/

/-- The pattern has as many segments as the path, each of its segments is a placeholder or the
segment of the path, and there is a placeholder. -/
def Binds (route path : Str) : Prop :=
  List.Forall₂ (fun part pathPart => isPlaceholder part = true ∨ part = pathPart)
    (route.splitOn '/') (path.splitOn '/') ∧
  ∃ part ∈ route.splitOn '/', isPlaceholder part = true

/-- The loop of `extract_params` gets through when the segments agree but for placeholders. -/
lemma extractLoop_isSome_iff (parts : List (Str × Str)) (sorted : HashMap Str Str) :
    (extractLoop parts sorted).isSome = true ↔
      ∀ p ∈ parts, isPlaceholder p.1 = true ∨ p.1 = p.2 := by
  induction parts generalizing sorted with
  | nil => simp [extractLoop]
  | cons p parts ih =>
    obtain ⟨part, pathPart⟩ := p
    rw [extractLoop, List.forall_mem_cons]
    by_cases hplace : isPlaceholder part = true
    · rw [if_pos hplace, ih]
      exact ⟨fun h => ⟨.inl hplace, h⟩, And.right⟩
    · rw [if_neg hplace]
      by_cases hpart : part ≠ pathPart
      · rw [if_pos hpart]
        constructor
        · intro h
          cases h
        · rintro ⟨h | h, -⟩
          · exact absurd h hplace
          · exact absurd h hpart
      · rw [if_neg hpart, ih]
        exact ⟨fun h => ⟨.inr (not_not.1 hpart), h⟩, And.right⟩

/-- The loop binds something when it meets a placeholder, and forgets nothing. -/
lemma extractLoop_entries {parts : List (Str × Str)} {sorted result : HashMap Str Str}
    (h : extractLoop parts sorted = some result) :
    result.entries ≠ [] ↔ sorted.entries ≠ [] ∨ ∃ p ∈ parts, isPlaceholder p.1 = true := by
  induction parts generalizing sorted with
  | nil =>
    obtain rfl := Option.some.inj h
    simp
  | cons p parts ih =>
    obtain ⟨part, pathPart⟩ := p
    rw [extractLoop] at h
    by_cases hplace : isPlaceholder part = true
    · rw [if_pos hplace] at h
      have hnonempty : (sorted.insert (trimBraces part) pathPart).entries ≠ [] := by
        rw [AList.entries_insert]
        exact List.cons_ne_nil _ _
      rw [ih h]
      exact ⟨fun _ => .inr ⟨_, List.mem_cons_self, hplace⟩, fun _ => .inl hnonempty⟩
    · rw [if_neg hplace] at h
      by_cases hpart : part ≠ pathPart
      · rw [if_pos hpart] at h
        cases h
      · rw [if_neg hpart] at h
        rw [ih h]
        simp [hplace]

/-- **The test on the extracted parameters decides whether a pattern matches and binds.**

**Proof sketch.** Different numbers of segments leave nothing extracted and do not match.
Otherwise the loop over the pairs of segments gets through exactly when they agree but for
placeholders, and then it has bound something exactly when there was a placeholder. -/
theorem patternMatches_iff (route path : Str) :
    patternMatches route path = true ↔ Binds route path := by
  unfold patternMatches extractParams Binds
  rw [decide_eq_true_iff]
  generalize route.splitOn '/' = parts
  generalize path.splitOn '/' = pathParts
  simp only
  by_cases hlength : parts.length = pathParts.length
  · rw [if_neg (not_not.2 hlength), List.forall₂_iff_zip]
    have hfirst : (∃ p ∈ parts.zip pathParts, isPlaceholder p.1 = true) ↔
        ∃ part ∈ parts, isPlaceholder part = true := by
      have hmap : (parts.zip pathParts).map Prod.fst = parts :=
        List.map_fst_zip hlength.le
      conv_rhs => rw [← hmap]
      simp only [List.mem_map, exists_exists_and_eq_and]
    cases hloop : extractLoop (parts.zip pathParts) ∅ with
    | none =>
      have hfails := (extractLoop_isSome_iff (parts.zip pathParts) ∅).not.1 (by simp [hloop])
      simp only [Option.getD_none, AList.empty_entries, ne_eq, not_true_eq_false, false_iff]
      rintro ⟨⟨-, hall⟩, -⟩
      exact hfails fun p hp => hall hp
    | some result =>
      have hagree := (extractLoop_isSome_iff (parts.zip pathParts) ∅).1 (by simp [hloop])
      have hbound : result.entries ≠ [] ↔ ∃ part ∈ parts, isPlaceholder part = true := by
        rw [extractLoop_entries hloop, hfirst]
        simp
      rw [Option.getD_some, hbound]
      exact ⟨fun h => ⟨⟨hlength, fun hp => hagree _ hp⟩, h⟩, And.right⟩
  · rw [if_pos hlength]
    simp only [AList.empty_entries, ne_eq, not_true_eq_false, false_iff]
    rintro ⟨hforall, -⟩
    exact hlength hforall.length_eq

/-! ## The selected entry -/

/-- An entry of the table: its key and its value. -/
abbrev TableEntry (H U : Type) := Σ _ : RequestType × Str, RouteEntry H U

/-- The condition of the three searches. -/
def fits (method : RequestType) (path : Str) (e : TableEntry H U) : Bool :=
  e.1.1 = method ∧ patternMatches e.1.2 path

/-- An entry fits a request when it has its method and binds its path. -/
lemma fits_iff {method : RequestType} {path : Str} {e : TableEntry H U} :
    fits method path e = true ↔ e.1.1 = method ∧ Binds e.1.2 path := by
  rw [fits, decide_eq_true_iff, patternMatches_iff]

/-- The first pattern that matches. -/
def selectPattern (routes : Routes H U) (method : RequestType) (path : Str) :
    Option (TableEntry H U) :=
  routes.entries.find? (fits method path)

/-- The literal route, or the first pattern that matches. -/
def selectEntry (routes : Routes H U) (method : RequestType) (path : Str) :
    Option (TableEntry H U) :=
  match routes.lookup (method, path) with
  | some entry => some ⟨(method, path), entry⟩
  | none => selectPattern routes method path

/-- The literal route comes first. -/
lemma selectEntry_of_literal {routes : Routes H U} {method : RequestType} {path : Str}
    {entry : RouteEntry H U} (h : routes.lookup (method, path) = some entry) :
    selectEntry routes method path = some ⟨(method, path), entry⟩ := by
  rw [selectEntry, h]

/-- Without a literal entry the patterns decide. -/
lemma selectEntry_of_no_literal {routes : Routes H U} {method : RequestType} {path : Str}
    (h : routes.lookup (method, path) = none) :
    selectEntry routes method path = selectPattern routes method path := by
  rw [selectEntry, h]

/-- A pattern that is selected is in the table and fits. -/
lemma selectPattern_eq_some {routes : Routes H U} {method : RequestType} {path : Str}
    {e : TableEntry H U} (h : selectPattern routes method path = some e) :
    e ∈ routes.entries ∧ e.1.1 = method ∧ Binds e.1.2 path :=
  ⟨List.mem_of_find?_eq_some h, fits_iff.1 (List.find?_some h)⟩

/-- An entry serves the requests to its own path, and to those it binds. -/
def Serves (method : RequestType) (path : Str) (e : TableEntry H U) : Prop :=
  e.1.1 = method ∧ (e.1.2 = path ∨ Binds e.1.2 path)

/-- What is selected is in the table, serves the request, and is a pattern only when there is no
literal route. -/
lemma selectEntry_eq_some {routes : Routes H U} {method : RequestType} {path : Str}
    {e : TableEntry H U} (h : selectEntry routes method path = some e) :
    e ∈ routes.entries ∧ Serves method path e ∧
      (e.1.2 ≠ path → routes.lookup (method, path) = none) := by
  cases hliteral : routes.lookup (method, path) with
  | some entry =>
    rw [selectEntry_of_literal hliteral, Option.some.injEq] at h
    subst h
    exact ⟨Assoc.mem_entries_iff.2 hliteral, ⟨rfl, .inl rfl⟩, fun hne => absurd rfl hne⟩
  | none =>
    rw [selectEntry_of_no_literal hliteral] at h
    obtain ⟨hmem, hmethod, hbinds⟩ := selectPattern_eq_some h
    exact ⟨hmem, ⟨hmethod, .inr hbinds⟩, fun _ => rfl⟩

/-- **Nothing is selected exactly when no entry serves the request.**

**Proof sketch.** Neither a literal entry nor a pattern is there, and an entry that serves a request
is one of the two. -/
theorem selectEntry_eq_none_iff {routes : Routes H U} {method : RequestType} {path : Str} :
    selectEntry routes method path = none ↔ ∀ e ∈ routes.entries, ¬ Serves method path e := by
  constructor
  · rintro hnone ⟨⟨m, route⟩, entry⟩ he ⟨rfl, hserves⟩
    cases hliteral : routes.lookup (m, path) with
    | some entry =>
      rw [selectEntry_of_literal hliteral] at hnone
      cases hnone
    | none =>
      rw [selectEntry_of_no_literal hliteral] at hnone
      rcases hserves with rfl | hbinds
      · rw [Assoc.mem_entries_iff, hliteral] at he
        cases he
      · exact List.find?_eq_none.1 hnone _ he (fits_iff.2 ⟨rfl, hbinds⟩)
  · intro hall
    cases hselect : selectEntry routes method path with
    | none => rfl
    | some e =>
      obtain ⟨hmem, hserves, -⟩ := selectEntry_eq_some hselect
      exact absurd hserves (hall e hmem)

/-! ## The three searches -/

/-- `parse_raw_only` takes the parameters of the first pattern that matches. -/
lemma firstParams_eq (method : RequestType) (path : Str) (entries : List (TableEntry H U)) :
    firstParams method path entries.keys =
      ((entries.find? (fits method path)).map fun e => extractParams e.1.2 path).getD ∅ := by
  induction entries with
  | nil => rfl
  | cons e entries ih =>
    obtain ⟨⟨m, route⟩, entry⟩ := e
    rw [List.keys_cons, firstParams, List.find?_cons]
    by_cases hfits : m = method ∧ patternMatches route path = true
    · rw [if_pos hfits]
      have hfound : fits method path (⟨(m, route), entry⟩ : TableEntry H U) = true :=
        decide_eq_true hfits
      rw [hfound]
      rfl
    · rw [if_neg hfits, ih]
      have hskipped : fits method path (⟨(m, route), entry⟩ : TableEntry H U) = false :=
        decide_eq_false hfits
      rw [hskipped]

/-- The parameters of the first pattern in the order of the table. -/
lemma firstParams_keys (method : RequestType) (path : Str) (routes : Routes H U) :
    firstParams method path routes.keys =
      ((routes.entries.find? (fits method path)).map fun e => extractParams e.1.2 path).getD ∅ :=
  firstParams_eq method path routes.entries

/-- `upgrade_handler` returns the upgrade of the selected entry. -/
lemma upgradeHandler_eq (request : Request) (routes : Routes H U) :
    request.upgradeHandler routes =
      (selectEntry routes request.method request.path).bind fun e => e.2.upgrade := by
  unfold Request.upgradeHandler selectEntry selectPattern fits
  cases routes.lookup (request.method, request.path) with
  | some entry => rfl
  | none =>
    simp only
    cases routes.entries.find? fun e =>
      decide (e.1.1 = request.method ∧ patternMatches e.1.2 request.path = true) <;> rfl

/-- The request as routing hands it to the handler of an entry. -/
def routedRequest (routes : Routes H U) (request : Request) (e : TableEntry H U) : Request :=
  match routes.lookup (request.method, request.path) with
  | some _ => request
  | none =>
    { request with params := mergeParams (extractParams e.1.2 request.path) request.params }

/-- The routing functions invoke the handler of the selected entry; without one they serve a
file or return nothing. -/
lemma route_eq (env : Env H) (request : Request) (routes : Routes H U) (fileBases : List Str) :
    request.route env routes fileBases =
      match selectEntry routes request.method request.path with
      | some e => invoke env e.1 e.2 (routedRequest routes request e)
      | none =>
        { request := request
          response := if request.method = .get then
              some (serveFile env.fs request.path fileBases)
            else none
          invoked := [] } := by
  unfold Request.route selectEntry routedRequest selectPattern fits
  cases routes.lookup (request.method, request.path) with
  | some entry => rfl
  | none =>
    simp only
    cases routes.entries.find? fun e =>
      decide (e.1.1 = request.method ∧ patternMatches e.1.2 request.path = true) with
    | some e => rfl
    | none =>
      by_cases hget : request.method = .get
      · simp only [if_pos hget]
      · simp only [if_neg hget]

/-! ## Parameters -/

/-- The requests agree, their parameters as maps. -/
structure Request.Same (request request' : Request) : Prop where
  method : request'.method = request.method
  path : request'.path = request.path
  version : request'.version = request.version
  headers : request'.headers = request.headers
  body : request'.body = request.body
  params : ∀ name, request'.params.lookup name = request.params.lookup name

/-- A request is the same as itself. -/
lemma Request.Same.refl (request : Request) : request.Same request :=
  ⟨rfl, rfl, rfl, rfl, rfl, fun _ => rfl⟩

/-- The parameters of the query string alone. -/
def queryParams (target : Str) : HashMap Str Str :=
  ((Str.splitOnce '?' target).map fun p => insertQuery p.2 ∅).getD ∅

/-- The pairs of a query string. -/
def queryPairs (query : Str) : List (Σ _ : Str, Str) :=
  (query.splitOn '&').filterMap fun pair =>
    (Str.splitOnce '=' pair).map fun p => ⟨p.1, p.2⟩

/-- The pairs of the query are inserted one by one. -/
lemma insertQuery_eq (query : Str) (params : HashMap Str Str) :
    insertQuery query params = Assoc.insertAll (queryPairs query) params := by
  unfold insertQuery queryPairs
  induction query.splitOn '&' generalizing params with
  | nil => rfl
  | cons pair pairs ih =>
    rw [List.foldl_cons, ih]
    cases hsplit : Str.splitOnce '=' pair with
    | none => rw [List.filterMap_cons_none (by rw [hsplit]; rfl)]
    | some p =>
      rw [List.filterMap_cons_some (by rw [hsplit]; rfl)]
      rfl

/-- The parameters of a target are those of the query, and behind them those of the pattern. -/
lemma targetParams_lookup (method : RequestType) (target : Str) (routes : Routes H U)
    (name : Str) :
    (targetParams method target routes).lookup name =
      ((queryParams target).lookup name).or
        ((firstParams method (targetPath target) routes.keys).lookup name) := by
  unfold targetParams queryParams
  cases Str.splitOnce '?' target with
  | none => rfl
  | some p =>
    show (insertQuery p.2 _).lookup name = ((insertQuery p.2 ∅).lookup name).or _
    rw [insertQuery_eq, insertQuery_eq, Assoc.lookup_insertAll]

/-- What the query says wins over what the path says. -/
lemma mergeParams_lookup (pathParams params : HashMap Str Str) (name : Str) :
    (mergeParams pathParams params).lookup name =
      (params.lookup name).or (pathParams.lookup name) :=
  Assoc.lookup_insertAll_entries name params pathParams

/-- **The merge in the routing functions changes nothing** on a request that `parse_raw_only`
built from the same table.

**Proof sketch.** Behind a literal route there is no merge. Otherwise the routing function has
found the pattern whose parameters `parse_raw_only` took, because the two searches are the same;
what the query binds hides the bindings of the pattern in both. -/
theorem routedRequest_same {routes : Routes H U} {request : Request} {target : Str}
    {e : TableEntry H U} (hpath : request.path = targetPath target)
    (hparams : request.params = targetParams request.method target routes)
    (hselect : selectEntry routes request.method request.path = some e) :
    request.Same (routedRequest routes request e) := by
  unfold routedRequest
  cases hliteral : routes.lookup (request.method, request.path) with
  | some entry => exact .refl request
  | none =>
    rw [selectEntry_of_no_literal hliteral] at hselect
    refine ⟨rfl, rfl, rfl, rfl, rfl, fun name => ?_⟩
    have hfirst : firstParams request.method request.path routes.keys =
        extractParams e.1.2 request.path := by
      unfold selectPattern at hselect
      rw [firstParams_keys, hselect]
      rfl
    show (mergeParams (extractParams e.1.2 request.path) request.params).lookup name = _
    rw [mergeParams_lookup, hparams, targetParams_lookup, ← hpath, hfirst]
    cases (queryParams target).lookup name with
    | some value => rfl
    | none =>
      cases (extractParams e.1.2 request.path).lookup name <;> rfl

end Httpageboy
