import Httpageboy.Lib.Writes
import Httpageboy.Routing.Patterns

set_option relaxedAutoImplicit false
set_option autoImplicit false

/-!
# What a path and a query say

A route pattern binds the segments of a path to the names of its placeholders, and a query string
gives values to its keys. Both write their pairs from left to right, so that under each name the
last one counts.

## Main definitions

* `Httpageboy.placeholders`, `Httpageboy.segment` — what a route says about a path.
* `Httpageboy.queryKeys`, `Httpageboy.queryValue` — what a query string says.

## Main results

* `Httpageboy.extractParams_lookup`, `Httpageboy.queryParams_lookup` — the code reads them so.
* `Httpageboy.extractParams_exact` — what a pattern extracts from a path.
* `Httpageboy.targetParams_eq_foldl` — what both say about a request target.
-/

namespace Httpageboy

variable {H U : Type}

/-! ## What the path and the query say -/

/-- The names of the placeholders of a route. -/
def placeholders (route : Str) : List Str :=
  ((route.splitOn '/').filter isPlaceholder).map trimBraces

/-- The name and the segment that a segment of a route binds, if it is a placeholder. -/
def bindSegment (p : Str × Str) : Option (Str × Str) :=
  if isPlaceholder p.1 then some (trimBraces p.1, p.2) else none

/-- Each placeholder of a route, with the segment of the path at its position. -/
def pathBindings (route path : Str) : List (Str × Str) :=
  ((route.splitOn '/').zip (path.splitOn '/')).filterMap bindSegment

/-- The segment of the path at the last placeholder with this name. -/
def segment (route path name : Str) : Option Str := Writes.last name (pathBindings route path)

/-- The pairs of the query string of a target. -/
def queryBindings (target : Str) : List (Str × Str) :=
  ((Str.splitOnce '?' target).map fun p =>
    (p.2.splitOn '&').filterMap (Str.splitOnce '=')).getD []

/-- The keys of the query string of a target. -/
def queryKeys (target : Str) : List Str := (queryBindings target).map Prod.fst

/-- The value of the last pair of the query string with this key. -/
def queryValue (target name : Str) : Option Str := Writes.last name (queryBindings target)

/-- A name has no value in the query exactly when it is no key of it. -/
lemma queryValue_eq_none_iff {target name : Str} :
    queryValue target name = none ↔ name ∉ queryKeys target := by
  unfold queryValue queryKeys
  rw [Writes.last_eq_none_iff, List.mem_map]
  simp only [not_exists, not_and]

/-- Inserting a query string is writing its pairs, one behind the other. -/
lemma insertQuery_eq_foldl (query : Str) (params : HashMap Str Str) :
    insertQuery query params = ((query.splitOn '&').filterMap (Str.splitOnce '=')).foldl
      (fun m w => m.insert w.1 w.2) params := by
  unfold insertQuery
  rw [List.foldl_filterMap]
  congr 1
  funext params pair
  cases Str.splitOnce '=' pair <;> rfl

/-- The parameters of the query string alone hold its values. -/
lemma queryParams_lookup (target name : Str) :
    (queryParams target).lookup name = queryValue target name := by
  unfold queryParams queryValue queryBindings
  cases Str.splitOnce '?' target with
  | none => rfl
  | some p =>
    show (insertQuery p.2 ∅).lookup name = Writes.last name _
    rw [insertQuery_eq_foldl, Assoc.lookup_foldl_insert, AList.lookup_empty, Option.or_none]
    rfl

/-- The loop of `extract_params` writes the bindings of the placeholders. -/
lemma extractLoop_eq_some {parts : List (Str × Str)} {sorted result : HashMap Str Str}
    (h : extractLoop parts sorted = some result) :
    result = (parts.filterMap bindSegment).foldl (fun m w => m.insert w.1 w.2) sorted := by
  induction parts generalizing sorted with
  | nil => exact (Option.some.inj h).symm
  | cons p parts ih =>
    obtain ⟨part, pathPart⟩ := p
    rw [extractLoop] at h
    by_cases hplace : isPlaceholder part = true
    · have hbind : bindSegment (part, pathPart) = some (trimBraces part, pathPart) := if_pos hplace
      rw [if_pos hplace] at h
      rw [List.filterMap_cons_some hbind, List.foldl_cons]
      exact ih h
    · have hbind : bindSegment (part, pathPart) = none := if_neg hplace
      rw [if_neg hplace] at h
      by_cases hpart : part ≠ pathPart
      · rw [if_pos hpart] at h
        cases h
      · rw [if_neg hpart] at h
        rw [List.filterMap_cons_none hbind]
        exact ih h

/-- A pattern that binds a path writes the segments at its placeholders. -/
lemma extractParams_eq_foldl {route path : Str} (h : Binds route path) :
    extractParams route path =
      (pathBindings route path).foldl (fun m w => m.insert w.1 w.2) ∅ := by
  have hmatches := (patternMatches_iff route path).2 h
  unfold patternMatches extractParams at hmatches
  unfold extractParams pathBindings
  have hlength : (route.splitOn '/').length = (path.splitOn '/').length := h.1.length_eq
  simp only [hlength, ne_eq, not_true_eq_false, if_false] at hmatches ⊢
  cases hloop : extractLoop ((route.splitOn '/').zip (path.splitOn '/')) ∅ with
  | none => simp [hloop] at hmatches
  | some result => rw [Option.getD_some, extractLoop_eq_some hloop]

/-- A pattern that binds a path extracts its segments. -/
lemma extractParams_lookup {route path : Str} (h : Binds route path) (name : Str) :
    (extractParams route path).lookup name = segment route path name := by
  rw [extractParams_eq_foldl h, Assoc.lookup_foldl_insert, AList.lookup_empty, Option.or_none]
  rfl

/-- The names that the pairs of segments bind. -/
lemma map_fst_filterMap (parts : List (Str × Str)) :
    (parts.filterMap bindSegment).map Prod.fst =
      ((parts.map Prod.fst).filter isPlaceholder).map trimBraces := by
  induction parts with
  | nil => rfl
  | cons p parts ih =>
    rw [List.map_cons]
    by_cases hplace : isPlaceholder p.1 = true
    · have hbind : bindSegment p = some (trimBraces p.1, p.2) := if_pos hplace
      rw [List.filterMap_cons_some hbind, List.filter_cons_of_pos hplace, List.map_cons,
        List.map_cons, ih]
    · have hbind : bindSegment p = none := if_neg hplace
      rw [List.filterMap_cons_none hbind, List.filter_cons_of_neg hplace, ih]

/-- A route with as many segments as the path has a segment for each of its placeholders. -/
lemma segment_eq_none_iff {route path name : Str}
    (h : (route.splitOn '/').length = (path.splitOn '/').length) :
    segment route path name = none ↔ name ∉ placeholders route := by
  have hnames : (pathBindings route path).map Prod.fst = placeholders route := by
    unfold pathBindings placeholders
    rw [map_fst_filterMap, List.map_fst_zip h.le]
  unfold segment
  rw [Writes.last_eq_none_iff, ← hnames, List.mem_map]
  simp only [not_exists, not_and]

/-- A segment binds a name if it is a placeholder. -/
lemma bindSegment_eq_some_iff (p w : Str × Str) :
    bindSegment p = some w ↔ isPlaceholder p.1 = true ∧ (trimBraces p.1, p.2) = w := by
  unfold bindSegment
  by_cases hplace : isPlaceholder p.1 = true
  · rw [if_pos hplace, Option.some.injEq]
    exact ⟨fun h => ⟨hplace, h⟩, And.right⟩
  · rw [if_neg hplace]
    exact ⟨fun h => (Option.some_ne_none _ h.symm).elim, fun h => absurd h.1 hplace⟩

/-- **What a pattern extracts from a path.** Something is extracted exactly when the route and the
path have equally many segments, some segment of the route is a placeholder, and the others are
those of the path. The names are then those of the placeholders, and each of them has the segment
at its last position.

**Proof sketch.** The test on the extracted parameters decides `Binds`, which compares the
segments. The loop writes the placeholders from left to right, so that the last write with a name
counts. -/
theorem extractParams_exact (route path : Str) :
    ((extractParams route path).entries ≠ [] ↔
      (route.splitOn '/').length = (path.splitOn '/').length ∧
      (∃ part ∈ route.splitOn '/', isPlaceholder part = true) ∧
      ∀ part pathPart, (part, pathPart) ∈ (route.splitOn '/').zip (path.splitOn '/') →
        isPlaceholder part = false → part = pathPart) ∧
    ((extractParams route path).entries ≠ [] →
      (∀ name, name ∈ extractParams route path ↔
        ∃ part ∈ route.splitOn '/', isPlaceholder part = true ∧ trimBraces part = name) ∧
      ∀ name value, (extractParams route path).lookup name = some value ↔
        ∃ before part after, (route.splitOn '/').zip (path.splitOn '/') =
            before ++ (part, value) :: after ∧
          isPlaceholder part = true ∧ trimBraces part = name ∧
          ∀ later ∈ after, isPlaceholder later.1 = true → trimBraces later.1 ≠ name) := by
  have hbinds : (extractParams route path).entries ≠ [] ↔ Binds route path := by
    rw [← patternMatches_iff, patternMatches, decide_eq_true_iff]
  refine ⟨?_, fun hextracted => ?_⟩
  · rw [hbinds, Binds, List.forall₂_iff_zip]
    constructor
    · rintro ⟨⟨hlength, hagree⟩, hplace⟩
      refine ⟨hlength, hplace, fun part pathPart hmem hno => ?_⟩
      rcases hagree hmem with h | h
      · rw [h] at hno
        cases hno
      · exact h
    · rintro ⟨hlength, hplace, hagree⟩
      refine ⟨⟨hlength, fun {part pathPart} hmem => ?_⟩, hplace⟩
      cases hcase : isPlaceholder part with
      | true => exact .inl rfl
      | false => exact .inr (hagree part pathPart hmem hcase)
  · have hroute := hbinds.1 hextracted
    have hlookup := fun name => extractParams_lookup hroute name
    refine ⟨fun name => ?_, fun name value => ?_⟩
    · have hnone : segment route path name = none ↔ name ∉ placeholders route :=
        segment_eq_none_iff hroute.1.length_eq
      rw [← AList.lookup_isSome, hlookup, ← Option.ne_none_iff_isSome, ne_eq, hnone, not_not]
      unfold placeholders
      simp only [List.mem_map, List.mem_filter, and_assoc]
    · rw [hlookup, segment, pathBindings, Writes.last_filterMap_eq_some_iff]
      constructor
      · rintro ⟨before, ⟨part, pathPart⟩, after, hsplit, hpart, hafter⟩
        obtain ⟨hplace, hnamed⟩ := (bindSegment_eq_some_iff _ _).1 hpart
        obtain ⟨hname, rfl⟩ := Prod.mk.inj hnamed
        refine ⟨before, part, after, hsplit, hplace, hname, fun later hlater hcase => ?_⟩
        exact hafter later hlater _ ((bindSegment_eq_some_iff _ _).2 ⟨hcase, rfl⟩)
      · rintro ⟨before, part, after, hsplit, hplace, hname, hafter⟩
        have hpart : bindSegment (part, value) = some (name, value) :=
          (bindSegment_eq_some_iff _ _).2 ⟨hplace, by rw [hname]⟩
        refine ⟨before, (part, value), after, hsplit, hpart, fun later hlater w hw => ?_⟩
        obtain ⟨hcase, rfl⟩ := (bindSegment_eq_some_iff _ _).1 hw
        exact hafter later hlater hcase

/-! ## Targets -/

/-- The path of a target is what is in front of its first question mark, and the query what is
behind it. -/
lemma splitOnce_query (target : Str) :
    targetPath target = target.takeWhile (· ≠ '?') ∧
      queryBindings target = ((target.dropWhile (· ≠ '?')).tail.splitOn '&').filterMap
        (Str.splitOnce '=') := by
  unfold targetPath queryBindings
  cases hsplit : Str.splitOnce '?' target with
  | none =>
    have hnot := Str.splitOnce_eq_none_iff.1 hsplit
    have hall : ∀ c ∈ target, decide (c ≠ '?') = true := fun c hc =>
      decide_eq_true fun h => hnot (h ▸ hc)
    rw [List.takeWhile_eq_self_iff.2 hall, List.dropWhile_eq_nil_iff.2 hall]
    exact ⟨rfl, rfl⟩
  | some p =>
    obtain ⟨path, query⟩ := p
    obtain ⟨rfl, hnot⟩ := Str.splitOnce_eq_some_iff.1 hsplit
    have hall : ∀ c ∈ path, decide (c ≠ '?') = true := fun c hc =>
      decide_eq_true fun h => hnot (h ▸ hc)
    rw [List.takeWhile_append_of_pos hall, List.dropWhile_append_of_pos hall,
      List.takeWhile_cons_of_neg (by decide), List.dropWhile_cons_of_neg (by decide),
      List.append_nil]
    exact ⟨rfl, rfl⟩

/-- **The parameters of a target are written in one go**: first the segments that the first pattern
that binds the path has for its placeholders, then the pairs of the query. -/
theorem targetParams_eq_foldl (method : RequestType) (target : Str) (routes : Routes H U) :
    targetParams method target routes =
      (((selectPattern routes method (targetPath target)).map fun e =>
          pathBindings e.1.2 (targetPath target)).getD [] ++ queryBindings target).foldl
        (fun m w => m.insert w.1 w.2) ∅ := by
  have hfirst : firstParams method (targetPath target) routes.keys =
      (((selectPattern routes method (targetPath target)).map fun e =>
        pathBindings e.1.2 (targetPath target)).getD []).foldl
          (fun m w => m.insert w.1 w.2) ∅ := by
    rw [firstParams_keys]
    change ((selectPattern routes method (targetPath target)).map _).getD ∅ = _
    cases hpattern : selectPattern routes method (targetPath target) with
    | none => rfl
    | some e => exact extractParams_eq_foldl (selectPattern_eq_some hpattern).2.2
  unfold targetParams queryBindings
  rw [List.foldl_append, ← hfirst]
  cases Str.splitOnce '?' target with
  | none => rfl
  | some p => exact insertQuery_eq_foldl p.2 _

end Httpageboy
