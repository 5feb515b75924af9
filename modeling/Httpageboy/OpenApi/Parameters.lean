import Httpageboy.OpenApi.Emit
import Httpageboy.Routing.Params

set_option relaxedAutoImplicit false
set_option autoImplicit false

/-!
# Documented and bound path parameters

The generator documents what stands in braces anywhere in a route; the router binds the segments
that are in braces as a whole, and trims all braces off them. Here is when both find the same
names.

## Main definitions

* `Httpageboy.OpenApi.Closed` — no brace is open at the end of a text.
* `Httpageboy.OpenApi.Braced` — a name stands in braces somewhere in a text.
* `Httpageboy.OpenApi.IsPlain` — a segment that is a name in braces.
* `Httpageboy.OpenApi.Agreeing` — the routes on which the generator and the router agree.

## Main results

* `Httpageboy.OpenApi.mem_pathParams_iff` — the names that are documented.
* `Httpageboy.OpenApi.agreeing_of_plain` — braces in plain segments do no harm.
* `Httpageboy.OpenApi.documented_iff_agreeing` — when they are those that are bound.
-/

namespace Httpageboy

namespace OpenApi

/-! ## Names in braces -/

/-- No brace is open at the end of the text: there is a closing one behind each opening one. -/
def Closed (text : Str) : Prop := ∀ front back, text = front ++ '{' :: back → '}' ∈ back

/-- The name stands in braces in the text: the opening one is not within other braces, and the
closing one is the next. -/
def Braced (text name : Str) : Prop :=
  ∃ front back, text = front ++ '{' :: name ++ '}' :: back ∧ Closed front ∧ '}' ∉ name

/-- A text without an opening brace leaves none open. -/
lemma closed_of_notMem {text : Str} (h : '{' ∉ text) : Closed text := by
  rintro front back rfl
  simp at h

/-- The end of a closed text is closed. -/
lemma Closed.suffix {front text : Str} (h : Closed (front ++ text)) : Closed text := by
  rintro front' back rfl
  exact h (front ++ front') back (by simp)

/-- Behind a closing brace only what follows counts. -/
lemma closed_append_cons_iff {front back : Str} : Closed (front ++ '}' :: back) ↔ Closed back := by
  constructor
  · intro h
    rintro front' back' rfl
    exact h (front ++ '}' :: front') back' (by simp)
  · intro h front' back' heq
    rcases List.append_eq_append_iff.1 heq with ⟨as, rfl, hback⟩ | ⟨bs, rfl, hrest⟩
    · cases as with
      | nil => simp at hback
      | cons a as =>
        obtain ⟨-, rfl⟩ := List.cons.inj hback
        exact h as back' rfl
    · cases bs with
      | nil => simp at hrest
      | cons b bs =>
        obtain ⟨-, rfl⟩ := List.cons.inj hrest
        simp

/-- Something in braces is found if there is a closing brace behind an opening one. -/
lemma nextBraces_ne_none {front rest : Str} (h : '}' ∈ rest) :
    nextBraces (front ++ '{' :: rest) ≠ none := by
  unfold nextBraces
  cases hopen : Str.splitOnce '{' (front ++ '{' :: rest) with
  | none => simp [Str.splitOnce_eq_none_iff] at hopen
  | some p =>
    obtain ⟨before, behind⟩ := p
    obtain ⟨heq, hbefore⟩ := Str.splitOnce_eq_some_iff.1 hopen
    have hbehind : '}' ∈ behind := by
      rcases List.append_eq_append_iff.1 heq with ⟨as, rfl, hrest⟩ | ⟨bs, rfl, hrest⟩
      · cases as with
        | nil => exact (List.cons.inj hrest).2 ▸ h
        | cons a as =>
          obtain ⟨rfl, -⟩ := List.cons.inj hrest
          simp at hbefore
      · cases bs with
        | nil => exact (List.cons.inj hrest).2 ▸ h
        | cons b bs =>
          rw [(List.cons.inj hrest).2]
          exact List.mem_append_right _ (List.mem_cons_of_mem _ h)
    simp only [Option.bind_eq_bind, Option.bind_some, ne_eq, Str.splitOnce_eq_none_iff, not_not]
    exact hbehind

/-- **The names that are documented** are those that stand in braces in the route.

**Proof sketch.** Induction along the search. The first opening brace is closed by the next closing
one; any other pair of the route is behind it, since its opening brace is not within that one. -/
theorem mem_pathParams_iff {path name : Str} : name ∈ pathParams path ↔ Braced path name := by
  induction path using pathParams.induct generalizing name with
  | case1 path hnext =>
    rw [pathParams_of_none hnext]
    simp only [List.not_mem_nil, false_iff]
    rintro ⟨front, back, rfl, -, hname⟩
    rw [List.append_assoc, List.cons_append] at hnext
    exact nextBraces_ne_none (by simp) hnext
  | case2 path first rest hnext ih =>
    obtain ⟨before, hpath, hbefore, hfirst⟩ := nextBraces_eq_some_iff.1 hnext
    rw [pathParams_of_some hnext, List.mem_cons, ih]
    subst hpath
    constructor
    · rintro (rfl | ⟨front, back, rfl, hclosed, hname⟩)
      · exact ⟨before, rest, rfl, closed_of_notMem hbefore, hfirst⟩
      · refine ⟨before ++ '{' :: first ++ '}' :: front, back, by simp, ?_, hname⟩
        exact closed_append_cons_iff.2 hclosed
    · rintro ⟨front, back, heq, hclosed, hname⟩
      rw [List.append_assoc, List.append_assoc, List.cons_append, List.cons_append] at heq
      by_cases hopen : '{' ∈ front
      · -- The pair is behind the closing brace of the first one.
        obtain ⟨a, b, rfl, ha⟩ := List.eq_append_cons_of_mem hopen
        obtain ⟨x, y, rfl, hx⟩ := List.eq_append_cons_of_mem (hclosed a b rfl)
        rw [List.append_assoc, List.cons_append] at heq
        obtain ⟨-, hbehind⟩ := Str.append_cons_inj heq hbefore ha
        rw [List.append_assoc, List.cons_append] at hbehind
        obtain ⟨-, rfl⟩ := Str.append_cons_inj hbehind hfirst hx
        refine .inr ⟨y, back, by simp, ?_, hname⟩
        have hbraces : Closed ((a ++ '{' :: x) ++ '}' :: y) := by simpa using hclosed
        exact closed_append_cons_iff.1 hbraces
      · obtain ⟨-, hbehind⟩ := Str.append_cons_inj heq hbefore hopen
        exact .inl (Str.append_cons_inj hbehind hfirst hname).1.symm

/-! ## Braces and segments -/

/-- A segment that is a name in braces, without further braces at the ends of the name. -/
def IsPlain (part : Str) : Prop :=
  ∃ name, part = '{' :: name ++ ['}'] ∧ '}' ∉ name ∧ name.head? ≠ some '{' ∧
    name.getLast? ≠ some '{'

/-- The routes on which the generator and the router agree: no slash stands between an opening
brace and the next closing one. Apart from the plain segments, the names that a segment has in
braces are names of placeholders, and the name of a placeholder stands in braces in some
segment. -/
structure Agreeing (route : Str) : Prop where
  unbroken : ∀ front name back, route = front ++ '{' :: name ++ '}' :: back → '}' ∉ name →
    '/' ∉ name
  documented : ∀ part ∈ route.splitOn '/', ¬ IsPlain part →
    ∀ name, Braced part name → name ∈ placeholders route
  bound : ∀ part ∈ route.splitOn '/', ¬ IsPlain part → isPlaceholder part = true →
    ∃ part' ∈ route.splitOn '/', Braced part' (trimBraces part)

/-- Behind a text whose braces are not closed, the name in braces is a longer one. -/
lemma exists_braced (front name back : Str) (hname : '}' ∉ name) :
    ∃ name', name <:+ name' ∧ Braced (front ++ '{' :: name ++ '}' :: back) name' := by
  induction hn : front.length using Nat.strongRecOn generalizing front name with
  | ind n ih =>
    by_cases hclosed : Closed front
    · exact ⟨name, List.suffix_rfl, front, back, rfl, hclosed, hname⟩
    · unfold Closed at hclosed
      push Not at hclosed
      obtain ⟨a, b, rfl, hb⟩ := hclosed
      have hlonger : '}' ∉ b ++ '{' :: name := by simp [hb, hname]
      obtain ⟨name', hsuffix, hbraced⟩ := ih a.length (by rw [← hn]; simp) a _ hlonger rfl
      refine ⟨name', ((List.suffix_cons _ _).trans (List.suffix_append _ _)).trans hsuffix, ?_⟩
      simpa using hbraced

/-- Where no slash stands in braces, the names in braces are those of the segments. -/
lemma braced_iff {route : Str}
    (h : ∀ front name back, route = front ++ '{' :: name ++ '}' :: back → '}' ∉ name →
      '/' ∉ name) (name : Str) :
    Braced route name ↔ ∃ part ∈ route.splitOn '/', Braced part name := by
  constructor
  · rintro ⟨front, back, rfl, hclosed, hname⟩
    have hslash : '/' ∉ '{' :: name ++ ['}'] := by simp [h _ _ _ rfl hname]
    obtain ⟨front', back', ⟨u, rfl⟩, hmem⟩ := Str.exists_mem_splitOn hslash front back
    refine ⟨_, by simpa using hmem, front', back', by simp, hclosed.suffix, hname⟩
  · rintro ⟨part, hpart, front, back, rfl, hclosed, hname⟩
    obtain ⟨u, v, rfl, hu⟩ := Str.exists_of_mem_splitOn hpart
    refine ⟨u ++ front, back ++ v, by simp, ?_, hname⟩
    -- A brace that is open in front of the segment would have a slash behind it.
    intro a b heq
    rcases List.append_eq_append_iff.1 heq with ⟨as, rfl, hfront⟩ | ⟨bs, rfl, hrest⟩
    · exact hclosed as b hfront
    · cases bs with
      | nil => exact hclosed [] b hrest.symm
      | cons c bs =>
        rw [List.cons_append] at hrest
        obtain ⟨rfl, rfl⟩ := List.cons.inj hrest
        by_contra hopen
        have hslash : '/' ∈ bs := by
          rcases hu with hnil | ⟨u, hlast⟩
          · simp at hnil
          · have hend : bs.getLast?.getD '{' = '/' := by
              simpa [List.getLast?_append, List.getLast?_cons] using congrArg List.getLast? hlast
            cases hbs : bs.getLast? with
            | none => simp [hbs] at hend
            | some d =>
              rw [hbs, Option.getD_some] at hend
              exact hend ▸ List.mem_of_getLast? hbs
        have hnone := h a (bs ++ front ++ '{' :: name) (back ++ v) (by simp) (by
          simp only [List.mem_append, not_or] at hopen
          simp [hopen, hname])
        exact hnone (by simp [hslash])

/-- The name of the placeholder that a plain segment is. -/
lemma trimBraces_plain {name : Str} (hname : '}' ∉ name) (hhead : name.head? ≠ some '{')
    (hlast : name.getLast? ≠ some '{') : trimBraces ('{' :: name ++ ['}']) = name := by
  unfold trimBraces
  cases name with
  | nil => decide
  | cons c name =>
    have hc : c ≠ '{' ∧ c ≠ '}' := by
      refine ⟨fun h => hhead (by simp [h]), fun h => hname (by simp [h])⟩
    rw [List.cons_append, List.dropWhile_cons_of_pos (by simp), List.cons_append,
      List.dropWhile_cons_of_neg (by simp [hc]), ← List.cons_append,
      List.rdropWhile_concat_pos _ _ _ (by simp), List.rdropWhile_eq_self_iff]
    intro hne
    have hend : (c :: name).getLast hne ∈ c :: name := List.getLast_mem hne
    have hnot : (c :: name).getLast hne ≠ '{' := fun h =>
      hlast (by rw [List.getLast?_eq_some_getLast hne, h])
    have hnot' : (c :: name).getLast hne ≠ '}' := fun h => hname (h ▸ hend)
    simp [hnot, hnot']

/-- The only name in a plain segment is that of its placeholder. -/
lemma braced_plain_iff {part : Str} (h : IsPlain part) (name : Str) :
    Braced part name ↔ name = trimBraces part := by
  obtain ⟨plain, rfl, hplain, hhead, hlast⟩ := h
  rw [trimBraces_plain hplain hhead hlast]
  constructor
  · rintro ⟨front, back, heq, hclosed, hname⟩
    cases front with
    | nil =>
      have hinner : plain ++ '}' :: [] = name ++ '}' :: back := by simpa using heq
      exact (Str.append_cons_inj hinner hplain hname).1.symm
    | cons c front =>
      -- The first brace would have to be closed before the second one.
      obtain ⟨rfl, hrest⟩ : c = '{' ∧ plain ++ ['}'] = front ++ '{' :: name ++ '}' :: back := by
        have := List.cons.inj (by simpa using heq : '{' :: (plain ++ ['}']) =
          c :: (front ++ '{' :: (name ++ '}' :: back)))
        exact ⟨this.1.symm, by simpa using this.2⟩
      obtain ⟨x, y, rfl, hx⟩ := List.eq_append_cons_of_mem (hclosed [] front rfl)
      have hinner : plain ++ '}' :: [] = x ++ '}' :: (y ++ '{' :: name ++ '}' :: back) := by
        simpa using hrest
      have hnone := (Str.append_cons_inj hinner hplain hx).2
      simp at hnone
  · rintro rfl
    exact ⟨[], [], by simp, closed_of_notMem List.not_mem_nil, hplain⟩

/-- A plain name in braces is a placeholder. -/
lemma isPlaceholder_of_plain {part : Str} (h : IsPlain part) : isPlaceholder part = true := by
  obtain ⟨name, rfl, -⟩ := h
  simp [isPlaceholder, List.getLast?_cons]

/-! ## Agreement -/

/-- The names of the placeholders of a route. -/
lemma mem_placeholders_iff {route name : Str} :
    name ∈ placeholders route ↔
      ∃ part ∈ route.splitOn '/', isPlaceholder part = true ∧ trimBraces part = name := by
  unfold placeholders
  simp only [List.mem_map, List.mem_filter, and_assoc]

/-- The name of a placeholder contains no slash. -/
lemma slash_notMem_of_placeholder {route name : Str} (h : name ∈ placeholders route) :
    '/' ∉ name := by
  obtain ⟨part, hpart, -, rfl⟩ := mem_placeholders_iff.1 h
  have hslash := Str.notMem_of_mem_splitOn hpart
  intro hmem
  exact hslash ((List.dropWhile_suffix _).mem ((List.rdropWhile_prefix _ _).mem hmem))

/-- The generator documents the placeholders of a route exactly when the route is one on which both
agree.

**Proof sketch.** What stands in braces in the route is documented, and placeholders contain no
slash: so no slash may stand in braces, and then the names in braces are those of the segments. In
a plain segment this is the name of the placeholder. -/
lemma pathParams_placeholders_iff (route : Str) :
    (∀ name, name ∈ pathParams route ↔ name ∈ placeholders route) ↔ Agreeing route := by
  simp only [mem_pathParams_iff]
  constructor
  · intro h
    have hunbroken : ∀ front name back, route = front ++ '{' :: name ++ '}' :: back →
        '}' ∉ name → '/' ∉ name := by
      rintro front name back rfl hname
      obtain ⟨name', hsuffix, hbraced⟩ := exists_braced front name back hname
      exact fun hmem => slash_notMem_of_placeholder ((h name').1 hbraced) (hsuffix.mem hmem)
    have hbraced := braced_iff hunbroken
    refine ⟨hunbroken, fun part hpart _ name hname => ?_, fun part hpart _ hplace => ?_⟩
    · exact (h name).1 ((hbraced name).2 ⟨part, hpart, hname⟩)
    · exact (hbraced _).1 ((h _).2 (mem_placeholders_iff.2 ⟨part, hpart, hplace, rfl⟩))
  · intro h name
    rw [braced_iff h.unbroken]
    constructor
    · rintro ⟨part, hpart, hname⟩
      by_cases hplain : IsPlain part
      · obtain rfl := (braced_plain_iff hplain name).1 hname
        exact mem_placeholders_iff.2 ⟨part, hpart, isPlaceholder_of_plain hplain, rfl⟩
      · exact h.documented part hpart hplain name hname
    · intro hname
      obtain ⟨part, hpart, hplace, rfl⟩ := mem_placeholders_iff.1 hname
      by_cases hplain : IsPlain part
      · exact ⟨part, hpart, (braced_plain_iff hplain _).2 rfl⟩
      · exact h.bound part hpart hplain hplace

/-- **Both agree on a route whose braces stand in plain segments only.**

**Proof sketch.** An opening brace whose name had a slash in it would be in a segment that the slash
ends, in front of any closing brace. The segments that are not plain have no braces at all. -/
theorem agreeing_of_plain {route : Str}
    (h : ∀ part ∈ route.splitOn '/', '{' ∈ part ∨ '}' ∈ part → IsPlain part) : Agreeing route where
  unbroken := by
    rintro front name back rfl hname hslash
    obtain ⟨first, rest, rfl, hfirst⟩ := List.eq_append_cons_of_mem hslash
    have hnot : '/' ∉ '{' :: first := by simp [hfirst]
    obtain ⟨pieces, piece, -, hpieces⟩ := Str.exists_splitOn_append hnot front
    have hmem : piece ++ '{' :: first ∈
        (front ++ '{' :: (first ++ '/' :: rest) ++ '}' :: back).splitOn '/' := by
      have hroute : front ++ '{' :: (first ++ '/' :: rest) ++ '}' :: back =
          (front ++ '{' :: first) ++ '/' :: (rest ++ '}' :: back) := by simp
      rw [hroute, List.splitOn_append_cons_self, hpieces]
      simp
    obtain ⟨plain, hplain, -⟩ := h _ hmem (.inl (by simp))
    -- a plain segment ends with a closing brace, and there is none behind the opening one
    have hlast := congrArg List.getLast? hplain
    rw [List.getLast?_append_of_ne_nil _ (List.cons_ne_nil _ _), List.getLast?_concat] at hlast
    have hclose := List.mem_of_getLast? hlast
    simp only [List.mem_append, List.mem_cons, not_or] at hname
    rcases List.mem_cons.1 hclose with heq | hmem'
    · revert heq
      decide
    · exact hname.1 hmem'
  documented := by
    rintro part hpart hplain name ⟨front, back, rfl, -⟩
    exact absurd (h _ hpart (.inl (by simp))) hplain
  bound := by
    intro part hpart hplain hplace
    have hopen : part.head? = some '{' := by
      unfold isPlaceholder at hplace
      simp only [decide_eq_true_eq, Bool.and_eq_true] at hplace
      exact hplace.1
    exact absurd (h part hpart (.inl (List.mem_of_mem_head? hopen))) hplain

/-- **When the documented path parameters are those that the router binds**: for a path from which
the route extracts something, exactly when no slash stands in braces, every name that stands in
braces within a segment is the name of a placeholder, and every placeholder's name stands in braces
within a segment. Segments that are just a name in braces cause no difference. -/
theorem documented_iff_agreeing {route path : Str}
    (h : (extractParams route path).entries ≠ []) :
    (∀ name, name ∈ pathParams route ↔ name ∈ extractParams route path) ↔ Agreeing route := by
  have hbinds : Binds route path := by
    rwa [← patternMatches_iff, patternMatches, decide_eq_true_iff]
  have hbound : ∀ name, name ∈ extractParams route path ↔ name ∈ placeholders route := by
    intro name
    rw [← AList.lookup_isSome, extractParams_lookup hbinds, ← Option.ne_none_iff_isSome, ne_eq,
      segment_eq_none_iff hbinds.1.length_eq, not_not]
  simp only [hbound]
  exact pathParams_placeholders_iff route

/-- The route `/users/{id}` is one on which the generator and the router agree. -/
theorem usersRoute_documented :
    Agreeing "/users/\x7bid\x7d".toList ∧
      ∀ name, name ∈ pathParams "/users/\x7bid\x7d".toList ↔
        name ∈ extractParams "/users/\x7bid\x7d".toList "/users/7".toList := by
  have hparts : "/users/\x7bid\x7d".toList.splitOn '/' =
      [[], "users".toList, "\x7bid\x7d".toList] := by decide
  have hagreeing : Agreeing "/users/\x7bid\x7d".toList := by
    refine agreeing_of_plain fun part hpart hbrace => ?_
    rw [hparts] at hpart
    simp only [List.mem_cons, List.not_mem_nil, or_false] at hpart
    rcases hpart with rfl | rfl | rfl
    · exact absurd hbrace (by decide)
    · exact absurd hbrace (by decide)
    · exact ⟨"id".toList, rfl, by decide, by decide, by decide⟩
  exact ⟨hagreeing, (documented_iff_agreeing (by decide)).2 hagreeing⟩

/-- The route `/{id}/x{y}` documents the parameter `y`, which the router never binds. -/
theorem embeddedName_not_bound :
    ¬ ∀ route path : Str, (extractParams route path).entries ≠ [] →
      ∀ name, name ∈ pathParams route ↔ name ∈ extractParams route path := by
  intro h
  have hfirst : nextBraces "/\x7bid\x7d/x\x7by\x7d".toList =
      some ("id".toList, "/x\x7by\x7d".toList) := by decide
  have hsecond : nextBraces "/x\x7by\x7d".toList = some ("y".toList, []) := by decide
  have hname := h "/\x7bid\x7d/x\x7by\x7d".toList "/7/x\x7by\x7d".toList (by decide) "y".toList
  rw [pathParams_of_some hfirst, pathParams_of_some hsecond] at hname
  have hbound := hname.1 (by simp)
  revert hbound
  decide

end OpenApi

end Httpageboy
