import Httpageboy.OpenApi.Statements

set_option relaxedAutoImplicit false
set_option autoImplicit false

/-!
# Invocations of the route macro

An invocation `route!("path", Rt::METHOD, handler)`, with or without a protocol and with any white
space between its words, is read right by the generator unless its path or the text in front of it
on its line gets in the way: the generator takes the first `Rt::` of the statement, counts the
parentheses of the path, and trims the lines of a path that has several.

## Main definitions

* `Httpageboy.OpenApi.Invocation` — an invocation and its layout.
* `Httpageboy.OpenApi.ReadsRight` — nothing gets in the way of reading it.

## Main results

* `Httpageboy.OpenApi.readTriple_iff` — the invocations that are read as what they are.
-/

namespace Httpageboy

namespace OpenApi

open Search Layout

/-! ## Invocations -/

/-- A name: not empty, and without white space and the punctuation of an invocation. All
identifiers are names. -/
structure IsName (s : Str) : Prop where
  ne_nil : s ≠ []
  solid : ∀ c ∈ s, Str.isWhitespace c = false
  plain : ∀ c ∈ s, c ∉ "\"(),:".toList

/-- `, Rt::METHOD, handler` with white space around its words. -/
def callText (gap₁ gap₂ gap₃ gap₄ gap₅ method handler : Str) : Str :=
  gap₁ ++ ([','] ++ (gap₂ ++ ((methodMark ++ method) ++ (gap₃ ++ ([','] ++ (gap₄ ++ (handler ++
    gap₅)))))))

/-- `route!("path", Rt::METHOD, handler)` or `route!("path", Rt::METHOD, handler, protocol)`, with
any white space between the words. -/
structure Invocation where
  path : Str
  method : Str
  handler : Str
  protocol : Option Str
  gap : Fin 6 → Str
  quoteFree : '"' ∉ path
  isName_method : IsName method
  isName_handler : IsName handler
  isSpace_gap : ∀ i, IsSpace (gap i)

namespace Invocation

variable (inv : Invocation)

/-- The path in its quotes. -/
def quotedPath : Str := '"' :: inv.path ++ ['"']

/-- What stands between the path and the character that ends the handler. -/
def middle : Str :=
  callText (inv.gap 1) (inv.gap 2) (inv.gap 3) (inv.gap 4) (inv.gap 5) inv.method inv.handler

/-- The end of the invocation, from the character that ends the handler on. -/
def closing : Str :=
  match inv.protocol with
  | none => [')']
  | some protocol => ',' :: protocol ++ [')']

/-- The text of the invocation behind its opening parenthesis. -/
def opened : Str := inv.gap 0 ++ (inv.quotedPath ++ (inv.middle ++ inv.closing))

/-- The text of the invocation. -/
def text : Str := routeCall ++ inv.opened

/-- The lower-cased method and the handler. -/
def call : Str × Str := (Str.toAsciiLowercase inv.method, inv.handler)

/-- The path, the lower-cased method and the handler. -/
def triple : Str × Str × Str := (inv.path, inv.call)

end Invocation

/-! ## Words -/

/-- A name is checked letter by letter. -/
lemma isName_of_all {s : Str} (hne : s ≠ [])
    (h : (s.all fun c => decide (Str.isWhitespace c = false ∧ c ∉ "\"(),:".toList)) = true) :
    IsName s :=
  ⟨hne, fun c hc => (Str.forall_mem_of_all h c hc).1, fun c hc => (Str.forall_mem_of_all h c hc).2⟩

/-- A name is a word. -/
lemma IsName.isWord {s : Str} (h : IsName s) : IsWord s := by
  refine ⟨fun hmem => absurd (h.solid _ hmem) (by decide), ?_, ?_⟩
  · obtain ⟨c, rest, rfl⟩ := List.exists_cons_of_ne_nil h.ne_nil
    exact ⟨c, rest, rfl, h.solid c List.mem_cons_self⟩
  · have hlast := List.dropLast_append_getLast h.ne_nil
    exact ⟨_, _, hlast.symm, h.solid _ (List.getLast_mem h.ne_nil)⟩

/-- A character that is no white space is a word. -/
lemma isWord_singleton {c : Char} (h : Str.isWhitespace c = false) : IsWord [c] := by
  refine ⟨fun hmem => ?_, ⟨c, [], rfl, h⟩, ⟨[], c, rfl, h⟩⟩
  rw [← List.mem_singleton.1 hmem] at h
  exact absurd h (by decide)

/-- What ends a handler is a word. -/
lemma IsStop.isWord {c : Char} (h : IsStop c) : IsWord [c] := by
  rcases h with rfl | rfl
  · exact isWord_singleton (by decide)
  · exact isWord_singleton (by decide)

/-- The call is a word. -/
lemma isWord_routeCall : IsWord routeCall :=
  ⟨by decide, ⟨'r', "oute!(".toList, by decide, by decide⟩,
    ⟨"route!".toList, '(', by decide, by decide⟩⟩

/-- A path on one line is a word in its quotes. -/
lemma isWord_quotedPath {inv : Invocation} (h : '\n' ∉ inv.path) : IsWord inv.quotedPath :=
  ⟨by simp [Invocation.quotedPath, h], ⟨'"', _, rfl, by decide⟩,
    ⟨'"' :: inv.path, '"', rfl, by decide⟩⟩

/-- A name behind the mark of a method is a word. -/
lemma IsName.isWord_marked {s : Str} (h : IsName s) : IsWord (methodMark ++ s) := by
  obtain ⟨rest, c, hends, hc⟩ := h.isWord.ends
  refine ⟨?_, ⟨'R', "t::".toList ++ s, by rw [← List.cons_append]; rfl, by decide⟩,
    ⟨methodMark ++ rest, c, by rw [hends, List.append_assoc], hc⟩⟩
  rw [List.mem_append, not_or]
  exact ⟨by decide, h.isWord.oneLine⟩

/-- Between the words of an invocation white space stays white space. -/
lemma oneLine_callText {gap₁ gap₂ gap₃ gap₄ gap₅ method handler : Str} (h₁ : IsSpace gap₁)
    (h₂ : IsSpace gap₂) (h₃ : IsSpace gap₃) (h₄ : IsSpace gap₄) (h₅ : IsSpace gap₅)
    (hmethod : IsName method) (hhandler : IsName handler) {stop : Char} (hstop : IsStop stop)
    (rest : Str) :
    ∃ w₁ w₂ w₃ w₄ w₅, IsSpace w₁ ∧ IsSpace w₂ ∧ IsSpace w₃ ∧ IsSpace w₄ ∧ IsSpace w₅ ∧
      oneLine (callText gap₁ gap₂ gap₃ gap₄ gap₅ method handler ++ stop :: rest) =
        callText w₁ w₂ w₃ w₄ w₅ method handler ++ stop :: oneLine rest := by
  have hcomma : IsWord [','] := isWord_singleton (by decide)
  obtain ⟨w₅, hw₅, e₅⟩ := oneLine_space h₅ hstop.isWord rest
  obtain ⟨w₄, hw₄, e₄⟩ := oneLine_space h₄ hhandler.isWord (gap₅ ++ ([stop] ++ rest))
  obtain ⟨w₃, hw₃, e₃⟩ := oneLine_space h₃ hcomma (gap₄ ++ (handler ++ (gap₅ ++ ([stop] ++ rest))))
  obtain ⟨w₂, hw₂, e₂⟩ := oneLine_space h₂ hmethod.isWord_marked
    (gap₃ ++ ([','] ++ (gap₄ ++ (handler ++ (gap₅ ++ ([stop] ++ rest))))))
  obtain ⟨w₁, hw₁, e₁⟩ := oneLine_space h₁ hcomma (gap₂ ++ ((methodMark ++ method) ++
    (gap₃ ++ ([','] ++ (gap₄ ++ (handler ++ (gap₅ ++ ([stop] ++ rest))))))))
  refine ⟨w₁, w₂, w₃, w₄, w₅, hw₁, hw₂, hw₃, hw₄, hw₅, ?_⟩
  have hleft : callText gap₁ gap₂ gap₃ gap₄ gap₅ method handler ++ stop :: rest =
      gap₁ ++ ([','] ++ (gap₂ ++ ((methodMark ++ method) ++ (gap₃ ++ ([','] ++ (gap₄ ++
        (handler ++ (gap₅ ++ ([stop] ++ rest))))))))) := by
    simp [callText]
  rw [hleft, e₁, e₂, e₃, e₄, e₅]
  simp [callText]

/-! ## Reading the method and the handler -/

/-- White space has no mark in it. -/
lemma not_mark_of_isSpace {s : Str} (h : IsSpace s) : ¬ methodMark <:+: s := by
  intro hin
  have hmem : 'R' ∈ s := hin.sublist.subset (by decide)
  exact absurd (h 'R' hmem) (by decide)

/-- The method and the handler of an invocation are read if its `Rt::` is the first one. -/
lemma readCall_callText {gap₁ gap₂ gap₃ gap₄ gap₅ method handler : Str} (h₁ : IsSpace gap₁)
    (h₂ : IsSpace gap₂) (h₃ : IsSpace gap₃) (h₄ : IsSpace gap₄) (h₅ : IsSpace gap₅)
    (hmethod : IsName method) (hhandler : IsName handler) {stop : Char} (hstop : IsStop stop)
    (rest : Str) :
    readCall (callText gap₁ gap₂ gap₃ gap₄ gap₅ method handler ++ stop :: rest) =
      some (Str.toAsciiLowercase method, handler) := by
  have hcall : callText gap₁ gap₂ gap₃ gap₄ gap₅ method handler ++ stop :: rest =
      gap₁ ++ ',' :: (gap₂ ++ methodMark ++
        ((method ++ gap₃) ++ ',' :: (gap₄ ++ handler ++ gap₅) ++ stop :: rest)) := by
    simp [callText]
  have hcut : cut methodMark (gap₂ ++ methodMark ++
      ((method ++ gap₃) ++ ',' :: (gap₄ ++ handler ++ gap₅) ++ stop :: rest)) =
      some (gap₂, (method ++ gap₃) ++ ',' :: (gap₄ ++ handler ++ gap₅) ++ stop :: rest) := by
    have hnot := not_mark_of_isSpace h₂
    rw [methodMark_eq] at hnot ⊢
    exact cut_first (by decide) hnot _
  rw [hcall, readCall_append_cons (by decide) (not_mark_of_isSpace h₁), readCall_eq_some_iff]
  refine ⟨gap₂, _, _, stop, rest, hcut, ?_, hstop, ?_, ?_, ?_⟩
  · rw [List.mem_append, not_or]
    exact ⟨fun hmem => hmethod.plain _ hmem (by decide),
      fun hmem => absurd (h₃ _ hmem) (by decide)⟩
  · intro c hc
    simp only [List.mem_append] at hc
    rcases hc with (hmem | hmem) | hmem
    · exact not_isStop_of_isSpace h₄ c hmem
    · have hplain := hhandler.plain c hmem
      rintro (rfl | rfl) <;> exact hplain (by decide)
    · exact not_isStop_of_isSpace h₅ c hmem
  · have htrim := Str.trim_append (a := []) (fun c hc => absurd hc List.not_mem_nil)
      (Str.trim_of_forall hmethod.solid) h₃
    rw [List.nil_append] at htrim
    rw [htrim]
  · exact Str.trim_append h₄ (Str.trim_of_forall hhandler.solid) h₅

/-- The commas, closing parentheses and colons of a text. -/
def punctuation (s : Str) : Str := s.filter fun c => c = ',' ∨ c = ')' ∨ c = ':'

/-- The punctuation of a text is that of its parts. -/
@[simp]
lemma punctuation_append (s t : Str) : punctuation (s ++ t) = punctuation s ++ punctuation t :=
  List.filter_append _ _

/-- Punctuation is solid. -/
lemma punctuation_solid (s : Str) : punctuation (solid s) = punctuation s := by
  unfold punctuation solid
  rw [List.filter_filter]
  refine List.filter_congr fun c _ => ?_
  by_cases h : c = ',' ∨ c = ')' ∨ c = ':'
  · have hspace : Str.isWhitespace c = false := by
      rcases h with rfl | rfl | rfl <;> decide
    simp [hspace]
  · simp [h]

/-- Punctuation stays when a text is put on one line. -/
lemma punctuation_oneLine (s : Str) : punctuation (oneLine s) = punctuation s := by
  rw [← punctuation_solid, solid_oneLine, punctuation_solid]

/-- White space has no punctuation. -/
lemma punctuation_of_isSpace {s : Str} (h : IsSpace s) : punctuation s = [] := by
  rw [← punctuation_solid, solid_eq_nil_iff.2 h]
  rfl

/-- A name has no punctuation. -/
lemma IsName.punctuation_eq {s : Str} (h : IsName s) : punctuation s = [] := by
  refine List.filter_eq_nil_iff.2 fun c hc hpunct => h.plain c hc ?_
  rcases of_decide_eq_true hpunct with rfl | rfl | rfl <;> decide

/-- In an incomplete call nothing is read: behind the `Rt::` the end of the handler is missing.

**Proof sketch.** What is read has two colons, a comma and the end of the handler, one behind the
other; the call has one comma and two colons and one comma, and nothing else of this kind. -/
lemma readCall_unfinished {inv : Invocation} {s : Str} (h : s <+: inv.middle) (p : Str × Str) :
    readCall (oneLine s) ≠ some p := by
  intro hread
  obtain ⟨u, m, text, stop, rest, hcut, -, hstop, -, -, -⟩ := readCall_eq_some_iff.1 hread
  have hmiddle : punctuation inv.middle = [',', ':', ':', ','] := by
    have hmark : punctuation methodMark = [':', ':'] := by decide
    have hcomma : punctuation [','] = [','] := by decide
    simp only [Invocation.middle, callText, punctuation_append, hmark, hcomma,
      punctuation_of_isSpace (inv.isSpace_gap _), inv.isName_method.punctuation_eq,
      inv.isName_handler.punctuation_eq]
    rfl
  have hsub : (punctuation s).Sublist [',', ':', ':', ','] := by
    rw [← hmiddle]
    exact h.sublist.filter _
  rw [← punctuation_oneLine, (cut_eq_some_iff.1 hcut).1] at hsub
  have hpunct : ([':', ':', ',', stop] : Str) = punctuation [':', ':', ',', stop] := by
    rcases hstop with rfl | rfl <;> decide
  have hcolons : ([':', ':'] : Str).Sublist (u ++ methodMark) := by
    have hmark : ([':', ':'] : Str).Sublist methodMark := by decide
    exact hmark.trans (List.sublist_append_right _ _)
  have hends : ([',', stop] : Str).Sublist (m ++ ',' :: text ++ stop :: rest) := by
    have hcomma : ([','] : Str).Sublist (m ++ ',' :: text) := by simp
    have hstop : [stop].Sublist (stop :: rest) := by simp
    exact hcomma.append hstop
  have hkept : ([':', ':', ',', stop] : Str).Sublist
      (punctuation (u ++ methodMark ++ (m ++ ',' :: text ++ stop :: rest))) := by
    rw [hpunct]
    exact (hcolons.append hends).filter _
  have hsame := (hkept.trans hsub).eq_of_length rfl
  exact absurd (List.cons.inj hsame).1 (by decide)

/-! ## Reading the statement of an invocation -/

/-- Nothing gets in the way of reading an invocation behind the given text on its line: the path is
on one line; if there is an `Rt::` in front of the invocation, the same method and handler are
read there; if there is one in the path, they are read there; and otherwise the parentheses of the
path do not end the statement on a line in front of the end of the handler. -/
def ReadsRight (front : Str) (inv : Invocation) : Prop :=
  '\n' ∉ inv.path ∧
    if methodMark <:+: front then readCall front = some inv.call
    else if methodMark <:+: inv.path then readCall inv.path = some inv.call
    else closes 1 inv.path = false ∨ '\n' ∉ inv.middle

/-- The statement that begins on a line, in front of which there is the given text on this line. -/
def statementFrom (front behind : Str) : Option Str :=
  match behind.splitOn '\n' with
  | [] => none
  | first :: lines => (readStatement (Str.trim (front ++ first)) lines).map Prod.fst

/-- **The statement that begins with a `route!(`**: it takes lines up to the first one at the end
of which the parenthesis is closed. -/
lemma statementFrom_eq {front : Str} (h : ¬ routeCall <:+: front) (behind : Str) :
    (closes 1 behind = false → statementFrom front (routeCall ++ behind) = none) ∧
    (closes 1 behind = true → ∃ used rest, behind = used ++ rest ∧
      (rest = [] ∨ ∃ rest', rest = '\n' :: rest') ∧
      statementFrom front (routeCall ++ behind) =
        some (Str.trimStart front ++ routeCall ++ oneLine used) ∧
      closes 1 used = true ∧
      ∀ above line, used = above ++ '\n' :: line → '\n' ∉ line → closes 1 above = false) := by
  obtain ⟨first, lines, hlines⟩ := List.exists_cons_of_ne_nil (List.splitOn_ne_nil '\n' behind)
  have hnot : ∀ piece ∈ first :: lines, '\n' ∉ piece := by
    intro piece hpiece
    rw [← hlines] at hpiece
    exact Str.notMem_of_mem_splitOn hpiece
  obtain ⟨hfirst, hrest⟩ := List.forall_mem_cons.1 hnot
  have hstatement : statementFrom front (routeCall ++ behind) =
      (readStatement (Str.trimStart front ++ routeCall ++ oneLine first) lines).map Prod.fst := by
    have hsplit : (routeCall ++ behind).splitOn '\n' = (routeCall ++ first) :: lines := by
      rw [Str.splitOn_append isWord_routeCall.oneLine, hlines, List.modifyHead_cons]
    rw [statementFrom, hsplit]
    show (readStatement (Str.trim (front ++ (routeCall ++ first))) lines).map Prod.fst = _
    rw [trim_append_word front isWord_routeCall, oneLine_line hfirst]
  have htrimmed := not_routeCall_trimStart h
  have hbehind := eq_append_newLines hlines
  obtain ⟨hopen, htaken⟩ := readStatement_eq htrimmed first hrest
  rw [← hbehind] at hopen htaken
  refine ⟨fun hfalse => by rw [hstatement, hopen hfalse]; rfl, fun htrue => ?_⟩
  obtain ⟨used, rest, rfl, hread, hclosed, hmin⟩ := htaken htrue
  refine ⟨first ++ newLines used, newLines rest, ?_, ?_, ?_, hclosed, ?_⟩
  · rw [hbehind]
    simp [newLines]
  · cases rest with
    | nil => exact .inl rfl
    | cons line rest => exact .inr ⟨line ++ newLines rest, rfl⟩
  · rw [hstatement, hread]
    rfl
  · intro above line hused hline
    rcases List.eq_nil_or_concat used with rfl | ⟨used', last, rfl⟩
    · have hfeed : '\n' ∈ first := by
        rw [← List.append_nil first]
        exact hused ▸ by simp
      exact absurd hfeed hfirst
    · have hlast : '\n' ∉ last := hrest last (by simp)
      have hsplit : (first ++ newLines used') ++ '\n' :: last = above ++ '\n' :: line := by
        rw [← hused]
        simp [newLines]
      obtain ⟨rfl, -⟩ := Str.append_cons_inj_right hsplit hlast hline
      exact hmin used' last (by simp)

/-- The end of an invocation begins with the character that ends the handler. -/
lemma Invocation.exists_closing (inv : Invocation) :
    ∃ stop rest, inv.closing = stop :: rest ∧ IsStop stop := by
  unfold closing
  cases inv.protocol with
  | none => exact ⟨')', [], rfl, .inr rfl⟩
  | some protocol => exact ⟨',', protocol ++ [')'], rfl, .inl rfl⟩

/-- A line feed does not end a handler. -/
lemma IsStop.ne_newline {c : Char} (h : IsStop c) : c ≠ '\n' := by
  rcases h with rfl | rfl <;> decide

/-- Only the path of an invocation can have parentheses in front of the end of the handler. -/
lemma noParens_middle (inv : Invocation) : NoParens inv.middle := by
  have hgap := fun i => noParens_of_isSpace (inv.isSpace_gap i)
  have hname : ∀ {s : Str}, IsName s → NoParens s := by
    intro s hs c hc
    have hplain := hs.plain c hc
    constructor <;> (rintro rfl; exact hplain (by decide))
  have hcomma : NoParens [','] := by
    intro c hc
    rw [List.mem_singleton.1 hc]
    decide
  have hmark : NoParens methodMark := Str.forall_mem_of_all (by decide)
  intro c hc
  simp only [Invocation.middle, callText, List.mem_append] at hc
  rcases hc with hc | hc | hc | (hc | hc) | hc | hc | hc | hc | hc
  · exact hgap _ c hc
  · exact hcomma c hc
  · exact hgap _ c hc
  · exact hmark c hc
  · exact hname inv.isName_method c hc
  · exact hgap _ c hc
  · exact hcomma c hc
  · exact hgap _ c hc
  · exact hname inv.isName_handler c hc
  · exact hgap _ c hc

/-- What closes the call is not found in front of its path. -/
lemma closes_quotedPath (inv : Invocation) (s : Str) :
    closes 1 (inv.gap 0 ++ (inv.quotedPath ++ s)) = closes 1 (inv.path ++ '"' :: s) := by
  have hpath : inv.quotedPath ++ s = '"' :: (inv.path ++ '"' :: s) := by
    simp [Invocation.quotedPath]
  rw [closes_append_of_noParens (noParens_of_isSpace (inv.isSpace_gap 0)), hpath,
    closes_cons_of_ne (by decide)]

/-- The path of an invocation is on the line on which its statement is read up to it.

**Proof sketch.** In front of the path there is only white space, so that the statement goes on to
the line with the path. -/
lemma exists_used {inv : Invocation} (hpath : '\n' ∉ inv.path) {s used rest : Str}
    (hsplit : inv.gap 0 ++ (inv.quotedPath ++ s) = used ++ rest)
    (hrest : rest = [] ∨ ∃ rest', rest = '\n' :: rest') (hclosed : closes 1 used = true) :
    ∃ s', used = inv.gap 0 ++ (inv.quotedPath ++ s') ∧ s = s' ++ rest := by
  rw [← List.append_assoc] at hsplit
  rcases List.append_eq_append_iff.1 hsplit with ⟨as, rfl, hs⟩ | ⟨bs, hfront, hbehind⟩
  · exact ⟨as, by simp, hs⟩
  · cases bs with
    | nil =>
      rw [List.append_nil] at hfront
      exact ⟨[], by rw [← hfront, List.append_nil], by simpa using hbehind.symm⟩
    | cons b bs =>
      exfalso
      rcases hrest with rfl | ⟨rest', rfl⟩
      · simp at hbehind
      · obtain ⟨rfl, -⟩ := List.cons.inj hbehind
        rcases List.append_eq_append_iff.1 hfront with ⟨cs, rfl, hcs⟩ | ⟨cs, hgap, -⟩
        · refine (isWord_quotedPath hpath).oneLine ?_
          rw [hcs]
          simp
        · have hspace : IsSpace used := fun c hc =>
            inv.isSpace_gap 0 c (by rw [hgap]; exact List.mem_append_left _ hc)
          have hopen := closes_append_noParens (noParens_of_isSpace hspace) 1 []
          rw [List.nil_append, hclosed] at hopen
          cases hopen

/-- A statement is open at the end of each of its lines above the last one. -/
lemma closes_of_line {used front behind : Str}
    (hmin : ∀ above line, used = above ++ '\n' :: line → '\n' ∉ line → closes 1 above = false)
    (h : used = front ++ '\n' :: behind) : closes 1 front = false := by
  obtain ⟨above, line, hused, hline⟩ := exists_append_cons_notMem
    (c := '\n') (s := used) (by rw [h]; simp)
  have hopen := hmin above line hused hline
  rw [hused] at h
  by_contra hclosed
  rw [Bool.not_eq_false] at hclosed
  rcases List.append_eq_append_iff.1 h with ⟨cs, rfl, hcs⟩ | ⟨cs, rfl, -⟩
  · cases cs with
    | nil =>
      rw [List.append_nil, hopen] at hclosed
      cases hclosed
    | cons c cs =>
      obtain ⟨rfl, rfl⟩ := List.cons.inj hcs
      simp at hline
  · rw [closes_append hclosed] at hopen
    cases hopen

/-- Whether the statement of an invocation reaches the end of the handler depends on the
parentheses of the path and the lines behind it. -/
lemma reaches_iff {inv : Invocation} {s used rest behind : Str} {stop : Char}
    (hstop : IsStop stop) (hused : used = inv.gap 0 ++ (inv.quotedPath ++ s))
    (hsplit : inv.middle ++ stop :: behind = s ++ rest)
    (hrest : rest = [] ∨ ∃ rest', rest = '\n' :: rest') (hclosed : closes 1 used = true)
    (hmin : ∀ above line, used = above ++ '\n' :: line → '\n' ∉ line → closes 1 above = false) :
    (∃ behind', s = inv.middle ++ stop :: behind') ∧
        (closes 1 inv.path = false ∨ '\n' ∉ inv.middle) ∨
      s <+: inv.middle ∧ ¬ (closes 1 inv.path = false ∨ '\n' ∉ inv.middle) := by
  rcases List.append_eq_append_iff.1 hsplit with ⟨as, rfl, has⟩ | ⟨bs, hmiddle, hbs⟩
  · cases as with
    | nil =>
      rcases hrest with rfl | ⟨rest', rfl⟩
      · cases has
      · exact absurd (List.cons.inj has).1 hstop.ne_newline
    | cons a as =>
      obtain ⟨rfl, -⟩ := List.cons.inj has
      refine .inl ⟨⟨as, rfl⟩, ?_⟩
      by_contra hwrong
      rw [not_or, not_not, Bool.not_eq_false] at hwrong
      obtain ⟨hpath, hfeed⟩ := hwrong
      obtain ⟨a, b, hab⟩ := List.append_of_mem hfeed
      -- The line above would already have closed the statement.
      have hend : used = inv.gap 0 ++ (inv.quotedPath ++ a) ++ '\n' :: (b ++ stop :: as) := by
        rw [hused, hab]
        simp
      have hopen := closes_of_line hmin hend
      rw [closes_quotedPath, closes_append hpath] at hopen
      cases hopen
  · refine .inr ⟨⟨bs, hmiddle.symm⟩, ?_⟩
    rw [not_or, not_not, Bool.not_eq_false]
    constructor
    · have hquiet : NoParens ('"' :: s) := by
        refine List.forall_mem_cons.2 ⟨by decide, fun c hc => ?_⟩
        exact noParens_middle inv c (by rw [hmiddle]; exact List.mem_append_left _ hc)
      rw [hused, closes_quotedPath, closes_append_noParens hquiet] at hclosed
      exact hclosed
    · rcases hrest with rfl | ⟨rest', rfl⟩
      · simp at hbs
      · cases bs with
        | nil => exact absurd (List.cons.inj hbs).1.symm hstop.ne_newline
        | cons b bs =>
          obtain ⟨rfl, -⟩ := List.cons.inj hbs
          rw [hmiddle]
          simp

/-- A lower-cased name has no punctuation either. -/
lemma notMem_call (inv : Invocation) {c : Char} (hc : c ∈ "\"(".toList) :
    c ∉ inv.call.1 ∧ c ∉ inv.call.2 := by
  have hpunct : ∀ d ∈ "\"(".toList, d ∈ "\"(),:".toList ∧ d.toNat < 97 :=
    Str.forall_mem_of_all (by decide)
  obtain ⟨hmem, hsmall⟩ := hpunct c hc
  refine ⟨fun hlower => ?_, fun hhandler => inv.isName_handler.plain c hhandler hmem⟩
  obtain ⟨d, hd, hdc⟩ := List.mem_map.1 hlower
  rw [Str.eq_of_toLower_eq hsmall hdc] at hd
  exact inv.isName_method.plain c hd hmem

/-- What is read of a statement as the method and the handler of an invocation.

**Proof sketch.** The first `Rt::` is in front of the `route!(`, in the path, or behind it: the
quotes and the parenthesis are not part of an `Rt::`. What is read in front of the invocation or in
the path ends there, since no name has a parenthesis or a quote. -/
lemma readCall_statement_iff {front : Str} (inv : Invocation) {w s : Str} (hw : IsSpace w) :
    readCall (Str.trimStart front ++ routeCall ++ (w ++ (inv.quotedPath ++ s))) = some inv.call ↔
      if methodMark <:+: front then readCall front = some inv.call
      else if methodMark <:+: inv.path then readCall inv.path = some inv.call
      else readCall s = some inv.call := by
  obtain ⟨hparen, hparen'⟩ := notMem_call inv (c := '(') (by decide)
  obtain ⟨hquote, hquote'⟩ := notMem_call inv (c := '"') (by decide)
  obtain ⟨space, hspace, hsplit⟩ := exists_isSpace_append front
  have htrim := readCall_space hspace (Str.trimStart front)
  rw [hsplit] at htrim
  simp only [htrim.1, htrim.2]
  split_ifs with hfront hpath
  · have htext : Str.trimStart front ++ routeCall ++ (w ++ (inv.quotedPath ++ s)) =
        Str.trimStart front ++ ("route!".toList ++ '(' :: (w ++ (inv.quotedPath ++ s))) := by
      rw [List.append_assoc]
      rfl
    have hquiet : ∀ d ∈ "route!".toList, ¬ IsStop d := by
      simp [IsStop]
    rw [htext]
    exact readCall_append_iff (by decide) (by simp [IsStop]) (by decide) hfront hquiet hparen
      hparen' _
  all_goals
    have hcall : Str.trimStart front ++ routeCall ++ (w ++ (inv.quotedPath ++ s)) =
        (Str.trimStart front ++ 'r' :: ("oute!(".toList ++ w)) ++
          '"' :: (inv.path ++ ([] ++ '"' :: s)) := by
      have hquoted : inv.quotedPath ++ s = '"' :: (inv.path ++ '"' :: s) := by
        simp [Invocation.quotedPath]
      rw [routeCall_eq, hquoted]
      simp only [List.append_assoc, List.cons_append, List.nil_append]
    have hnone : ¬ methodMark <:+: Str.trimStart front ++ 'r' :: ("oute!(".toList ++ w) := by
      rw [infix_append_cons_iff (by decide), not_or]
      refine ⟨hfront, fun hin => ?_⟩
      have hmem : 'R' ∈ "oute!(".toList ++ w := hin.sublist.subset (by decide)
      rcases List.mem_append.1 hmem with hmem | hmem
      · exact absurd hmem (by decide)
      · exact absurd (hw 'R' hmem) (by decide)
    rw [hcall, readCall_append_cons (by decide) hnone]
  · exact readCall_append_iff (by decide) (by simp [IsStop]) (by decide) hpath (by simp) hquote
      hquote' _
  · rw [List.nil_append, readCall_append_cons (by decide) hpath]

/-- **When the statement of an invocation is read right.** -/
theorem readTriple_iff {front : Str} (h : ¬ routeCall <:+: front) (inv : Invocation)
    (after : Str) :
    (statementFrom front (inv.text ++ after)).bind readTriple = some inv.triple ↔
      closes 1 (inv.opened ++ after) = true ∧ ReadsRight front inv := by
  have htext : inv.text ++ after = routeCall ++ (inv.opened ++ after) := List.append_assoc _ _ _
  have htrimmed := not_routeCall_trimStart h
  obtain ⟨hopen, htaken⟩ := statementFrom_eq h (inv.opened ++ after)
  rw [htext]
  cases hclosed : closes 1 (inv.opened ++ after) with
  | false => simp [hopen hclosed]
  | true =>
    obtain ⟨used, rest, hsplit, hrest, hstatement, hused, hmin⟩ := htaken hclosed
    rw [hstatement, Option.bind_some, eq_self_iff_true, true_and]
    have hread : readTriple (Str.trimStart front ++ routeCall ++ oneLine used) = some inv.triple ↔
        extractRoutePath (Str.trimStart front ++ routeCall ++ oneLine used) = some inv.path ∧
        readCall (Str.trimStart front ++ routeCall ++ oneLine used) = some inv.call := by
      unfold readTriple Invocation.triple
      cases extractRoutePath (Str.trimStart front ++ routeCall ++ oneLine used) <;>
        cases readCall (Str.trimStart front ++ routeCall ++ oneLine used) <;> simp
    rw [hread]
    by_cases hpath : '\n' ∈ inv.path
    · refine iff_of_false ?_ fun hright => hright.1 hpath
      rintro ⟨hextract, -⟩
      obtain ⟨w, behind, -, hone, -⟩ := (extractRoutePath_eq_some_iff htrimmed).1 hextract
      refine newline_notMem_oneLine used ?_
      rw [hone]
      simp [hpath]
    · obtain ⟨stop, closing, hclosing, hstop⟩ := inv.exists_closing
      have hbehind : inv.opened ++ after =
          inv.gap 0 ++ (inv.quotedPath ++ (inv.middle ++ stop :: (closing ++ after))) := by
        simp [Invocation.opened, hclosing]
      rw [hbehind] at hsplit
      obtain ⟨s, hs, htail⟩ := exists_used hpath hsplit hrest hused
      obtain ⟨w, hw, hone⟩ := oneLine_space (inv.isSpace_gap 0) (isWord_quotedPath hpath) s
      rw [← hs] at hone
      have hextract : extractRoutePath (Str.trimStart front ++ routeCall ++ oneLine used) =
          some inv.path := by
        rw [extractRoutePath_eq_some_iff htrimmed, hone]
        exact ⟨w, oneLine s, hw, by simp [Invocation.quotedPath], inv.quoteFree⟩
      rw [and_iff_right hextract, hone, readCall_statement_iff inv hw, ReadsRight,
        and_iff_right hpath]
      have hown : readCall (oneLine s) = some inv.call ↔
          closes 1 inv.path = false ∨ '\n' ∉ inv.middle := by
        rcases reaches_iff hstop hs htail hrest hused hmin with
          ⟨⟨behind, hreach⟩, hright⟩ | ⟨hshort, hwrong⟩
        · refine iff_of_true ?_ hright
          have hgap := inv.isSpace_gap
          obtain ⟨w₁, w₂, w₃, w₄, w₅, h₁, h₂, h₃, h₄, h₅, hcall⟩ :=
            oneLine_callText (hgap 1) (hgap 2) (hgap 3) (hgap 4) (hgap 5) inv.isName_method
              inv.isName_handler hstop behind
          rw [hreach, Invocation.middle, hcall]
          exact readCall_callText h₁ h₂ h₃ h₄ h₅ inv.isName_method inv.isName_handler hstop _
        · exact iff_of_false (readCall_unfinished hshort _) hwrong
      simp only [hown]

end OpenApi

end Httpageboy
