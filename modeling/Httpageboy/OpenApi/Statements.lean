import Httpageboy.Lib.Layout
import Httpageboy.OpenApi.Annotations

set_option relaxedAutoImplicit false
set_option autoImplicit false

/-!
# Reading one statement

A statement begins with the first `route!(` of a line and ends with the line on which the number
of closing parentheses reaches that of the opening ones, whether they stand in strings or not. The
path is what stands in quotes behind the `route!(`; the method and the handler are those of the
first `Rt::` anywhere in the statement.

## Main definitions

* `Httpageboy.OpenApi.readCall`, `Httpageboy.OpenApi.readTriple` — what is read of a statement.
* `Httpageboy.OpenApi.IsStop` — the characters that end a handler.

## Main results

* `Httpageboy.OpenApi.readStatement_eq` — the text of a statement and the lines it takes.
* `Httpageboy.OpenApi.readCall_eq_some_iff` — the method and the handler that are read.
* `Httpageboy.OpenApi.extractRoutePath_eq_some_iff` — the path that is read.
-/

namespace Httpageboy

namespace OpenApi

open Search Layout

/-! ## Parentheses -/

/-- Neither an opening nor a closing parenthesis. -/
def NoParens (s : Str) : Prop := ∀ c ∈ s, c ≠ '(' ∧ c ≠ ')'

/-- Other characters do not change the depth. -/
lemma closes_cons_of_ne {c : Char} (h : c ≠ '(' ∧ c ≠ ')') (depth : ℕ) (s : Str) :
    closes depth (c :: s) = closes depth s := by
  rw [closes, if_neg h.1, if_neg h.2]

/-- Text without parentheses does not count. -/
lemma closes_append_of_noParens {s : Str} (h : NoParens s) (depth : ℕ) (t : Str) :
    closes depth (s ++ t) = closes depth t := by
  induction s with
  | nil => rfl
  | cons c s ih =>
    obtain ⟨hc, hs⟩ := List.forall_mem_cons.1 h
    rw [List.cons_append, closes_cons_of_ne hc, ih hs]

/-- What closes early stays closed. -/
lemma closes_append {depth : ℕ} {s : Str} (h : closes depth s = true) (t : Str) :
    closes depth (s ++ t) = true := by
  induction s generalizing depth with
  | nil => cases h
  | cons c s ih =>
    rw [closes] at h
    rw [List.cons_append, closes]
    split_ifs at h ⊢
    · exact ih h
    · rfl
    · exact ih h
    · exact ih h

/-- Text without parentheses closes nothing. -/
lemma closes_append_noParens {t : Str} (h : NoParens t) (depth : ℕ) (s : Str) :
    closes depth (s ++ t) = closes depth s := by
  induction s generalizing depth with
  | nil =>
    rw [List.nil_append, ← List.append_nil t, closes_append_of_noParens h]
  | cons c s ih =>
    rw [List.cons_append, closes, closes, ih, ih, ih]

/-- White space does not count. -/
lemma closes_solid (depth : ℕ) (s : Str) : closes depth (solid s) = closes depth s := by
  induction s generalizing depth with
  | nil => rfl
  | cons c s ih =>
    by_cases hspace : Str.isWhitespace c = true
    · have hne : c ≠ '(' ∧ c ≠ ')' := by
        constructor <;> (rintro rfl; exact absurd hspace (by decide))
      have hdrop : solid (c :: s) = solid s := List.filter_cons_of_neg (by simp [hspace])
      rw [hdrop, closes_cons_of_ne hne, ih]
    · have hkeep : solid (c :: s) = c :: solid s := List.filter_cons_of_pos (by simp [hspace])
      rw [hkeep, closes, closes, ih, ih, ih]

/-- On one line the parentheses stay. -/
lemma closes_oneLine (depth : ℕ) (s : Str) : closes depth (oneLine s) = closes depth s := by
  rw [← closes_solid, solid_oneLine, closes_solid]

/-- White space has no parentheses. -/
lemma noParens_of_isSpace {s : Str} (h : IsSpace s) : NoParens s := by
  intro c hc
  have hspace := h c hc
  constructor <;> (rintro rfl; exact absurd hspace (by decide))

/-! ## The text of a statement -/

/-- Lines, each behind a line feed. -/
def newLines (lines : List Str) : Str := lines.flatMap fun line => '\n' :: line

/-- The lines of a text, one behind the other. -/
lemma eq_append_newLines {s first : Str} {lines : List Str}
    (h : s.splitOn '\n' = first :: lines) : s = first ++ newLines lines := by
  have hjoin : ∀ first : Str,
      List.intercalate ['\n'] (first :: lines) = first ++ newLines lines := by
    clear h
    induction lines with
    | nil => intro first; simp [newLines]
    | cons line lines ih =>
      intro first
      rw [List.intercalate_cons_cons, ih line]
      simp [newLines]
  rw [← hjoin, ← h, List.intercalate_splitOn]

/-- What stands behind the first `route!(` of a text. -/
lemma routeCallStart_eq {statement u v : Str} (h : cut routeCall statement = some (u, v)) :
    ∃ start, routeCallStart statement = some start ∧ statement.drop start = v := by
  obtain ⟨i, hi, hsplit⟩ := Option.map_eq_some_iff.1 h
  refine ⟨i + routeCall.length, ?_, (Prod.mk.inj hsplit).2⟩
  rw [routeCallStart, hi, Option.map_some]

/-- The call begins with a letter of its own. -/
lemma routeCall_eq : routeCall = 'r' :: "oute!(".toList := by decide

/-- The mark of a method begins with a capital. -/
lemma methodMark_eq : methodMark = 'R' :: "t::".toList := by decide

/-- The first `route!(` of a line is the one behind text without it. -/
lemma cut_routeCall {front : Str} (h : ¬ routeCall <:+: front) (s : Str) :
    cut routeCall (front ++ routeCall ++ s) = some (front, s) := by
  rw [routeCall_eq] at h ⊢
  exact cut_first (by decide) h s

/-- A line without `route!(` does not have one when it is trimmed. -/
lemma not_routeCall_trimStart {front : Str} (h : ¬ routeCall <:+: front) :
    ¬ routeCall <:+: Str.trimStart front := fun hin =>
  h (hin.trans (List.dropWhile_suffix _).isInfix)

/-- The first `route!(` of a statement opens the parenthesis that is counted. -/
lemma routeStatementComplete_eq {front : Str} (h : ¬ routeCall <:+: front) (s : Str) :
    routeStatementComplete (front ++ routeCall ++ s) = closes 1 s := by
  obtain ⟨start, hstart, hdrop⟩ := routeCallStart_eq (cut_routeCall h s)
  rw [routeStatementComplete, hstart]
  show closes 1 _ = _
  rw [hdrop]

/-- **The text of a statement**, from text behind its `route!(` and the lines that follow: if the
parenthesis closes, the statement takes the lines up to the first one at the end of which it is
closed.

**Proof sketch.** Induction on the lines. Put on one line, a text closes where it did before
(`closes_oneLine`), so that the statement is complete exactly when the parenthesis is closed; if
not, the next line is joined to it. -/
theorem readStatement_eq {front : Str} (h : ¬ routeCall <:+: front) (s : Str) {lines : List Str}
    (hlines : ∀ line ∈ lines, '\n' ∉ line) :
    (closes 1 (s ++ newLines lines) = false →
      readStatement (front ++ routeCall ++ oneLine s) lines = none) ∧
    (closes 1 (s ++ newLines lines) = true → ∃ used rest, lines = used ++ rest ∧
      readStatement (front ++ routeCall ++ oneLine s) lines =
        some (front ++ routeCall ++ oneLine (s ++ newLines used), rest) ∧
      closes 1 (s ++ newLines used) = true ∧
      ∀ used' line, used = used' ++ [line] → closes 1 (s ++ newLines used') = false) := by
  induction lines generalizing s with
  | nil =>
    have hnone : s ++ newLines [] = s := List.append_nil s
    rw [hnone]
    have hcomplete := routeStatementComplete_eq h (oneLine s)
    rw [closes_oneLine] at hcomplete
    refine ⟨fun hopen => ?_, fun hclosed => ⟨[], [], rfl, ?_, ?_, ?_⟩⟩
    · rw [readStatement, hcomplete, hopen]
      rfl
    · rw [readStatement, hcomplete, hclosed, hnone]
      rfl
    · rwa [hnone]
    · intro used' line hused
      simp at hused
  | cons line lines ih =>
    obtain ⟨hline, hrest⟩ := List.forall_mem_cons.1 hlines
    have hcomplete := routeStatementComplete_eq h (oneLine s)
    rw [closes_oneLine] at hcomplete
    have hnext : s ++ newLines (line :: lines) = s ++ '\n' :: line ++ newLines lines := by
      simp [newLines]
    cases hclosed : closes 1 s with
    | true =>
      have hnone : s ++ newLines [] = s := List.append_nil s
      refine ⟨fun hopen => ?_, fun _ => ⟨[], line :: lines, rfl, ?_, ?_, ?_⟩⟩
      · rw [closes_append hclosed] at hopen
        cases hopen
      · rw [readStatement, hcomplete, hclosed, hnone]
        rfl
      · rwa [hnone]
      · intro used' line hused
        simp at hused
    | false =>
      rw [hclosed] at hcomplete
      have hstep : readStatement (front ++ routeCall ++ oneLine s) (line :: lines) =
          readStatement (front ++ routeCall ++ oneLine (s ++ '\n' :: line)) lines := by
        rw [readStatement_cons hcomplete, oneLine_append_line s hline,
          List.append_assoc _ _ (_ :: _)]
      obtain ⟨hopen, htaken⟩ := ih (s ++ '\n' :: line) hrest
      rw [hstep, hnext]
      refine ⟨hopen, fun hclosed' => ?_⟩
      obtain ⟨used, rest, rfl, hread, hused, hfirst⟩ := htaken hclosed'
      have hused' : s ++ newLines (line :: used) = s ++ '\n' :: line ++ newLines used := by
        simp [newLines]
      refine ⟨line :: used, rest, rfl, by rw [hread, hused'], by rw [hused']; exact hused, ?_⟩
      intro used' last hlast
      cases used' with
      | nil =>
        have hnone : s ++ newLines [] = s := List.append_nil s
        rwa [hnone]
      | cons line' used' =>
        obtain ⟨rfl, htail⟩ := List.cons.inj hlast
        have hprev := hfirst used' last htail
        simpa [newLines] using hprev

/-! ## The method and the handler -/

/-- The method and the handler that `parse_route` reads. -/
def readCall (statement : Str) : Option (Str × Str) := do
  let method ← extractBetween statement methodMark [',']
  let handler ← extractRouteHandler statement
  return (Str.toAsciiLowercase (Str.trim method), handler)

/-- The path, the method and the handler that `parse_route` reads. -/
def readTriple (statement : Str) : Option (Str × Str × Str) := do
  let path ← extractRoutePath statement
  let call ← readCall statement
  return (path, call)

/-- The path, the method and the handler of a route. -/
def RouteDoc.triple (route : RouteDoc) : Str × Str × Str :=
  (route.path, route.method, route.handler)

/-- What is read of a statement does not depend on the comments. -/
lemma map_triple_parseRoute (upper : Char → Str) (statement : Str) (comments : List Str) :
    (parseRoute upper statement comments).map RouteDoc.triple = readTriple statement := by
  unfold parseRoute readTriple readCall
  cases hstart : isRouteStatement statement with
  | false =>
    have hpath : extractRoutePath statement = none := by
      have hnone : position routeCall statement = none := by
        simpa [isRouteStatement] using hstart
      simp [extractRoutePath, routeCallStart, hnone]
    simp [hpath]
  | true =>
    cases extractRoutePath statement <;> cases extractBetween statement methodMark [','] <;>
      cases extractRouteHandler statement <;> rfl

/-- The end of a handler: a comma or a closing parenthesis. -/
def IsStop (c : Char) : Prop := c = ',' ∨ c = ')'

/-- A text up to the first end of a handler in it. -/
lemma exists_stop (s : Str) :
    (∀ c ∈ s, ¬ IsStop c) ∨
      ∃ text stop rest, s = text ++ stop :: rest ∧ IsStop stop ∧ ∀ c ∈ text, ¬ IsStop c := by
  induction s with
  | nil => exact .inl fun c hc => absurd hc List.not_mem_nil
  | cons c s ih =>
    by_cases hc : IsStop c
    · exact .inr ⟨[], c, s, rfl, hc, fun d hd => absurd hd List.not_mem_nil⟩
    · rcases ih with hnone | ⟨text, stop, rest, rfl, hstop, htext⟩
      · exact .inl (List.forall_mem_cons.2 ⟨hc, hnone⟩)
      · exact .inr ⟨c :: text, stop, rest, rfl, hstop, List.forall_mem_cons.2 ⟨hc, htext⟩⟩

/-- There is only one way to split a text at its first end of a handler. -/
lemma stop_unique {text text' : Str} {stop stop' : Char} {rest rest' : Str}
    (h : text ++ stop :: rest = text' ++ stop' :: rest') (hstop : IsStop stop)
    (hstop' : IsStop stop') (htext : ∀ c ∈ text, ¬ IsStop c) (htext' : ∀ c ∈ text', ¬ IsStop c) :
    text = text' ∧ stop = stop' ∧ rest = rest' := by
  rcases List.append_eq_append_iff.1 h with ⟨as, rfl, has⟩ | ⟨bs, rfl, hbs⟩
  · cases as with
    | nil =>
      obtain ⟨rfl, rfl⟩ := List.cons.inj has
      simp
    | cons a as =>
      obtain ⟨rfl, -⟩ := List.cons.inj has
      exact absurd hstop (htext' _ (by simp))
  · cases bs with
    | nil =>
      obtain ⟨rfl, rfl⟩ := List.cons.inj hbs
      simp
    | cons b bs =>
      obtain ⟨rfl, -⟩ := List.cons.inj hbs
      exact absurd hstop' (htext _ (by simp))

/-- The index that `extract_route_handler` slices at: the smaller one of the two that it searches
for. -/
lemma stopIndex {text : Str} {stop : Char} (hstop : IsStop stop)
    (htext : ∀ c ∈ text, ¬ IsStop c) (rest : Str) :
    (match position [','] (text ++ stop :: rest), position [')'] (text ++ stop :: rest) with
      | some comma, some paren => some (min comma paren)
      | some comma, none => some comma
      | none, some paren => some paren
      | none, none => none) = some text.length := by
  have hcomma : ',' ∉ text := fun hmem => htext _ hmem (.inl rfl)
  have hparen : ')' ∉ text := fun hmem => htext _ hmem (.inr rfl)
  rcases hstop with rfl | rfl
  · rw [position_singleton_eq_some hcomma, position_skip hparen]
    cases position [')'] (',' :: rest) with
    | none => rfl
    | some i => exact congrArg some (Nat.min_eq_left (Nat.le_add_left _ _))
  · rw [position_singleton_eq_some hparen, position_skip hcomma]
    cases position [','] (')' :: rest) with
    | none => rfl
    | some i => exact congrArg some (Nat.min_eq_right (Nat.le_add_left _ _))

/-- White space is no end of a handler. -/
lemma not_isStop_of_isSpace {s : Str} (h : IsSpace s) : ∀ c ∈ s, ¬ IsStop c := by
  intro c hc
  have hspace := h c hc
  rintro (rfl | rfl) <;> exact absurd hspace (by decide)

/-- What is read behind the comma in front of a handler: the text up to the first end of a handler,
trimmed. -/
lemma handlerText_eq_some_iff (behind handler : Str) :
    ((match position [','] (Str.trimStart behind), position [')'] (Str.trimStart behind) with
      | some comma, some paren => some (min comma paren)
      | some comma, none => some comma
      | none, some paren => some paren
      | none, none => none).bind fun stop =>
        some (Str.trim ((Str.trimStart behind).take stop))) = some handler ↔
      ∃ text stop rest, behind = text ++ stop :: rest ∧ IsStop stop ∧ (∀ c ∈ text, ¬ IsStop c) ∧
        Str.trim text = handler := by
  obtain ⟨w, hspace, hsplit⟩ := exists_isSpace_append behind
  have hquiet := not_isStop_of_isSpace hspace
  rcases exists_stop (Str.trimStart behind) with hnone | ⟨text, stop, rest, hx, hstop, htext⟩
  · have hno : ∀ c, IsStop c → position [c] (Str.trimStart behind) = none := by
      intro c hc
      rw [position_eq_none_iff]
      exact fun hin => hnone c (hin.sublist.subset (List.mem_singleton_self c)) hc
    rw [hno ',' (.inl rfl), hno ')' (.inr rfl)]
    refine iff_of_false (by simp) ?_
    rintro ⟨text, stop, rest, hbehind, hstop, -, -⟩
    have hmem : stop ∈ w ++ Str.trimStart behind := by
      rw [hsplit, hbehind]
      simp
    rcases List.mem_append.1 hmem with hmem | hmem
    · exact hquiet stop hmem hstop
    · exact hnone stop hmem hstop
  · have htrim : Str.trim (w ++ text) = Str.trim text := by
      unfold Str.trim Str.trimStart
      rw [List.dropWhile_append_of_pos hspace]
    have hspaced : ∀ c ∈ w ++ text, ¬ IsStop c :=
      List.forall_mem_append.2 ⟨hquiet, htext⟩
    have hwhole : behind = w ++ text ++ stop :: rest := by
      rw [List.append_assoc, ← hx, hsplit]
    rw [hx, stopIndex hstop htext, Option.bind_some, List.take_left, Option.some.injEq, ← htrim]
    constructor
    · rintro rfl
      exact ⟨_, stop, rest, hwhole, hstop, hspaced, rfl⟩
    · rintro ⟨text', stop', rest', hbehind, hstop', htext', rfl⟩
      obtain ⟨rfl, -, -⟩ := stop_unique (hwhole.symm.trans hbehind) hstop hstop' hspaced htext'
      rfl

/-- **What the handler is**: the text behind the first comma that follows the first `Rt::`, up to
the next comma or closing parenthesis. -/
lemma extractRouteHandler_eq_some_iff {statement u v handler : Str}
    (h : cut methodMark statement = some (u, v)) :
    extractRouteHandler statement = some handler ↔
      ∃ method text stop rest, v = method ++ ',' :: text ++ stop :: rest ∧ ',' ∉ method ∧
        IsStop stop ∧ (∀ c ∈ text, ¬ IsStop c) ∧ Str.trim text = handler := by
  unfold extractRouteHandler
  rw [h]
  simp only [Option.bind_eq_bind, Option.bind_some]
  cases hcomma : Str.splitOnce ',' v with
  | none =>
    have hnot := Str.splitOnce_eq_none_iff.1 hcomma
    refine iff_of_false (by simp) ?_
    rintro ⟨method, text, stop, rest, rfl, -⟩
    simp at hnot
  | some p =>
    obtain ⟨method, behind⟩ := p
    obtain ⟨rfl, hmethod⟩ := Str.splitOnce_eq_some_iff.1 hcomma
    refine Iff.trans ?_ ((handlerText_eq_some_iff behind handler).trans ?_)
    · rw [Option.bind_some]
      cases position [','] (Str.trimStart behind) <;>
        cases position [')'] (Str.trimStart behind) <;> exact Iff.rfl
    constructor
    · rintro ⟨text, stop, rest, rfl, hread⟩
      exact ⟨method, text, stop, rest, by simp, hmethod, hread⟩
    · rintro ⟨method', text, stop, rest, heq, hmethod', hread⟩
      rw [List.append_assoc, List.cons_append] at heq
      exact ⟨text, stop, rest, (Str.append_cons_inj heq hmethod hmethod').2, hread⟩

/-- **What the method is**: the text behind the first `Rt::`, up to the next comma. -/
lemma extractBetween_eq_some_iff {text start u v between : Str} {stop : Char}
    (h : cut start text = some (u, v)) :
    extractBetween text start [stop] = some between ↔
      ∃ rest, v = between ++ stop :: rest ∧ stop ∉ between := by
  have hread : extractBetween text start [stop] = (cut [stop] v).map Prod.fst := by
    unfold extractBetween
    rw [h]
    simp only [Option.bind_eq_bind, Option.bind_some]
    cases cut [stop] v <;> rfl
  rw [hread, Option.map_eq_some_iff]
  constructor
  · rintro ⟨⟨between', rest⟩, hcut, rfl⟩
    exact ⟨rest, cut_singleton_eq_some_iff.1 hcut⟩
  · rintro ⟨rest, hsplit⟩
    exact ⟨(between, rest), cut_singleton_eq_some_iff.2 hsplit, rfl⟩

/-- **The method and the handler that are read** of a statement: behind the first `Rt::` the text
up to a comma, and the text from there to the next comma or closing parenthesis.

**Proof sketch.** Both are read behind the same mark: the method up to the first comma, and the
handler from there to the first stop. -/
theorem readCall_eq_some_iff {statement method handler : Str} :
    readCall statement = some (method, handler) ↔
      ∃ u m text stop rest, cut methodMark statement =
          some (u, m ++ ',' :: text ++ stop :: rest) ∧ ',' ∉ m ∧ IsStop stop ∧
        (∀ c ∈ text, ¬ IsStop c) ∧ Str.toAsciiLowercase (Str.trim m) = method ∧
        Str.trim text = handler := by
  have hread : readCall statement = some (method, handler) ↔
      (∃ m, extractBetween statement methodMark [','] = some m ∧
        Str.toAsciiLowercase (Str.trim m) = method) ∧
      extractRouteHandler statement = some handler := by
    unfold readCall
    cases extractBetween statement methodMark [','] <;> cases extractRouteHandler statement <;>
      simp
  rw [hread]
  cases hcut : cut methodMark statement with
  | none => simp [extractBetween, hcut]
  | some p =>
    obtain ⟨u, v⟩ := p
    simp only [extractRouteHandler_eq_some_iff hcut, extractBetween_eq_some_iff hcut]
    constructor
    · rintro ⟨⟨m, ⟨rest', hm, hm'⟩, hmethod⟩, m', text, stop, rest, rfl, hnot, hstop, htext,
        hhandler⟩
      rw [List.append_assoc, List.cons_append] at hm
      obtain ⟨rfl, -⟩ := Str.append_cons_inj hm hnot hm'
      exact ⟨u, m', text, stop, rest, rfl, hnot, hstop, htext, hmethod, hhandler⟩
    · rintro ⟨u', m, text, stop, rest, heq, hnot, hstop, htext, hmethod, hhandler⟩
      obtain ⟨rfl, rfl⟩ := Prod.mk.inj (Option.some.inj heq)
      exact ⟨⟨m, ⟨text ++ stop :: rest, by simp, hnot⟩, hmethod⟩,
        m, text, stop, rest, rfl, hnot, hstop, htext, hhandler⟩

/-- Text without `Rt::` is skipped up to a letter that this does not have. -/
lemma readCall_append_cons {c : Char} (hc : c ∉ methodMark) {u : Str} (h : ¬ methodMark <:+: u)
    (x : Str) : readCall (u ++ c :: x) = readCall x := by
  refine Option.ext fun ⟨method, handler⟩ => ?_
  rw [readCall_eq_some_iff, readCall_eq_some_iff, cut_append_cons hc h]
  constructor
  · rintro ⟨u', m, text, stop, rest, hcut, hread⟩
    obtain ⟨⟨u'', v⟩, hx, hsame⟩ := Option.map_eq_some_iff.1 hcut
    obtain ⟨-, rfl⟩ := Prod.mk.inj hsame
    exact ⟨u'', m, text, stop, rest, hx, hread⟩
  · rintro ⟨u', m, text, stop, rest, hcut, hread⟩
    exact ⟨_, m, text, stop, rest, by rw [hcut]; rfl, hread⟩

/-- White space is no part of an `Rt::`. -/
lemma notMem_methodMark {c : Char} (hc : Str.isWhitespace c = true) : c ∉ methodMark := by
  intro hmem
  have hsolid := Str.not_isWhitespace_of_all (s := methodMark) (by decide)
  rw [hsolid c hmem] at hc
  cases hc

/-- White space in front does not change what is read. -/
lemma readCall_space {w : Str} (hw : IsSpace w) (x : Str) :
    (methodMark <:+: w ++ x ↔ methodMark <:+: x) ∧ readCall (w ++ x) = readCall x := by
  have hempty : ¬ methodMark <:+: ([] : Str) := by decide
  induction w with
  | nil => exact ⟨Iff.rfl, rfl⟩
  | cons c w ih =>
    obtain ⟨hc, hrest⟩ := List.forall_mem_cons.1 hw
    obtain ⟨hmark, hread⟩ := ih hrest
    rw [← hmark, ← hread]
    refine ⟨?_, readCall_append_cons (notMem_methodMark hc) hempty (w ++ x)⟩
    exact (infix_append_cons_iff (notMem_methodMark hc) (u := []) (w ++ x)).trans
      (or_iff_right hempty)

/-- Where there is an `Rt::`, what is read does not change behind a letter that neither the method
nor the handler has, if no end of a handler is in front of that letter.

**Proof sketch.** The call is found where it was. The end of its handler is the first stop behind
it: it lies in front of the letter, since there is none between them and the letter is neither in
the method nor in the handler. -/
lemma readCall_append_iff {c : Char} (hspace : Str.isWhitespace c = false) (hstop : ¬ IsStop c)
    (hlower : c.toLower = c) {u t method handler : Str} (hmark : methodMark <:+: u)
    (ht : ∀ d ∈ t, ¬ IsStop d) (hmethod : c ∉ method) (hhandler : c ∉ handler) (x : Str) :
    readCall (u ++ (t ++ c :: x)) = some (method, handler) ↔
      readCall u = some (method, handler) := by
  obtain ⟨⟨front, v⟩, hcut⟩ := Option.ne_none_iff_exists'.1
    (mt cut_eq_none_iff.1 (not_not.2 hmark))
  rw [readCall_eq_some_iff, readCall_eq_some_iff, cut_append hcut, hcut]
  constructor
  · rintro ⟨u', m, text, stop, rest, hsome, hnot, hisStop, htext, hm, hh⟩
    obtain ⟨rfl, heq⟩ := Prod.mk.inj (Option.some.inj hsome)
    have hsplit : v ++ (t ++ c :: x) = (m ++ ',' :: text ++ [stop]) ++ rest := by simpa using heq
    have hc : c ∉ m ++ ',' :: text ++ [stop] := by
      intro hmem
      simp only [List.mem_append, List.mem_cons, List.not_mem_nil, or_false] at hmem
      rcases hmem with (hmem | rfl | hmem) | rfl
      · refine hmethod ?_
        rw [← hm, ← hlower]
        exact List.mem_map_of_mem (mem_trim hmem hspace)
      · exact hstop (.inl rfl)
      · exact hhandler (hh ▸ mem_trim hmem hspace)
      · exact hstop hisStop
    rcases List.append_eq_append_iff.1 hsplit with ⟨as, hfront, has⟩ | ⟨bs, rfl, -⟩
    · rcases List.eq_nil_or_concat as with rfl | ⟨as, d, rfl⟩
      · refine ⟨front, m, text, stop, [], ?_, hnot, hisStop, htext, hm, hh⟩
        rw [← List.append_nil v, ← hfront]
      · -- The end of the handler would be in front of the letter, or behind it.
        exfalso
        have hd : stop = d := by
          have hlast : (m ++ ',' :: text) ++ [stop] = (v ++ as) ++ [d] := by
            rw [hfront]
            simp
          exact List.singleton_inj.1 (List.append_inj' hlast rfl).2
        rcases List.append_eq_append_iff.1 has with ⟨cs, hcs, hbehind⟩ | ⟨cs, rfl, -⟩
        · cases cs with
          | nil =>
            refine ht d ?_ (hd ▸ hisStop)
            rw [← List.append_nil t, ← hcs]
            simp
          | cons c' cs =>
            obtain ⟨rfl, -⟩ := List.cons.inj hbehind
            refine hc ?_
            rw [hfront, hcs]
            simp
        · exact ht d (by simp) (hd ▸ hisStop)
    · exact ⟨front, m, text, stop, bs, by simp, hnot, hisStop, htext, hm, hh⟩
  · rintro ⟨u', m, text, stop, rest, hsome, hread⟩
    obtain ⟨rfl, rfl⟩ := Prod.mk.inj (Option.some.inj hsome)
    exact ⟨front, m, text, stop, rest ++ (t ++ c :: x), by simp, hread⟩

/-! ## The path -/

/-- **What the path is**: the text in quotes that stands first behind the `route!(`. -/
lemma extractRoutePath_eq_some_iff {front : Str} (h : ¬ routeCall <:+: front) {s path : Str} :
    extractRoutePath (front ++ routeCall ++ s) = some path ↔
      ∃ w rest, IsSpace w ∧ s = w ++ ('"' :: path ++ '"' :: rest) ∧ '"' ∉ path := by
  obtain ⟨start, hstart, hdrop⟩ := routeCallStart_eq (cut_routeCall h s)
  obtain ⟨w, hspace, hsplit⟩ := exists_isSpace_append s
  have hstarts : ∀ rest, Str.trimStart s = '"' :: rest ↔ ∃ w, IsSpace w ∧ s = w ++ '"' :: rest := by
    intro rest
    constructor
    · intro htrim
      exact ⟨_, hspace, by rw [← htrim, hsplit]⟩
    · rintro ⟨w, hw, rfl⟩
      rw [Str.trimStart, List.dropWhile_append_of_pos hw, List.dropWhile_cons_of_neg (by decide)]
  unfold extractRoutePath
  rw [hstart]
  simp only [Option.bind_eq_bind, Option.bind_some, hdrop]
  constructor
  · intro hread
    split at hread
    · rename_i rest htrim
      obtain ⟨w, hw, rfl⟩ := (hstarts rest).1 htrim
      obtain ⟨⟨path', behind⟩, hcut, hpath⟩ := Option.bind_eq_some_iff.1 hread
      obtain ⟨rfl, hnot⟩ := Str.splitOnce_eq_some_iff.1 hcut
      obtain rfl := Option.some.inj hpath
      exact ⟨w, behind, hw, rfl, hnot⟩
    · cases hread
  · rintro ⟨w, rest, hw, hs, hnot⟩
    have htrim := (hstarts (path ++ '"' :: rest)).2 ⟨w, hw, hs⟩
    have hcut : Str.splitOnce '"' (path ++ '"' :: rest) = some (path, rest) :=
      Str.splitOnce_eq_some_iff.2 ⟨rfl, hnot⟩
    rw [htrim]
    simp only [hcut, Option.bind_some]
    rfl

end OpenApi

end Httpageboy
