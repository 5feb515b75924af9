import Httpageboy.Runtime.CloseDiscipline

set_option relaxedAutoImplicit false
set_option autoImplicit false

/-!
# White space around header values

A header value may stand between spaces and tabs that do not belong to it. `parse_raw_only` takes
those in front of the value away and keeps those behind it; `wants_close` trims every token once
more, and `origin` hands the value on as it is.

## Main definitions

* `Httpageboy.PaddedField` — a header line with white space around its value.
* `Httpageboy.Repads` — two lines that differ in that white space only.
* `Httpageboy.SameBack` — two lines with the same white space behind their value.
* `Httpageboy.ReadAlike` — two requests whose headers say the same to the server.

## Main results

* `Httpageboy.PaddedField.headerEntry_eq_iff` — when the entry of a line is its value.
* `Httpageboy.readAlike_iff` — when two requests that differ in such white space are read alike.
-/

namespace Httpageboy

open Search

variable {H U : Type}

/-! ## Lines -/

/-- A header line: a name, a colon, and a value with spaces and tabs around it. -/
structure PaddedField where
  name : Str
  front : Str
  value : Str
  back : Str
  colon : ':' ∉ name
  trimmed : Str.trim value = value
  front_ows : ∀ c ∈ front, isOws c = true
  back_ows : ∀ c ∈ back, isOws c = true

/-- The line as it is written. -/
def PaddedField.line (f : PaddedField) : Str := f.name ++ ':' :: (f.front ++ f.value ++ f.back)

/-- The entry `parse_raw_only` makes of a header line, if it has a colon. -/
def headerEntry (line : Str) : Option (Str × Str) :=
  (Str.splitOnce ':' line).map fun p => (p.1, Str.trimStart p.2)

/-- Headers are read line by line. -/
lemma parseHeaders_append (lines lines' : List Str) :
    parseHeaders (lines ++ lines') = parseHeaders lines ++ parseHeaders lines' :=
  List.filterMap_append

namespace PaddedField

/-- The first colon of a line is the one behind the name. -/
lemma splitOnce_line (f : PaddedField) :
    Str.splitOnce ':' f.line = some (f.name, f.front ++ f.value ++ f.back) :=
  Str.splitOnce_eq_some_iff.2 ⟨rfl, f.colon⟩

/-- The value of a line is what trimming at both ends leaves. -/
lemma trim_value (f : PaddedField) : Str.trim (f.front ++ f.value ++ f.back) = f.value :=
  Str.trim_append (fun c hc => isWhitespace_of_isOws (f.front_ows c hc)) f.trimmed
    fun c hc => isWhitespace_of_isOws (f.back_ows c hc)

/-- What `parse_raw_only` reads behind the colon: the value and the white space behind it, or
nothing at all when the value is empty. -/
lemma trimStart_value (f : PaddedField) :
    Str.trimStart (f.front ++ f.value ++ f.back) =
      if f.value = [] then [] else f.value ++ f.back := by
  have hfront : ∀ c ∈ f.front, Str.isWhitespace c = true := fun c hc =>
    isWhitespace_of_isOws (f.front_ows c hc)
  have hback : ∀ c ∈ f.back, Str.isWhitespace c = true := fun c hc =>
    isWhitespace_of_isOws (f.back_ows c hc)
  unfold Str.trimStart
  rw [List.append_assoc, List.dropWhile_append_of_pos hfront]
  have hstart : f.value.dropWhile Str.isWhitespace = f.value := Str.trimStart_of_trim f.trimmed
  cases hvalue : f.value with
  | nil =>
    rw [if_pos rfl, List.nil_append]
    exact List.dropWhile_eq_nil_iff.2 hback
  | cons c s =>
    rw [hvalue] at hstart
    have hc : ¬ Str.isWhitespace c = true := List.dropWhile_eq_self_iff.1 hstart (by simp)
    rw [if_neg (List.cons_ne_nil c s)]
    exact List.dropWhile_cons_of_neg hc

/-- What is read of a line: the padding in front of the value is stripped, that behind it stays. -/
lemma headerEntry_line (f : PaddedField) :
    headerEntry f.line = some (f.name, if f.value = [] then [] else f.value ++ f.back) := by
  unfold headerEntry
  rw [splitOnce_line, Option.map_some, trimStart_value]

/-- Two lines with the same name and value have the same entry when the white space behind the
value is the same. -/
lemma headerEntry_line_eq_iff {f g : PaddedField} (hname : f.name = g.name)
    (hvalue : f.value = g.value) :
    headerEntry f.line = headerEntry g.line ↔ f.value = [] ∨ f.back = g.back := by
  rw [headerEntry_line, headerEntry_line, hname, hvalue, Option.some.injEq, Prod.mk.injEq]
  by_cases hnil : g.value = []
  · simp [hnil]
  · simp [hnil]

/-- **When the entry of a line is its value**: when the value is empty, or nothing stands behind
it. -/
theorem headerEntry_eq_iff (f : PaddedField) :
    headerEntry f.line = some (f.name, f.value) ↔ f.value = [] ∨ f.back = [] := by
  rw [headerEntry_line, Option.some.injEq, Prod.mk.injEq]
  by_cases hnil : f.value = []
  · simp [hnil]
  · simp [hnil]

/-- A line has one name and one value, and one white space behind a value that is not empty. -/
lemma eq_of_line {f g : PaddedField} (h : f.line = g.line) :
    f.name = g.name ∧ f.value = g.value ∧ (f.value = [] ∨ f.back = g.back) := by
  have hsplit := f.splitOnce_line
  rw [h, g.splitOnce_line, Option.some.injEq, Prod.mk.injEq] at hsplit
  obtain ⟨hname, hrest⟩ := hsplit
  have hvalue : f.value = g.value := by
    rw [← f.trim_value, ← hrest, g.trim_value]
  exact ⟨hname.symm, hvalue, (headerEntry_line_eq_iff hname.symm hvalue).1 (by rw [h])⟩

end PaddedField

/-- Two lines are the same, or differ in the white space around their value only. -/
def Repads (line line' : Str) : Prop :=
  line = line' ∨ ∃ f f' : PaddedField, f.line = line ∧ f'.line = line' ∧ f.name = f'.name ∧
    f.value = f'.value

/-- Two lines have the same white space behind their value, or the value is empty. -/
def SameBack (line line' : Str) : Prop :=
  ∀ f f' : PaddedField, f.line = line → f'.line = line' → f.value = [] ∨ f.back = f'.back

/-- Lines that differ in white space have the same entry when they have the same white space
behind their value. -/
lemma Repads.headerEntry_eq_iff {line line' : Str} (h : Repads line line') :
    headerEntry line = headerEntry line' ↔ SameBack line line' := by
  rcases h with rfl | ⟨f, f', rfl, rfl, hname, hvalue⟩
  · constructor
    · intro _ f f' hf hf'
      exact (PaddedField.eq_of_line (hf.trans hf'.symm)).2.2
    · intro _
      rfl
  · rw [PaddedField.headerEntry_line_eq_iff hname hvalue]
    constructor
    · intro h g g' hg hg'
      obtain ⟨-, hvalueg, hbackg⟩ := PaddedField.eq_of_line hg
      obtain ⟨-, hvalueg', hbackg'⟩ := PaddedField.eq_of_line hg'
      rcases h with hnil | hback
      · exact .inl (hvalueg.trans hnil)
      · rcases hbackg with hnil | hbackg
        · exact .inl hnil
        · rcases hbackg' with hnil | hbackg'
          · exact .inl (hvalueg.trans (hvalue.trans (hvalueg'.symm.trans hnil)))
          · exact .inr (hbackg.trans (hback.trans hbackg'.symm))
    · intro h
      exact h f f' rfl rfl

/-- White space does not decide whether a line has an entry. -/
lemma Repads.isSome_eq {line line' : Str} (h : Repads line line') :
    (headerEntry line).isSome = (headerEntry line').isSome := by
  rcases h with rfl | ⟨f, f', rfl, rfl, -, -⟩
  · rfl
  · rw [f.headerEntry_line, f'.headerEntry_line]
    rfl

/-- White space does not decide whether a line announces the close. -/
lemma Repads.closes_eq {line line' : Str} (h : Repads line line') :
    (headerEntry line).any closeEntry = (headerEntry line').any closeEntry := by
  rcases h with rfl | ⟨f, f', rfl, rfl, hname, hvalue⟩
  · rfl
  · have htokens : ∀ g : PaddedField,
        ((if g.value = [] then [] else g.value ++ g.back).splitOn ',').map Str.trim =
          (g.value.splitOn ',').map Str.trim := by
      intro g
      by_cases hnil : g.value = []
      · rw [if_pos hnil, hnil]
      · rw [if_neg hnil]
        exact Str.map_trim_splitOn_append (by decide)
          (fun c hc => isWhitespace_of_isOws (g.back_ows c hc)) g.value
    have hcloses : ∀ g : PaddedField, (headerEntry g.line).any closeEntry =
        (Str.eqIgnoreAsciiCase g.name "connection".toList &&
          ((g.value.splitOn ',').map Str.trim).any
            fun token => Str.eqIgnoreAsciiCase token "close".toList) := by
      intro g
      rw [g.headerEntry_line, ← htokens, List.any_map]
      rfl
    rw [hcloses, hcloses, hname, hvalue]

/-! ## Requests -/

/-- The entries of lines that have entries at the same places. -/
lemma filterMap_eq_iff {α β : Type} {e : α → Option β} {l l' : List α}
    (h : List.Forall₂ (fun x y => (e x).isSome = (e y).isSome) l l') :
    l.filterMap e = l'.filterMap e ↔ List.Forall₂ (fun x y => e x = e y) l l' := by
  induction h with
  | nil => simp
  | @cons x y l l' hxy hrest ih =>
    rw [List.forall₂_cons, ← ih]
    cases hx : e x with
    | none =>
      have hy : e y = none := by simpa [hx] using hxy
      rw [List.filterMap_cons_none hx, List.filterMap_cons_none hy, hy]
      simp
    | some a =>
      rw [hx, Option.isSome_some] at hxy
      obtain ⟨b, hy⟩ := Option.isSome_iff_exists.1 hxy.symm
      rw [List.filterMap_cons_some hx, List.filterMap_cons_some hy, hy, List.cons.injEq,
        Option.some.injEq]

/-- The headers of requests that differ in white space. -/
lemma parseHeaders_eq_iff {lines lines' : List Str} (h : List.Forall₂ Repads lines lines') :
    parseHeaders lines = parseHeaders lines' ↔ List.Forall₂ SameBack lines lines' := by
  have hentries : parseHeaders lines = parseHeaders lines' ↔
      List.Forall₂ (fun x y => headerEntry x = headerEntry y) lines lines' :=
    filterMap_eq_iff (h.imp fun _ _ => Repads.isSome_eq)
  rw [hentries]
  clear hentries
  induction h with
  | nil => simp
  | cons hline _ ih =>
    rw [List.forall₂_cons, List.forall₂_cons]
    exact and_congr hline.headerEntry_eq_iff ih

/-- Whether headers announce the close does not depend on white space. -/
lemma headersClose_parseHeaders {lines lines' : List Str} (h : List.Forall₂ Repads lines lines') :
    headersClose (parseHeaders lines) = headersClose (parseHeaders lines') := by
  have hany : ∀ lines : List Str, headersClose (parseHeaders lines) =
      lines.any fun line => (headerEntry line).any closeEntry := by
    intro lines
    rw [headersClose_eq_any]
    show (lines.filterMap headerEntry).any closeEntry = _
    rw [List.any_filterMap]
    rfl
  rw [hany, hany]
  induction h with
  | nil => rfl
  | cons hline _ ih => rw [List.any_cons, List.any_cons, hline.closes_eq, ih]

/-- The headers of two requests say the same to the server: they are equal, announce the close
alike, and name the same origin, about which every policy decides alike. -/
structure ReadAlike (request request' : Request) : Prop where
  headers : request.headers = request'.headers
  close : request.wantsClose = request'.wantsClose
  origin : request.origin = request'.origin
  cors : ∀ policy : CorsPolicy,
    policy.headerLines request.origin = policy.headerLines request'.origin

/-- An accepted head stays accepted when its header lines change. -/
lemma parseHead_of_lines {head head' requestLine : Str} {lines lines' : List Str} {body : Bytes}
    {routes : Routes H U} {request : Request}
    (hlines : splitPair '\r' '\n' head = requestLine :: lines)
    (hlines' : splitPair '\r' '\n' head' = requestLine :: lines')
    (hok : parseHead head body routes = .ok request) :
    request.headers = parseHeaders lines ∧
      parseHead head' body routes = .ok { request with headers := parseHeaders lines' } := by
  obtain ⟨line, method, path, version, hline, hwords, hmethod, hversion, hpath, rfl⟩ :=
    parseHead_eq_ok_iff.1 hok
  have hfirst := hlines.symm.trans hline
  rw [List.cons.injEq] at hfirst
  obtain ⟨rfl, hrest⟩ := hfirst
  have hrest' : headerLines head' = lines' := by
    unfold headerLines
    rw [hlines']
    rfl
  refine ⟨?_, ?_⟩
  · rw [hrest]
    rfl
  · apply parseHead_eq_ok_iff.2
    refine ⟨requestLine, method, path, version, ?_, hwords, hmethod, hversion, hpath, ?_⟩
    · rw [hlines', hrest']
    · rw [hrest']
      rfl

/-- **When header values are insensitive to optional white space.** Of two framed requests that
differ only in the white space around their header values both are accepted or none, and they
announce the close alike; but the entry of a header line is its value only when the value is empty
or nothing stands behind it, and the two requests are read alike exactly when they have the same
white space behind every value that is not empty.

**Proof sketch.** `parse_raw_only` takes the white space in front of a value away and keeps what
is behind it, so that an entry is its value with the white space behind it. Every token of a
`Connection` header is trimmed at both ends before it is compared; nothing trims an `Origin`. -/
theorem readAlike_iff (routes : Routes H U) {raw raw' body : Bytes} {head head' : Str}
    (requestLine : Str) (lines lines' : List Str) {request : Request}
    (hsplit : BlankSplit raw head body) (hsplit' : BlankSplit raw' head' body)
    (hlines : splitPair '\r' '\n' head = requestLine :: lines)
    (hlines' : splitPair '\r' '\n' head' = requestLine :: lines')
    (hpads : List.Forall₂ Repads lines lines') (hok : parseRawOnly raw routes = .ok request) :
    (∀ before (f : PaddedField) after, lines = before ++ f.line :: after →
      (request.headers = parseHeaders before ++ (f.name, f.value) :: parseHeaders after ↔
        f.value = [] ∨ f.back = [])) ∧
    ∃ request', parseRawOnly raw' routes = .ok request' ∧
      request.wantsClose = request'.wantsClose ∧
      (ReadAlike request request' ↔ List.Forall₂ SameBack lines lines') := by
  rw [parseRawOnly_of_split hsplit] at hok
  obtain ⟨hheaders, hok'⟩ := parseHead_of_lines hlines hlines' hok
  have hclose : headersClose request.headers = headersClose (parseHeaders lines') := by
    rw [hheaders]
    exact headersClose_parseHeaders hpads
  constructor
  · intro before f after hbefore
    have hentries : request.headers =
        parseHeaders before ++
          (f.name, if f.value = [] then [] else f.value ++ f.back) :: parseHeaders after := by
      rw [hheaders, hbefore, parseHeaders_append]
      exact congrArg (parseHeaders before ++ ·) (List.filterMap_cons_some f.headerEntry_line)
    rw [hentries, ← f.headerEntry_eq_iff, f.headerEntry_line, List.append_cancel_left_eq,
      List.cons.injEq, Option.some.injEq]
    exact and_iff_left rfl
  · refine ⟨_, (parseRawOnly_of_split hsplit' routes).trans hok', hclose, ?_⟩
    rw [← parseHeaders_eq_iff hpads, ← hheaders]
    constructor
    · intro halike
      exact halike.headers
    · intro hequal
      have horigin : request.origin =
          Request.origin { request with headers := parseHeaders lines' } := by
        unfold Request.origin
        rw [hequal]
      exact ⟨hequal, hclose, horigin, fun policy => by rw [horigin]⟩

/-- The origin `http://a` between this white space. -/
def originField (front back : Str) (hfront : ∀ c ∈ front, isOws c = true)
    (hback : ∀ c ∈ back, isOws c = true) : PaddedField where
  name := "Origin".toList
  front := front
  value := "http://a".toList
  back := back
  colon := by decide
  trimmed := by decide
  front_ows := hfront
  back_ows := hback

/-- A space in front of the origin. -/
def spacedField : PaddedField := originField [' '] [] (by simp [isOws]) (by simp [isOws])

/-- A tab in front of the origin. -/
def tabbedField : PaddedField := originField ['\t'] [] (by simp [isOws]) (by simp [isOws])

/-- A space in front of the origin, and one behind it. -/
def trailingField : PaddedField := originField [' '] [' '] (by simp [isOws]) (by simp [isOws])

/-- The head of a request with one header line. -/
def originHead (f : PaddedField) : Str := "GET / HTTP/1.1\r\n".toList ++ f.line

/-- A request with one header line. -/
def originRequest (f : PaddedField) : Bytes := Utf8.encode (originHead f) ++ crlfcrlf

/-- The first blank line of such a request is the one behind the header line. -/
lemma originRequest_split {f : PaddedField}
    (h : position crlfcrlf (originRequest f) = some (Utf8.encode (originHead f)).length) :
    BlankSplit (originRequest f) (originHead f) [] :=
  ⟨by simp [originRequest], h⟩

/-- A tab in front of the origin is read like a space. -/
theorem tabbed_readAlike :
    ∃ request request', parseRawOnly (originRequest spacedField) (∅ : Routes Unit Unit) =
      .ok request ∧ parseRawOnly (originRequest tabbedField) (∅ : Routes Unit Unit) =
      .ok request' ∧ ReadAlike request request' := by
  have haccepted : (parseRawOnly (originRequest spacedField)
      (∅ : Routes Unit Unit)).toOption.isSome = true := by decide
  cases hok : parseRawOnly (originRequest spacedField) (∅ : Routes Unit Unit) with
  | error response =>
    rw [hok] at haccepted
    cases haccepted
  | ok request =>
    have hpads : Repads spacedField.line tabbedField.line := .inr ⟨_, _, rfl, rfl, rfl, rfl⟩
    have hsplit' : BlankSplit (originRequest tabbedField) (originHead tabbedField) [] :=
      originRequest_split (by decide)
    obtain ⟨-, request', hok', -, halike⟩ := readAlike_iff (∅ : Routes Unit Unit)
      "GET / HTTP/1.1".toList [spacedField.line] [tabbedField.line]
      (originRequest_split (by decide)) hsplit' (by decide) (by decide) (.cons hpads .nil) hok
    refine ⟨request, request', rfl, hok', halike.2 (.cons ?_ .nil)⟩
    apply hpads.headerEntry_eq_iff.1
    decide

/-- With a space behind it the same origin is not allowed any more. -/
theorem trailing_not_readAlike :
    ¬ ∀ (raw raw' body : Bytes) (head head' requestLine : Str) (lines lines' : List Str)
      (request request' : Request),
      BlankSplit raw head body → BlankSplit raw' head' body →
      splitPair '\r' '\n' head = requestLine :: lines →
      splitPair '\r' '\n' head' = requestLine :: lines' → List.Forall₂ Repads lines lines' →
      parseRawOnly raw (∅ : Routes Unit Unit) = .ok request →
      parseRawOnly raw' (∅ : Routes Unit Unit) = .ok request' → ReadAlike request request' := by
  intro h
  have horigin : ((parseRawOnly (originRequest spacedField)
      (∅ : Routes Unit Unit)).toOption.map Request.origin) = some (some "http://a".toList) := by
    decide
  have horigin' : ((parseRawOnly (originRequest trailingField)
      (∅ : Routes Unit Unit)).toOption.map Request.origin) = some (some "http://a ".toList) := by
    decide
  cases hok : parseRawOnly (originRequest spacedField) (∅ : Routes Unit Unit) with
  | error response =>
    rw [hok] at horigin
    cases horigin
  | ok request =>
    cases hok' : parseRawOnly (originRequest trailingField) (∅ : Routes Unit Unit) with
    | error response =>
      rw [hok'] at horigin'
      cases horigin'
    | ok request' =>
      rw [hok] at horigin
      rw [hok'] at horigin'
      have halike := h _ _ [] (originHead spacedField) (originHead trailingField)
        "GET / HTTP/1.1".toList [spacedField.line] [trailingField.line] request request'
        (originRequest_split (by decide)) (originRequest_split (by decide)) (by decide) (by decide)
        (.cons (.inr ⟨_, _, rfl, rfl, rfl, rfl⟩) .nil) hok hok'
      have hcors := halike.cors { CorsPolicy.default with allowOrigin := "http://a".toList }
      rw [Option.some.inj horigin, Option.some.inj horigin'] at hcors
      revert hcors
      decide

end Httpageboy
