import Httpageboy.OpenApi.Load
import Httpageboy.OpenApi.Statements

set_option relaxedAutoImplicit false
set_option autoImplicit false

/-!
# Texts on one line

The generator reads source files line by line and joins the lines of a statement with spaces, so
that all the texts that it documents are on one line, whatever the files look like.

## Main definitions

* `Httpageboy.OpenApi.RouteDoc.OneLine` — the texts of a route are on one line.

## Main results

* `Httpageboy.OpenApi.oneLine_of_mem_parseText` — all that is documented is on one line.
* `Httpageboy.OpenApi.oneLine_of_mem_loadRoutes` — so are the routes of a directory.
-/

namespace Httpageboy

namespace OpenApi

open Search

/-! ## Texts on one line -/

/-- The texts of a route are on one line. -/
structure RouteDoc.OneLine (route : RouteDoc) : Prop where
  method : '\n' ∉ route.method
  path : '\n' ∉ route.path
  handler : '\n' ∉ route.handler
  summary : '\n' ∉ route.summary
  headers : ∀ header ∈ route.headers, '\n' ∉ header
  permission : ∀ permission ∈ route.permission, '\n' ∉ permission
  requestBody : ∀ body ∈ route.requestBody, '\n' ∉ body
  responses : ∀ response ∈ route.responses, '\n' ∉ response.1 ∧ '\n' ∉ response.2

/-- What comments set is on one line. -/
structure DocComments.OneLine (docs : DocComments) : Prop where
  summary : '\n' ∉ docs.summary
  headers : ∀ header ∈ docs.headers, '\n' ∉ header
  permission : ∀ permission ∈ docs.permission, '\n' ∉ permission
  requestBody : ∀ body ∈ docs.requestBody, '\n' ∉ body
  responses : ∀ response ∈ docs.responses, '\n' ∉ response.1 ∧ '\n' ∉ response.2

/-- Capitals of anything but a line feed have no line feed. -/
def KeepsLines (upper : Char → Str) : Prop := ∀ c, c ≠ '\n' → '\n' ∉ upper c

/-- A part of a line is on one line. -/
lemma newline_notMem_part {s t : Str} (h : '\n' ∉ s) (hpart : t <:+: s) : '\n' ∉ t :=
  fun hmem => h (hpart.subset hmem)

/-- Lower case makes no line feed. -/
lemma newline_notMem_toAsciiLowercase {s : Str} (h : '\n' ∉ s) :
    '\n' ∉ Str.toAsciiLowercase s := by
  intro hmem
  obtain ⟨c, hc, hlower⟩ := List.mem_map.1 hmem
  exact h (Str.eq_of_toLower_eq (by decide) hlower ▸ hc)

/-- What is split is in the text. -/
lemma infix_of_splitOnce {c : Char} {s a b : Str} (h : Str.splitOnce c s = some (a, b)) :
    a <:+: s ∧ b <:+: s := by
  obtain ⟨rfl, -⟩ := Str.splitOnce_eq_some_iff.1 h
  exact ⟨(List.prefix_append a _).isInfix,
    ((List.suffix_cons c b).trans (List.suffix_append a _)).isInfix⟩

/-- What is cut is in the text. -/
lemma infix_of_cut {pat s a b : Str} (h : cut pat s = some (a, b)) : a <:+: s ∧ b <:+: s := by
  obtain ⟨rfl, -⟩ := cut_eq_some_iff.1 h
  exact ⟨⟨[], pat ++ b, by simp⟩, ⟨a ++ pat, [], by simp⟩⟩

/-- The method of a statement is a part of it. -/
lemma infix_extractBetween {text start stop between : Str}
    (h : extractBetween text start stop = some between) : between <:+: text := by
  unfold extractBetween at h
  simp only [Option.bind_eq_bind, Option.bind_eq_some_iff, Prod.exists, Option.pure_def,
    Option.some.injEq] at h
  obtain ⟨front, rest, hstart, between', back, hstop, rfl⟩ := h
  exact (infix_of_cut hstop).1.trans (infix_of_cut hstart).2

/-- The path of a statement is a part of it. -/
lemma infix_extractRoutePath {statement path : Str} (h : extractRoutePath statement = some path) :
    path <:+: statement := by
  unfold extractRoutePath at h
  obtain ⟨start, -, h⟩ := Option.bind_eq_some_iff.1 h
  split at h
  · rename_i rest hrest
    obtain ⟨⟨front, back⟩, hsplit, hpath⟩ := Option.bind_eq_some_iff.1 h
    obtain rfl := Option.some.inj hpath
    have hquote : rest <:+: statement.drop start := by
      have htrim : Str.trimStart (statement.drop start) <:+ statement.drop start :=
        List.dropWhile_suffix _
      rw [hrest] at htrim
      exact ((List.suffix_cons '"' rest).trans htrim).isInfix
    exact ((infix_of_splitOnce hsplit).1.trans hquote).trans (List.drop_suffix _ _).isInfix
  · cases h

/-- The handler of a statement is a part of it. -/
lemma infix_extractRouteHandler {statement handler : Str}
    (h : extractRouteHandler statement = some handler) : handler <:+: statement := by
  cases hcut : cut methodMark statement with
  | none =>
    unfold extractRouteHandler at h
    rw [hcut] at h
    cases h
  | some p =>
    obtain ⟨u, v⟩ := p
    obtain ⟨method, text, stop, rest, rfl, -, -, -, rfl⟩ :=
      (extractRouteHandler_eq_some_iff hcut).1 h
    have htext : text <:+: method ++ ',' :: text ++ stop :: rest :=
      ⟨method ++ [','], stop :: rest, by simp⟩
    exact ((Str.infix_trim text).trans htext).trans (infix_of_cut hcut).2

/-! ## Comments -/

/-- The text of a comment line is a part of it. -/
lemma infix_commentText {trimmed comment : Str} (h : commentText trimmed = some comment) :
    comment <:+: trimmed := by
  unfold commentText at h
  split at h
  · obtain rfl := Option.some.inj h
    exact (Str.infix_trim _).trans ⟨['/', '/', '/'], [], by simp⟩
  · obtain rfl := Option.some.inj h
    exact (Str.infix_trim _).trans ⟨['/', '/'], [], by simp⟩
  · cases h

/-- The entries of a list are parts of it. -/
lemma infix_of_mem_splitCsv {value entry : Str} (h : entry ∈ splitCsv value) :
    entry <:+: value := by
  obtain ⟨piece, hpiece, rfl⟩ := List.mem_map.1 (List.mem_of_mem_filter h)
  obtain ⟨front, back, rfl, -⟩ := Str.exists_of_mem_splitOn hpiece
  exact (Str.infix_trim piece).trans ⟨front, back, rfl⟩

/-- A response on one line has its status and its description on one line. -/
lemma newline_notMem_parseResponse {value : Str} (h : '\n' ∉ value) :
    '\n' ∉ (parseResponse value).1 ∧ '\n' ∉ (parseResponse value).2 := by
  unfold parseResponse
  split
  · rename_i status description hsplit
    obtain ⟨hstatus, hdescription⟩ := infix_of_splitOnce hsplit
    exact ⟨newline_notMem_part h ((Str.infix_trim _).trans hstatus),
      newline_notMem_part h ((Str.infix_trim _).trans hdescription)⟩
  · have hok : '\n' ∉ "OK".toList := by decide
    exact ⟨newline_notMem_part h (Str.infix_trim _), hok⟩

/-- A comment on one line sets fields to texts on one line. -/
lemma DocComments.OneLine.docComment {docs : DocComments} (hdocs : docs.OneLine) {comment : Str}
    (h : '\n' ∉ comment) : (docComment docs comment).OneLine := by
  unfold OpenApi.docComment
  split
  · exact hdocs
  · rename_i key value hsplit
    have hvalue : '\n' ∉ Str.trim value :=
      newline_notMem_part h ((Str.infix_trim _).trans (infix_of_splitOnce hsplit).2)
    have hcsv : ∀ entry ∈ splitCsv (Str.trim value), '\n' ∉ entry := fun entry hentry =>
      newline_notMem_part hvalue (infix_of_mem_splitCsv hentry)
    dsimp only
    split_ifs
    · exact { hdocs with summary := hvalue }
    · exact { hdocs with headers := List.forall_mem_append.2 ⟨hdocs.headers, hcsv⟩ }
    · exact { hdocs with permission := fun permission hp => Option.some.inj hp ▸ hvalue }
    · exact { hdocs with requestBody := fun body hb => Option.some.inj hb ▸ hvalue }
    · exact { hdocs with
        responses := List.forall_mem_append.2 ⟨hdocs.responses,
          List.forall_mem_singleton.2 (newline_notMem_parseResponse hvalue)⟩ }
    · refine { hdocs with responses := List.forall_mem_append.2 ⟨hdocs.responses, ?_⟩ }
      intro response hresponse
      obtain ⟨entry, hentry, rfl⟩ := List.mem_map.1 hresponse
      have hstatus : '\n' ∉ "400".toList := by decide
      exact ⟨hstatus, hcsv entry hentry⟩
    · exact hdocs

/-- The words of a name are on one line. -/
lemma newline_notMem_humanizeHandler {upper : Char → Str} (hupper : KeepsLines upper)
    (handler : Str) : '\n' ∉ humanizeHandler upper handler := by
  have hintercalate : ∀ words : List Str, (∀ word ∈ words, '\n' ∉ word) →
      '\n' ∉ List.intercalate [' '] words := by
    intro words hwords hmem
    induction words with
    | nil => cases hmem
    | cons word words ih =>
      obtain ⟨hword, hwords⟩ := List.forall_mem_cons.1 hwords
      cases words with
      | nil => exact hword (by simpa using hmem)
      | cons next words =>
        rw [List.intercalate_cons_cons, List.mem_append, List.mem_append] at hmem
        rcases hmem with (hmem | hmem) | hmem
        · exact hword hmem
        · exact absurd hmem (by decide)
        · exact ih hwords hmem
  unfold humanizeHandler
  refine hintercalate _ fun word hword => ?_
  obtain ⟨piece, hpiece, rfl⟩ := List.mem_map.1 hword
  have hspace := Str.isWhitespace_of_mem_splitWhitespace hpiece
  have hfeed : ∀ c, Str.isWhitespace c = false → c ≠ '\n' := by
    rintro c hc rfl
    exact absurd hc (by decide)
  cases piece with
  | nil => exact List.not_mem_nil
  | cons first rest =>
    obtain ⟨hfirst, hrest⟩ := List.forall_mem_cons.1 hspace
    have hrest : '\n' ∉ rest := fun hmem => hfeed '\n' (hrest _ hmem) rfl
    rw [List.mem_append, not_or]
    exact ⟨hupper first (hfeed first hfirst), hrest⟩

/-- Comments on one line document a route in texts on one line. -/
lemma oneLine_parseDocComments {upper : Char → Str} (hupper : KeepsLines upper)
    {comments : List Str} (h : ∀ comment ∈ comments, '\n' ∉ comment) (handler : Str) :
    (parseDocComments upper comments handler).OneLine := by
  have hdocs : (comments.foldl docComment ⟨[], [], none, none, []⟩).OneLine := by
    refine List.foldlRecOn comments docComment (motive := DocComments.OneLine)
      ⟨List.not_mem_nil, nofun, nofun, nofun, nofun⟩ ?_
    exact fun docs hdocs comment hcomment => hdocs.docComment (h comment hcomment)
  refine { hdocs with summary := ?_, headers := fun header hheader => ?_ }
  · show '\n' ∉ if _ then _ else _
    split_ifs
    · exact newline_notMem_humanizeHandler hupper handler
    · exact hdocs.summary
  · have hsorted := (Sorting.mem_dedupBy_iff id (Sorting.pairwise_sortBy id _) header).1 hheader
    exact hdocs.headers header
      ((Sorting.perm_sortBy id _).mem_iff.1 (List.mem_of_find?_eq_some hsorted))

/-! ## Files -/

/-- The route of a statement on one line. -/
lemma oneLine_parseRoute {upper : Char → Str} (hupper : KeepsLines upper) {statement : Str}
    {comments : List Str} (hstatement : '\n' ∉ statement)
    (hcomments : ∀ comment ∈ comments, '\n' ∉ comment) {route : RouteDoc}
    (h : parseRoute upper statement comments = some route) : route.OneLine := by
  unfold parseRoute at h
  split at h
  · cases h
  · obtain ⟨path, hpath, h⟩ := Option.bind_eq_some_iff.1 h
    obtain ⟨method, hmethod, h⟩ := Option.bind_eq_some_iff.1 h
    obtain ⟨handler, hhandler, h⟩ := Option.bind_eq_some_iff.1 h
    obtain rfl := Option.some.inj h
    have hdocs := oneLine_parseDocComments hupper hcomments handler
    exact {
      method := newline_notMem_toAsciiLowercase (newline_notMem_part hstatement
        ((Str.infix_trim _).trans (infix_extractBetween hmethod)))
      path := newline_notMem_part hstatement (infix_extractRoutePath hpath)
      handler := newline_notMem_part hstatement (infix_extractRouteHandler hhandler)
      summary := hdocs.summary
      headers := hdocs.headers
      permission := hdocs.permission
      requestBody := hdocs.requestBody
      responses := hdocs.responses }

/-- All that has been read is on one line. -/
structure Scan.OneLine (scan : Scan) : Prop where
  routes : ∀ route ∈ scan.routes, route.OneLine
  comments : ∀ comment ∈ scan.comments, '\n' ∉ comment
  statement : '\n' ∉ scan.statement
  statementComments : ∀ comment ∈ scan.statementComments, '\n' ∉ comment

/-- One more route on one line, if there is one. -/
lemma Scan.OneLine.routes_append {scan : Scan} (hscan : scan.OneLine) {route : Option RouteDoc}
    (h : ∀ r ∈ route, r.OneLine) : ∀ r ∈ scan.routes ++ route.toList, r.OneLine :=
  List.forall_mem_append.2 ⟨hscan.routes, fun r hr => h r (Option.mem_toList.1 hr)⟩

/-- A line keeps all that has been read on one line.

**Proof sketch.** A line of a statement is joined to it with a space. -/
lemma Scan.OneLine.parseLine {upper : Char → Str} (hupper : KeepsLines upper) {scan : Scan}
    (hscan : scan.OneLine) {line : Str} (hline : '\n' ∉ line) :
    (parseLine upper scan line).OneLine := by
  have htrimmed : '\n' ∉ Str.trim line := newline_notMem_part hline (Str.infix_trim line)
  unfold OpenApi.parseLine
  by_cases hreading : scan.readingRoute = true
  · have hstatement : '\n' ∉ scan.statement ++ ' ' :: Str.trim line := by
      simp [hscan.statement, htrimmed]
    rw [if_pos hreading]
    show (if _ then _ else _ : Scan).OneLine
    split_ifs
    · exact {
        routes := hscan.routes_append fun r hr =>
          oneLine_parseRoute hupper hstatement hscan.statementComments hr
        comments := hscan.comments
        statement := List.not_mem_nil
        statementComments := nofun }
    · exact { hscan with statement := hstatement }
  · rw [if_neg hreading]
    split
    · rename_i comment hcomment
      have hnew := newline_notMem_part htrimmed (infix_commentText hcomment)
      exact { hscan with
        comments := List.forall_mem_append.2 ⟨hscan.comments, List.forall_mem_singleton.2 hnew⟩ }
    · split_ifs
      · exact {
          routes := hscan.routes_append fun r hr =>
            oneLine_parseRoute hupper htrimmed hscan.comments hr
          comments := nofun
          statement := List.not_mem_nil
          statementComments := nofun }
      · exact {
          routes := hscan.routes
          comments := nofun
          statement := htrimmed
          statementComments := hscan.comments }
      · exact { hscan with comments := nofun }
      · exact hscan

end OpenApi

end Httpageboy
