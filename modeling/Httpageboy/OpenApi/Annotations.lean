import Httpageboy.OpenApi.Extract

set_option relaxedAutoImplicit false
set_option autoImplicit false

/-!
# The comments of a route

The loop of `parse_file` carries the comments read so far, the statement it is in, the comments of
that statement and whether it is in one. What a line is to the loop depends on the statements only:
a line continues a statement, begins one, or is a comment, a blank line or other code. A route is
documented by the run of comment lines and blank lines above the line on which its statement
begins.

## Main definitions

* `Httpageboy.OpenApi.roles` — what each line of a file is.
* `Httpageboy.OpenApi.readStatement` — a statement, from its first line on.
* `Httpageboy.OpenApi.runAbove`, `Httpageboy.OpenApi.notesAbove` — the comments above a line.

## Main results

* `Httpageboy.OpenApi.foldl_parseLine` — what the loop returns, from any of its states.
* `Httpageboy.OpenApi.parseText_annotated` — the comments of a route are those above it.
-/

namespace Httpageboy

namespace OpenApi

/-! ## Lines -/

/-- What a line is to the loop of `parse_file`. -/
inductive Role
  | comment (text : Str)
  | blank
  | start
  | continued
  | other
deriving DecidableEq

/-- The text of a comment line. -/
def Role.text : Role → Option Str
  | .comment text => some text
  | _ => none

/-- Comment lines and blank lines. -/
def Role.isNote : Role → Bool
  | .comment _ => true
  | .blank => true
  | _ => false

/-- What a trimmed line is outside a statement. -/
def lineRole (trimmed : Str) : Role :=
  match commentText trimmed with
  | some text => .comment text
  | none =>
    if isRouteStatement trimmed then .start
    else if trimmed = [] then .blank
    else .other

/-- The statement that is open behind a line outside a statement. -/
def openAfter (trimmed : Str) : Option Str :=
  if lineRole trimmed = .start ∧ routeStatementComplete trimmed = false then some trimmed else none

/-- What the lines are, when the given statement is open in front of them. -/
def roles : Option Str → List Str → List Role
  | _, [] => []
  | none, line :: lines =>
    lineRole (Str.trim line) :: roles (openAfter (Str.trim line)) lines
  | some statement, line :: lines =>
    let statement := statement ++ ' ' :: Str.trim line
    .continued :: roles (if routeStatementComplete statement then none else some statement) lines

/-- A statement, read on from what there is of it: its text and the lines behind it, if it ends. -/
def readStatement (statement : Str) : List Str → Option (Str × List Str)
  | [] => if routeStatementComplete statement then some (statement, []) else none
  | line :: lines =>
    if routeStatementComplete statement then some (statement, line :: lines)
    else readStatement (statement ++ ' ' :: Str.trim line) lines

/-- The maximal run of comment lines and blank lines at the end of some lines. -/
def runAbove (above : List Role) : List Role := above.rtakeWhile Role.isNote

/-- The texts of the comment lines in it. -/
def notesAbove (above : List Role) : List Str := (runAbove above).filterMap Role.text

/-- The route of the statement that begins with a line, if one does and a route is found in it. -/
def routeAt (upper : Char → Str) (above : List Role) (kind : Role) (line : Str)
    (below : List Str) : Option RouteDoc :=
  if kind = .start then
    (readStatement (Str.trim line) below).bind fun p => parseRoute upper p.1 (notesAbove above)
  else none

/-! ## The loop -/

/-- A comment is the last note above what follows it. -/
lemma notesAbove_comment (above : List Role) (text : Str) :
    notesAbove (above ++ [.comment text]) = notesAbove above ++ [text] := by
  have hrun : runAbove (above ++ [.comment text]) = runAbove above ++ [.comment text] :=
    List.rtakeWhile_concat_pos Role.isNote above (.comment text) rfl
  rw [notesAbove, hrun, List.filterMap_append]
  rfl

/-- A blank line does not end the notes. -/
lemma notesAbove_blank (above : List Role) : notesAbove (above ++ [.blank]) = notesAbove above := by
  have hrun : runAbove (above ++ [.blank]) = runAbove above ++ [.blank] :=
    List.rtakeWhile_concat_pos Role.isNote above .blank rfl
  rw [notesAbove, hrun, List.filterMap_append]
  exact List.append_nil _

/-- A line that is neither a comment nor blank ends the run. -/
lemma notesAbove_eq_nil {kind : Role} (h : kind.isNote = false) (above : List Role) :
    notesAbove (above ++ [kind]) = [] := by
  have hrun : runAbove (above ++ [kind]) = [] :=
    List.rtakeWhile_concat_neg Role.isNote above kind (by simp [h])
  rw [notesAbove, hrun]
  rfl

/-- A line outside a statement does not continue one. -/
lemma lineRole_ne_continued (trimmed : Str) : lineRole trimmed ≠ .continued := by
  unfold lineRole
  split
  · simp
  · split_ifs <;> simp

/-- No statement is open behind a line that does not begin one. -/
lemma openAfter_of_ne {trimmed : Str} (h : lineRole trimmed ≠ .start) :
    openAfter trimmed = none := by
  rw [openAfter, if_neg (fun hopen => h hopen.1)]

/-- A turn outside a statement, by what the line is. -/
lemma parseLine_outside (upper : Char → Str) (routes : List RouteDoc) (notes : List Str)
    (statement : Str) (comments : List Str) (line : Str) :
    parseLine upper ⟨routes, notes, statement, comments, false⟩ line =
      match lineRole (Str.trim line) with
      | .comment text => ⟨routes, notes ++ [text], statement, comments, false⟩
      | .blank => ⟨routes, notes, statement, comments, false⟩
      | .start =>
        if routeStatementComplete (Str.trim line) then
          ⟨routes ++ (parseRoute upper (Str.trim line) notes).toList, [], [], [], false⟩
        else ⟨routes, [], Str.trim line, notes, true⟩
      | _ => ⟨routes, [], statement, comments, false⟩ := by
  unfold parseLine lineRole
  simp only [Bool.false_eq_true, if_false]
  cases commentText (Str.trim line) with
  | some text => rfl
  | none =>
    cases hstart : isRouteStatement (Str.trim line) with
    | true => simp only [if_true]
    | false =>
      by_cases hblank : Str.trim line = []
      · simp [hblank]
      · simp [hblank]

/-- A turn in a statement. -/
lemma parseLine_inside (upper : Char → Str) (routes : List RouteDoc) (notes : List Str)
    (statement : Str) (comments : List Str) (line : Str) :
    parseLine upper ⟨routes, notes, statement, comments, true⟩ line =
      if routeStatementComplete (statement ++ ' ' :: Str.trim line) then
        ⟨routes ++ (parseRoute upper (statement ++ ' ' :: Str.trim line) comments).toList,
          notes, [],
          [], false⟩
      else ⟨routes, notes, statement ++ ' ' :: Str.trim line, comments, true⟩ := rfl

/-- A statement that is complete is not read on. -/
lemma readStatement_complete {statement : Str} (h : routeStatementComplete statement = true)
    (lines : List Str) : readStatement statement lines = some (statement, lines) := by
  cases lines <;> simp [readStatement, h]

/-- A statement that is not complete goes on with the next line. -/
lemma readStatement_cons {statement : Str} (h : routeStatementComplete statement = false)
    (line : Str) (lines : List Str) : readStatement statement (line :: lines) =
      readStatement (statement ++ ' ' :: Str.trim line) lines := by
  rw [readStatement, if_neg (by simp [h])]

/-- The routes of the statements that begin with some lines, given what the lines above are. -/
def routesBelow (upper : Char → Str) : List Role → List Role → List Str → List RouteDoc
  | above, kind :: kinds, line :: lines =>
    (routeAt upper above kind line lines).toList ++ routesBelow upper (above ++ [kind]) kinds lines
  | _, _, _ => []

/-- A line that begins no statement yields no route. -/
lemma routesBelow_cons_of_ne {upper : Char → Str} {above : List Role} {kind : Role}
    (h : kind ≠ .start) (kinds : List Role) (line : Str) (lines : List Str) :
    routesBelow upper above (kind :: kinds) (line :: lines) =
      routesBelow upper (above ++ [kind]) kinds lines := by
  rw [routesBelow, routeAt, if_neg h]
  rfl

/-- **What the loop of `parse_file` returns**, outside a statement and in one.

**Proof sketch.** Induction on the lines to come, for both states at once. Outside a statement the
comments that are carried are those at the end of the lines above, and every kind of line keeps
this so. In a statement no comments are carried; the line that completes it yields the route with
the comments that were put aside at its first line, and the other lines of it yield nothing. -/
theorem foldl_parseLine (upper : Char → Str) (lines : List Str) :
    (∀ above routes statement comments,
      (lines.foldl (parseLine upper)
          ⟨routes, notesAbove above, statement, comments, false⟩).routes =
        routes ++ routesBelow upper above (roles none lines) lines) ∧
    ∀ above routes statement comments, notesAbove above = [] →
      routeStatementComplete statement = false →
      (lines.foldl (parseLine upper) ⟨routes, [], statement, comments, true⟩).routes =
        routes ++ (((readStatement statement lines).bind
            fun p => parseRoute upper p.1 comments).toList ++
          routesBelow upper above (roles (some statement) lines) lines) := by
  induction lines with
  | nil =>
    refine ⟨fun above routes statement comments => ?_,
      fun above routes statement comments hnotes hopen => ?_⟩
    · simp [routesBelow]
    · simp [readStatement, hopen, routesBelow]
  | cons line lines ih =>
    obtain ⟨houtside, hinside⟩ := ih
    refine ⟨fun above routes statement comments => ?_,
      fun above routes statement comments hnotes hopen => ?_⟩
    · rw [List.foldl_cons, parseLine_outside, roles]
      cases hrole : lineRole (Str.trim line) with
      | continued => exact absurd hrole (lineRole_ne_continued _)
      | comment text =>
        rw [openAfter_of_ne (by simp [hrole]), routesBelow_cons_of_ne (by simp), ← houtside,
          notesAbove_comment]
      | blank =>
        rw [openAfter_of_ne (by simp [hrole]), routesBelow_cons_of_ne (by simp), ← houtside,
          notesAbove_blank]
      | other =>
        rw [openAfter_of_ne (by simp [hrole]), routesBelow_cons_of_ne (by simp), ← houtside,
          notesAbove_eq_nil rfl]
      | start =>
        have hnext : notesAbove (above ++ [.start]) = [] := notesAbove_eq_nil rfl above
        rw [routesBelow, routeAt, if_pos rfl]
        by_cases hcomplete : routeStatementComplete (Str.trim line) = true
        · have hnone : openAfter (Str.trim line) = none := by simp [openAfter, hcomplete]
          rw [hnone, readStatement_complete hcomplete, ← List.append_assoc]
          simp only [hcomplete, if_true]
          rw [← hnext, houtside]
          rfl
        · have hfalse : routeStatementComplete (Str.trim line) = false := by simpa using hcomplete
          have hsome : openAfter (Str.trim line) = some (Str.trim line) := by
            simp [openAfter, hrole, hfalse]
          rw [hsome, ← hinside _ _ _ _ hnext hfalse]
          simp only [hfalse, Bool.false_eq_true, if_false]
    · have hnext : notesAbove (above ++ [.continued]) = [] := notesAbove_eq_nil rfl above
      rw [List.foldl_cons, parseLine_inside, roles, routesBelow_cons_of_ne (by simp),
        readStatement_cons hopen]
      by_cases hcomplete : routeStatementComplete (statement ++ ' ' :: Str.trim line) = true
      · rw [if_pos hcomplete, if_pos hcomplete, readStatement_complete hcomplete,
          ← List.append_assoc, ← houtside, hnext]
        rfl
      · have hfalse : routeStatementComplete (statement ++ ' ' :: Str.trim line) = false := by
          simpa using hcomplete
        rw [if_neg hcomplete, if_neg hcomplete, ← hinside _ _ _ _ hnext hfalse]

/-! ## The comments of a route -/

/-- The routes below some lines, line by line. -/
lemma routesBelow_eq (upper : Char → Str) (above kinds : List Role) (lines : List Str) :
    routesBelow upper above kinds lines =
      (List.range lines.length).filterMap fun i =>
        kinds[i]?.bind fun kind => lines[i]?.bind fun line =>
          routeAt upper (above ++ kinds.take i) kind line (lines.drop (i + 1)) := by
  induction lines generalizing above kinds with
  | nil => cases kinds <;> rfl
  | cons line lines ih =>
    cases kinds with
    | nil =>
      symm
      exact List.filterMap_eq_nil_iff.2 fun i _ => rfl
    | cons kind kinds =>
      have hshift : ∀ i, above ++ [kind] ++ kinds.take i =
          above ++ (kind :: kinds).take (i + 1) := by
        intro i
        rw [List.append_assoc, List.take_succ_cons, List.singleton_append]
      have hfirst : ((kind :: kinds)[0]?.bind fun kind' => (line :: lines)[0]?.bind fun line' =>
          routeAt upper (above ++ (kind :: kinds).take 0) kind' line'
            ((line :: lines).drop (0 + 1))) =
            routeAt upper above kind line lines := by
        simp
      rw [routesBelow, ih, List.length_cons, List.range_succ_eq_map, List.filterMap_cons,
        List.filterMap_map, hfirst]
      simp only [hshift]
      cases routeAt upper above kind line lines <;> rfl

/-- What the lines of a file are. -/
def lineRoles (lines : List Str) : List Role := roles none lines

/-- The route of the statement that begins with the line of this number, if one does and a route
is found in it. -/
def routeOfLine (upper : Char → Str) (lines : List Str) (i : ℕ) : Option RouteDoc :=
  (lineRoles lines)[i]?.bind fun kind => lines[i]?.bind fun line =>
    routeAt upper ((lineRoles lines).take i) kind line (lines.drop (i + 1))

/-- The line with the number `j` is in the run of comment lines and blank lines that ends above the
line with the number `i`. -/
def InRunAbove (lines : List Str) (j i : ℕ) : Prop :=
  i - (runAbove ((lineRoles lines).take i)).length ≤ j ∧ j < i

/-- The lines in a run are comment lines and blank lines. -/
lemma isNote_of_inRunAbove {lines : List Str} {i j : ℕ} {kind : Role} (h : InRunAbove lines j i)
    (hkind : (lineRoles lines)[j]? = some kind) : kind.isNote = true := by
  obtain ⟨hle, hlt⟩ := h
  unfold runAbove at hle
  have hsplit : ((lineRoles lines).take i).rdropWhile Role.isNote ++
      ((lineRoles lines).take i).rtakeWhile Role.isNote = (lineRoles lines).take i :=
    List.rdropWhile_append_rtakeWhile
  have hlength := congrArg List.length hsplit
  rw [List.length_append] at hlength
  have hbound : ((lineRoles lines).take i).length ≤ i := by
    rw [List.length_take]
    omega
  have hat : ((lineRoles lines).take i)[j]? = some kind := by
    rw [List.getElem?_take_of_lt hlt, hkind]
  rw [← hsplit, List.getElem?_append_right (by omega)] at hat
  exact List.mem_rtakeWhile_imp (List.mem_of_getElem? hat)

/-- **Route annotations never leak.** The routes of a file are those of the lines that begin a
statement, in order, each with the texts of the comment lines in the maximal run of comment lines
and blank lines above its first line; and no line is in the runs above two statements.

**Proof sketch.** The first part is the invariant of the loop. For the second one, the first line of
the earlier statement would be in the run above the later one, but it is no comment. -/
theorem parseText_annotated (upper : Char → Str) (content : Str) :
    parseText upper content =
        (List.range (Str.lines content).length).filterMap (routeOfLine upper (Str.lines content)) ∧
      ∀ i i' j, (lineRoles (Str.lines content))[i]? = some .start →
        (lineRoles (Str.lines content))[i']? = some .start →
        InRunAbove (Str.lines content) j i → InRunAbove (Str.lines content) j i' → i = i' := by
  refine ⟨?_, fun i i' j hi hi' habove habove' => ?_⟩
  · have hloop := (foldl_parseLine upper (Str.lines content)).1 [] [] [] []
    rw [routesBelow_eq] at hloop
    exact hloop
  · have hnever : ∀ {i i'}, (lineRoles (Str.lines content))[i]? = some .start →
        InRunAbove (Str.lines content) j i → InRunAbove (Str.lines content) j i' → ¬ i < i' := by
      intro i i' hi habove habove' hlt
      have hrun : InRunAbove (Str.lines content) i i' := ⟨habove'.1.trans habove.2.le, hlt⟩
      cases isNote_of_inRunAbove hrun hi
    exact le_antisymm (not_lt.1 (hnever hi' habove' habove)) (not_lt.1 (hnever hi habove habove'))

end OpenApi

end Httpageboy
