import Httpageboy.OpenApi.Invocations

set_option relaxedAutoImplicit false
set_option autoImplicit false

/-!
# Which invocations of a source text are found

A source text is other text with invocations of the route macro in it. The generator goes through
its lines and reads one route of each statement; a statement begins with the first `route!(` of a
line that no earlier statement takes. Here is when it finds exactly the invocations.

## Main definitions

* `Httpageboy.OpenApi.sourceText`, `Httpageboy.OpenApi.placesOf` — a text with invocations in it,
  and the places of these.
* `Httpageboy.OpenApi.IsStart` — a statement begins behind some text.
* `Httpageboy.OpenApi.AllRead` — each invocation begins a statement that is read right.
* `Httpageboy.OpenApi.NoStray` — no other statement reads as a route.
* `Httpageboy.OpenApi.FindsAll` — the generator finds exactly the invocations.

## Main results

* `Httpageboy.OpenApi.mem_startsFrom_iff` — the places at which statements begin.
* `Httpageboy.OpenApi.map_triple_routesBelow` — what is read of a file is read at these places.
* `Httpageboy.OpenApi.parseText_complete` — when the generator finds exactly the invocations.
-/

namespace Httpageboy

namespace OpenApi

open Search Layout

/-! ## Source texts -/

/-- Other text and invocations by turns, and the text behind the last invocation. -/
def sourceText : List (Str × Invocation) → Str → Str
  | [], rest => rest
  | (front, inv) :: pieces, rest => front ++ (inv.text ++ sourceText pieces rest)

/-- An invocation in a text: what is in front of it and behind it. -/
structure Place where
  before : Str
  invocation : Invocation
  after : Str

/-- The places of the invocations of a source text. -/
def placesFrom (before : Str) : List (Str × Invocation) → Str → List Place
  | [], _ => []
  | (front, inv) :: pieces, rest =>
    ⟨before ++ front, inv, sourceText pieces rest⟩ ::
      placesFrom (before ++ front ++ inv.text) pieces rest

/-- The statement that is open behind a line, given the one that is open in front of it. -/
def nextOpen : Option Str → Str → Option Str
  | none, line => openAfter (Str.trim line)
  | some statement, line =>
    let statement := statement ++ ' ' :: Str.trim line
    if routeStatementComplete statement then none else some statement

/-- The lines above the end of a text. -/
def linesAbove (text : Str) : List Str := (text.splitOn '\n').dropLast

/-- The last line of a text. -/
def lineFront (text : Str) : Str := (text.splitOn '\n').getLast?.getD []

/-- A `route!(` behind this text begins a statement, if the given one is open in front of the text:
none is open at the start of its last line, and this line has no other `route!(` and is no
comment. -/
def IsStartAfter (statement : Option Str) (before : Str) : Prop :=
  (linesAbove before).foldl nextOpen statement = none ∧ ¬ routeCall <:+: lineFront before ∧
    ¬ "//".toList <+: Str.trimStart (lineFront before)

/-- A `route!(` behind this text begins a statement. -/
def IsStart (before : Str) : Prop := IsStartAfter none before

/-- What is read of the statement that begins on the last line of a text and goes on behind it. -/
def readFrom (before behind : Str) : Option (Str × Str × Str) :=
  (statementFrom (lineFront before) behind).bind readTriple

/-- Each invocation begins a statement, its statement is complete, and nothing gets in the way of
reading it. -/
def AllRead (places : List Place) : Prop :=
  ∀ p ∈ places, IsStart p.before ∧ closes 1 (p.invocation.opened ++ p.after) = true ∧
    ReadsRight (lineFront p.before) p.invocation

/-- No statement that begins elsewhere in the text reads as a route. -/
def NoStray (text : Str) (places : List Place) : Prop :=
  ∀ before behind, text = before ++ (routeCall ++ behind) → IsStart before →
    (∀ p ∈ places, p.before ≠ before) → readFrom before (routeCall ++ behind) = none

/-! ## The places at which statements begin -/

/-- Where a statement begins in the line at the given position of a text, if one does. -/
def startOn (offset : ℕ) (statement : Option Str) (line : Str) : List ℕ :=
  if statement = none ∧ lineRole (Str.trim line) = .start then
    [offset + (position routeCall line).getD 0]
  else []

/-- Where statements begin in the lines from the given position of a text on. -/
def startsFrom : ℕ → Option Str → List Str → List ℕ
  | _, _, [] => []
  | offset, statement, line :: lines =>
    startOn offset statement line ++
      startsFrom (offset + line.length + 1) (nextOpen statement line) lines

/-- Lines, joined by line feeds. -/
def joinLines (lines : List Str) : Str := List.intercalate ['\n'] lines

/-- The first line, a line feed and the others. -/
lemma joinLines_cons {line : Str} {lines : List Str} (h : lines ≠ []) :
    joinLines (line :: lines) = line ++ '\n' :: joinLines lines := by
  obtain ⟨next, rest, rfl⟩ := List.exists_cons_of_ne_nil h
  simp [joinLines, List.intercalate_cons_cons]

/-- A text consists of its lines. -/
lemma joinLines_splitOn (text : Str) : joinLines (text.splitOn '\n') = text :=
  List.intercalate_splitOn _

/-- There is no line feed in a line. -/
lemma newline_notMem_lines (text : Str) : ∀ line ∈ text.splitOn '\n', '\n' ∉ line :=
  fun _ hline => Str.notMem_of_mem_splitOn hline

/-- A line is no comment when it does not begin with two slashes. -/
lemma commentText_eq_none_iff (s : Str) : commentText s = none ↔ ¬ "//".toList <+: s := by
  match s with
  | [] => simp [commentText]
  | [c] => simp [commentText]
  | c :: d :: s =>
    by_cases h : c = '/' ∧ d = '/'
    · obtain ⟨rfl, rfl⟩ := h
      refine iff_of_false ?_ (by simp)
      cases s with
      | nil => simp [commentText]
      | cons e s =>
        by_cases he : e = '/' <;> simp [commentText, he]
    · refine iff_of_true ?_ fun hpre => h ?_
      · unfold commentText
        split
        · simp_all
        · simp_all
        · rfl
      · obtain ⟨t, ht⟩ := hpre
        have hcons : '/' = c ∧ '/' = d ∧ t = s := by simpa using ht
        exact ⟨hcons.1.symm, hcons.2.1.symm⟩

/-- A line with the call in it begins a statement. -/
lemma isRouteStatement_iff (s : Str) : isRouteStatement s = true ↔ routeCall <:+: s := by
  rw [isRouteStatement, ← Option.ne_none_iff_isSome, ne_eq, position_eq_none_iff, not_not]

/-- The role of a line: it begins a statement when the call is in it and it is no comment. -/
lemma lineRole_eq_start_iff (trimmed : Str) :
    lineRole trimmed = .start ↔ routeCall <:+: trimmed ∧ ¬ "//".toList <+: trimmed := by
  rw [← isRouteStatement_iff, ← commentText_eq_none_iff]
  unfold lineRole
  cases commentText trimmed with
  | some text => simp
  | none => split_ifs with hroute <;> simp [hroute]

/-- A line with a `route!(` begins a statement unless it is a comment. -/
lemma lineRole_start_iff (front s : Str) :
    lineRole (Str.trim (front ++ (routeCall ++ s))) = .start ↔
      ¬ "//".toList <+: Str.trimStart front := by
  rw [trim_append_word front isWord_routeCall]
  have hin : routeCall <:+: Str.trimStart front ++ routeCall ++ Str.trimEnd s := ⟨_, _, rfl⟩
  have hcall : Str.trimStart front ++ routeCall ++ Str.trimEnd s =
      Str.trimStart front ++ 'r' :: ("oute!(".toList ++ Str.trimEnd s) := by
    rw [routeCall_eq, List.append_assoc, List.cons_append]
  have hcomment : "//".toList <+: Str.trimStart front ++ routeCall ++ Str.trimEnd s ↔
      "//".toList <+: Str.trimStart front := by
    rw [hcall]
    exact ⟨prefix_append_cons (by decide), fun h => h.trans (List.prefix_append _ _)⟩
  rw [lineRole_eq_start_iff, hcomment, and_iff_right hin]

/-- On one line, a statement begins where no other one is open, the call has not occurred and there
is no comment. -/
lemma isStartAfter_line {statement : Option Str} {before : Str} (h : '\n' ∉ before) :
    IsStartAfter statement before ↔
      statement = none ∧ ¬ routeCall <:+: before ∧ ¬ "//".toList <+: Str.trimStart before := by
  simp [IsStartAfter, linesAbove, lineFront, List.splitOn_eq_singleton h]

/-- Below a line a statement begins if it does with the statement that is open behind the line. -/
lemma isStartAfter_cons {statement : Option Str} {line : Str} (h : '\n' ∉ line) (before : Str) :
    IsStartAfter statement (line ++ '\n' :: before) ↔
      IsStartAfter (nextOpen statement line) before := by
  have hne := List.splitOn_ne_nil '\n' before
  unfold IsStartAfter linesAbove lineFront
  rw [List.splitOn_append_cons_self_of_not_mem h, List.dropLast_cons_of_ne_nil hne,
    List.foldl_cons, List.getLast?_cons_of_ne_nil hne]

/-- The first `route!(` of a line. -/
lemma position_routeCall {front : Str} (h : ¬ routeCall <:+: front) (s : Str) :
    position routeCall (front ++ (routeCall ++ s)) = some front.length := by
  have hcut := cut_routeCall h s
  rw [List.append_assoc] at hcut
  obtain ⟨i, hi, hsplit⟩ := Option.map_eq_some_iff.1 hcut
  have hlength := congrArg List.length (Prod.mk.inj hsplit).1
  have hle := length_of_position hi
  rw [hi, ← hlength, List.length_take, Nat.min_eq_left (by omega)]

/-- A line that begins a statement has a first `route!(`. -/
lemma exists_of_lineRole_start {line : Str} (h : lineRole (Str.trim line) = .start) :
    ∃ front s, line = front ++ (routeCall ++ s) ∧ ¬ routeCall <:+: front := by
  have hcall : routeCall <:+: line :=
    ((lineRole_eq_start_iff _).1 h).1.trans ((List.rdropWhile_prefix _ _).isInfix.trans
      (List.dropWhile_suffix _).isInfix)
  obtain ⟨⟨front, s⟩, hcut⟩ := Option.ne_none_iff_exists'.1
    (mt cut_eq_none_iff.1 (not_not.2 hcall))
  have hfirst := not_infix_of_cut (by decide) hcut
  obtain ⟨rfl, -⟩ := cut_eq_some_iff.1 hcut
  exact ⟨front, s, List.append_assoc _ _ _, hfirst⟩

/-- Whether a line begins a statement, and where. -/
lemma mem_startOn_iff {offset n : ℕ} {statement : Option Str} {line : Str} (h : '\n' ∉ line) :
    n ∈ startOn offset statement line ↔
      ∃ before behind, line = before ++ (routeCall ++ behind) ∧ offset + before.length = n ∧
        IsStartAfter statement before := by
  unfold startOn
  constructor
  · intro hmem
    split_ifs at hmem with hopen
    · obtain ⟨hstatement, hrole⟩ := hopen
      obtain ⟨before, behind, rfl, hfirst⟩ := exists_of_lineRole_start hrole
      have hbefore : '\n' ∉ before := fun hmem => h (by simp [hmem])
      rw [position_routeCall hfirst, Option.getD_some, List.mem_singleton] at hmem
      exact ⟨before, behind, rfl, hmem.symm, (isStartAfter_line hbefore).2
        ⟨hstatement, hfirst, (lineRole_start_iff before behind).1 hrole⟩⟩
    · exact absurd hmem List.not_mem_nil
  · rintro ⟨before, behind, rfl, rfl, hstart⟩
    have hbefore : '\n' ∉ before := fun hmem => h (List.mem_append_left _ hmem)
    obtain ⟨hstatement, hfirst, hcomment⟩ := (isStartAfter_line hbefore).1 hstart
    rw [if_pos ⟨hstatement, (lineRole_start_iff before behind).2 hcomment⟩,
      position_routeCall hfirst]
    simp

/-- A `route!(` is in the first line of a text or below it. -/
lemma line_append_eq_iff {line : Str} (h : '\n' ∉ line) (text before behind : Str) :
    line ++ '\n' :: text = before ++ (routeCall ++ behind) ↔
      (∃ behind', line = before ++ (routeCall ++ behind') ∧ behind = behind' ++ '\n' :: text) ∨
      ∃ before', before = line ++ '\n' :: before' ∧ text = before' ++ (routeCall ++ behind) := by
  have hcall : '\n' ∉ routeCall := isWord_routeCall.oneLine
  constructor
  · intro heq
    rcases List.append_eq_append_iff.1 heq with ⟨as, rfl, has⟩ | ⟨bs, rfl, hbs⟩
    · cases as with
      | nil => exact absurd (List.cons.inj has).1 (by decide)
      | cons a as =>
        obtain ⟨rfl, rfl⟩ := List.cons.inj has
        exact .inr ⟨as, rfl, rfl⟩
    · rcases List.append_eq_append_iff.1 hbs with ⟨cs, rfl, rfl⟩ | ⟨cs, hsplit, hcs⟩
      · exact .inl ⟨cs, rfl, rfl⟩
      · cases cs with
        | nil => exact .inl ⟨[], by rw [hsplit]; simp, hcs.symm⟩
        | cons c cs =>
          obtain ⟨rfl, -⟩ := List.cons.inj hcs
          exact absurd (by rw [hsplit]; simp) hcall
  · rintro (⟨behind', rfl, rfl⟩ | ⟨before', rfl, rfl⟩) <;> simp

/-- Without lines there is no `route!(`. -/
lemma joinLines_nil_ne (before behind : Str) : joinLines [] ≠ before ++ (routeCall ++ behind) := by
  intro h
  have hcall := (List.append_eq_nil_iff.1 (List.append_eq_nil_iff.1 h.symm).2).1
  exact absurd hcall (by decide)

/-- **Where statements begin.**

**Proof sketch.** Induction on the lines: a `route!(` is in the first line, or below it, where the
statement that is open behind this line matters. -/
theorem mem_startsFrom_iff {offset n : ℕ} {statement : Option Str} {lines : List Str}
    (hlines : ∀ line ∈ lines, '\n' ∉ line) :
    n ∈ startsFrom offset statement lines ↔
      ∃ before behind, joinLines lines = before ++ (routeCall ++ behind) ∧
        offset + before.length = n ∧ IsStartAfter statement before := by
  induction lines generalizing offset statement with
  | nil =>
    refine iff_of_false List.not_mem_nil ?_
    rintro ⟨before, behind, heq, -⟩
    exact joinLines_nil_ne before behind heq
  | cons line lines ih =>
    obtain ⟨hline, hrest⟩ := List.forall_mem_cons.1 hlines
    rw [startsFrom, List.mem_append, mem_startOn_iff hline, ih hrest]
    cases lines with
    | nil =>
      have hnone : ¬ ∃ before behind, joinLines [] = before ++ (routeCall ++ behind) ∧
          offset + line.length + 1 + before.length = n ∧
          IsStartAfter (nextOpen statement line) before := by
        rintro ⟨before, behind, heq, -⟩
        exact joinLines_nil_ne before behind heq
      rw [or_iff_left hnone]
      have hjoin : joinLines [line] = line := by simp [joinLines]
      rw [hjoin]
    | cons next lines =>
      rw [joinLines_cons (List.cons_ne_nil next lines)]
      constructor
      · rintro (⟨before, behind, heq, hn, hstart⟩ | ⟨before, behind, heq, hn, hstart⟩)
        · refine ⟨before, behind ++ '\n' :: joinLines (next :: lines), ?_, hn, hstart⟩
          exact (line_append_eq_iff hline _ _ _).2 (.inl ⟨behind, heq, rfl⟩)
        · refine ⟨_, behind, (line_append_eq_iff hline _ _ _).2 (.inr ⟨before, rfl, heq⟩), ?_,
            (isStartAfter_cons hline before).2 hstart⟩
          rw [← hn, List.length_append, List.length_cons]
          omega
      · rintro ⟨before, behind, heq, hn, hstart⟩
        rcases (line_append_eq_iff hline _ _ _).1 heq with
          ⟨behind', hfirst, -⟩ | ⟨before', rfl, hbelow⟩
        · exact .inl ⟨before, behind', hfirst, hn, hstart⟩
        · refine .inr ⟨before', behind, hbelow, ?_, (isStartAfter_cons hline before').1 hstart⟩
          rw [← hn, List.length_append, List.length_cons]
          omega

/-- **The places come in order.** -/
lemma pairwise_startsFrom {offset : ℕ} {statement : Option Str} {lines : List Str}
    (hlines : ∀ line ∈ lines, '\n' ∉ line) :
    (startsFrom offset statement lines).Pairwise (· < ·) := by
  induction lines generalizing offset statement with
  | nil => exact List.Pairwise.nil
  | cons line lines ih =>
    obtain ⟨hline, hrest⟩ := List.forall_mem_cons.1 hlines
    rw [startsFrom, List.pairwise_append]
    refine ⟨?_, ih hrest, fun n hn m hm => ?_⟩
    · unfold startOn
      split_ifs
      · exact List.pairwise_singleton _ _
      · exact List.Pairwise.nil
    · obtain ⟨before, behind, rfl, rfl, -⟩ := (mem_startOn_iff hline).1 hn
      obtain ⟨before', -, -, rfl, -⟩ := (mem_startsFrom_iff hrest).1 hm
      rw [List.length_append]
      omega

/-! ## The places of the invocations -/

/-- An invocation has a text. -/
lemma Invocation.length_text_pos (inv : Invocation) : 0 < inv.text.length := by
  have hcall : 0 < routeCall.length := by decide
  rw [text, List.length_append]
  omega

/-- Around each place there is the whole text. -/
lemma eq_of_mem_placesFrom {before : Str} {pieces : List (Str × Invocation)} {rest : Str}
    {p : Place} (h : p ∈ placesFrom before pieces rest) :
    before ++ sourceText pieces rest = p.before ++ (p.invocation.text ++ p.after) := by
  induction pieces generalizing before with
  | nil => exact absurd h List.not_mem_nil
  | cons piece pieces ih =>
    obtain ⟨front, inv⟩ := piece
    rcases List.mem_cons.1 h with rfl | hrest
    · exact (List.append_assoc _ _ _).symm
    · rw [← ih hrest, sourceText]
      simp

/-- The places come in order. -/
lemma pairwise_placesFrom (before : Str) (pieces : List (Str × Invocation)) (rest : Str) :
    ((placesFrom before pieces rest).map fun p => p.before.length).Pairwise (· < ·) ∧
      ∀ p ∈ placesFrom before pieces rest, before.length ≤ p.before.length := by
  induction pieces generalizing before with
  | nil => exact ⟨List.Pairwise.nil, fun p hp => absurd hp List.not_mem_nil⟩
  | cons piece pieces ih =>
    obtain ⟨front, inv⟩ := piece
    obtain ⟨hpairwise, hle⟩ := ih (before ++ front ++ inv.text)
    have hpos := inv.length_text_pos
    rw [placesFrom, List.map_cons, List.pairwise_cons, List.forall_mem_cons]
    refine ⟨⟨fun n hn => ?_, hpairwise⟩, ?_, fun p hp => ?_⟩
    · obtain ⟨p, hp, rfl⟩ := List.mem_map.1 hn
      have hnext := hle p hp
      simp only [List.length_append] at hnext ⊢
      omega
    · simp
    · have hnext := hle p hp
      simp only [List.length_append] at hnext
      omega

/-- There is a place for each invocation. -/
lemma map_invocation_placesFrom (before : Str) (pieces : List (Str × Invocation)) (rest : Str) :
    (placesFrom before pieces rest).map Place.invocation = pieces.map Prod.snd := by
  induction pieces generalizing before with
  | nil => rfl
  | cons piece pieces ih => rw [placesFrom, List.map_cons, List.map_cons, ih]

/-! ## The lines of a file -/

/-- A space behind a statement does not complete it. -/
lemma routeStatementComplete_space (statement : Str) :
    routeStatementComplete (statement ++ [' ']) = routeStatementComplete statement := by
  by_cases h : routeCall <:+: statement
  · obtain ⟨⟨front, s⟩, hcut⟩ := Option.ne_none_iff_exists'.1 (mt cut_eq_none_iff.1 (not_not.2 h))
    have hfirst := not_infix_of_cut (by decide) hcut
    have hspace : NoParens [' '] := by simp [NoParens]
    obtain ⟨rfl, -⟩ := cut_eq_some_iff.1 hcut
    rw [List.append_assoc, routeStatementComplete_eq hfirst, routeStatementComplete_eq hfirst,
      closes_append_noParens hspace]
  · have hnone := position_eq_none_iff.2 h
    have hnone' : position routeCall (statement ++ [' ']) = none := by
      rw [position_append_cons (by decide) h, Option.map_eq_none_iff, position_eq_none_iff]
      decide
    simp [routeStatementComplete, routeCallStart, hnone, hnone']

/-- The statement that is being read is not complete. -/
def Scan.Open (scan : Scan) : Prop :=
  scan.readingRoute = true → routeStatementComplete scan.statement = false

/-- A scan that has begun stays well formed. -/
lemma open_parseLine {upper : Char → Str} {scan : Scan} (h : scan.Open) (line : Str) :
    (parseLine upper scan line).Open := by
  obtain ⟨routes, notes, statement, comments, reading⟩ := scan
  cases reading with
  | true =>
    rw [parseLine_inside]
    split_ifs with hcomplete
    · intro hreading
      cases hreading
    · exact fun _ => by simpa using hcomplete
  | false =>
    rw [parseLine_outside]
    split
    · exact fun hreading => absurd hreading (by simp)
    · exact fun hreading => absurd hreading (by simp)
    · split_ifs with hcomplete
      · exact fun hreading => absurd hreading (by simp)
      · exact fun _ => by simpa using hcomplete
    · exact fun hreading => absurd hreading (by simp)

/-- Over any number of lines, too. -/
lemma open_foldl_parseLine {upper : Char → Str} {scan : Scan} (h : scan.Open) (lines : List Str) :
    (lines.foldl (parseLine upper) scan).Open := by
  induction lines generalizing scan with
  | nil => exact h
  | cons line lines ih => exact ih (open_parseLine h line)

/-- An empty line yields no route. -/
lemma routes_parseLine_nil {upper : Char → Str} {scan : Scan} (h : scan.Open) :
    (parseLine upper scan []).routes = scan.routes := by
  obtain ⟨routes, notes, statement, comments, reading⟩ := scan
  have htrim : Str.trim [] = [] := rfl
  cases reading with
  | true =>
    have hopen : routeStatementComplete (statement ++ [' ']) = false := by
      rw [routeStatementComplete_space]
      exact h rfl
    rw [parseLine_inside, htrim, hopen]
    rfl
  | false =>
    have hblank : lineRole [] = .blank := by decide
    rw [parseLine_outside, htrim, hblank]

/-- **The lines of a file** may be read off the line feeds alone: a carriage return in front of one
is trimmed, and an empty line at the end yields no route. -/
lemma parseText_eq (upper : Char → Str) (content : Str) :
    parseText upper content =
      routesBelow upper [] (roles none (content.splitOn '\n')) (content.splitOn '\n') := by
  have hloop := (foldl_parseLine upper (content.splitOn '\n')).1 [] [] [] []
  rw [List.nil_append] at hloop
  rw [← hloop]
  have hne := List.splitOn_ne_nil '\n' content
  have hstrip : ∀ scan (lines : List Str), (lines.map Str.stripCr).foldl (parseLine upper) scan =
      lines.foldl (parseLine upper) scan := by
    intro scan lines
    rw [List.foldl_map]
    have hline : ∀ scan line,
        parseLine upper scan (Str.stripCr line) = parseLine upper scan line := by
      intro scan line
      unfold parseLine
      rw [Str.trim_stripCr]
    simp only [hline]
  unfold parseText Str.lines
  obtain ⟨above, last, hsplit⟩ := (List.eq_nil_or_concat (content.splitOn '\n')).resolve_left hne
  rw [hsplit, List.concat_eq_append, List.foldl_append, List.foldl_append, List.dropLast_concat,
    List.getLast?_concat, hstrip]
  cases last with
  | nil =>
    have hopen : Scan.Open ⟨[], [], [], [], false⟩ := fun hreading => absurd hreading (by simp)
    exact (routes_parseLine_nil (open_foldl_parseLine hopen above)).symm
  | cons c last => rfl

/-! ## The routes of a file -/

/-- Text that ends a line. -/
def EndsLine (text : Str) : Prop := text = [] ∨ ∃ above, text = above ++ ['\n']

/-- Behind the end of a line, the front of the line is what follows. -/
lemma lineFront_append {text : Str} (h : EndsLine text) {front : Str} (hfront : '\n' ∉ front) :
    lineFront (text ++ front) = front := by
  unfold lineFront
  rcases h with rfl | ⟨above, rfl⟩
  · rw [List.nil_append, List.splitOn_eq_singleton hfront]
    rfl
  · rw [List.append_assoc, List.singleton_append, List.splitOn_append_cons_self,
      List.splitOn_eq_singleton hfront, List.getLast?_concat]
    rfl

/-- What a line is when the given statement is open in front of it. -/
def lineKind : Option Str → Str → Role
  | none, line => lineRole (Str.trim line)
  | some _, _ => .continued

/-- The roles of the lines, from the first one on. -/
lemma roles_cons (statement : Option Str) (line : Str) (lines : List Str) :
    roles statement (line :: lines) =
      lineKind statement line :: roles (nextOpen statement line) lines := by
  cases statement <;> rfl

/-- A line begins a statement when none is open and it has that role. -/
lemma lineKind_eq_start_iff (statement : Option Str) (line : Str) :
    lineKind statement line = .start ↔ statement = none ∧ lineRole (Str.trim line) = .start := by
  cases statement with
  | none => exact (and_iff_right rfl).symm
  | some statement => simp [lineKind]

/-- Part of a first line, in front of lines. -/
lemma joinLines_append (front line : Str) (lines : List Str) :
    joinLines ((front ++ line) :: lines) = front ++ joinLines (line :: lines) := by
  cases lines with
  | nil => simp [joinLines]
  | cons next lines =>
    rw [joinLines_cons (List.cons_ne_nil next lines), joinLines_cons (List.cons_ne_nil next lines),
      List.append_assoc]

/-- What is read of a line is what is read from the place at which a statement begins in it. -/
lemma map_triple_routeAt (upper : Char → Str) (above : List Role) {text : Str}
    (htext : EndsLine text) (statement : Option Str) {line : Str} {lines : List Str}
    (hline : '\n' ∉ line) (hlines : ∀ line ∈ lines, '\n' ∉ line) :
    (routeAt upper above (lineKind statement line) line lines).toList.map RouteDoc.triple =
      (startOn text.length statement line).filterMap fun n =>
        readFrom ((text ++ joinLines (line :: lines)).take n)
          ((text ++ joinLines (line :: lines)).drop n) := by
  unfold startOn routeAt
  by_cases hstart : statement = none ∧ lineRole (Str.trim line) = .start
  · rw [if_pos hstart, if_pos ((lineKind_eq_start_iff _ _).2 hstart)]
    obtain ⟨front, s, rfl, hfirst⟩ := exists_of_lineRole_start hstart.2
    have hfront : '\n' ∉ front := fun hmem => hline (List.mem_append_left _ hmem)
    have hbehind : ∀ piece ∈ (routeCall ++ s) :: lines, '\n' ∉ piece :=
      List.forall_mem_cons.2 ⟨fun hmem => hline (List.mem_append_right _ hmem), hlines⟩
    have hread : readFrom (text ++ front) (joinLines ((routeCall ++ s) :: lines)) =
        (readStatement (Str.trim (front ++ (routeCall ++ s))) lines).bind
          fun p => readTriple p.1 := by
      rw [readFrom, lineFront_append htext hfront, statementFrom, joinLines,
        List.splitOn_intercalate _ hbehind (List.cons_ne_nil _ _)]
      exact Option.bind_map
    have hwhole : text ++ joinLines ((front ++ (routeCall ++ s)) :: lines) =
        (text ++ front) ++ joinLines ((routeCall ++ s) :: lines) := by
      rw [joinLines_append, List.append_assoc]
    have hplace : [text.length + front.length].filterMap (fun n =>
        readFrom ((text ++ joinLines ((front ++ (routeCall ++ s)) :: lines)).take n)
          ((text ++ joinLines ((front ++ (routeCall ++ s)) :: lines)).drop n)) =
        ((readStatement (Str.trim (front ++ (routeCall ++ s))) lines).bind
          fun p => readTriple p.1).toList := by
      rw [hwhole, ← List.length_append, ← hread]
      simp only [List.filterMap_cons, List.filterMap_nil, List.take_left, List.drop_left]
      cases readFrom (text ++ front) (joinLines ((routeCall ++ s) :: lines)) <;> rfl
    rw [position_routeCall hfirst, Option.getD_some, hplace]
    cases readStatement (Str.trim (front ++ (routeCall ++ s))) lines with
    | none => rfl
    | some p =>
      rw [Option.bind_some, Option.bind_some, ← map_triple_parseRoute upper p.1 (notesAbove above)]
      cases parseRoute upper p.1 (notesAbove above) <;> rfl
  · rw [if_neg hstart, if_neg (mt (lineKind_eq_start_iff _ _).1 hstart)]
    rfl

/-- **What is read of the lines of a file** is what is read from the places at which statements
begin.

**Proof sketch.** Induction on the lines, with the text above them. -/
theorem map_triple_routesBelow (upper : Char → Str) (above : List Role) {text : Str}
    (htext : EndsLine text) (statement : Option Str) {lines : List Str}
    (hlines : ∀ line ∈ lines, '\n' ∉ line) :
    (routesBelow upper above (roles statement lines) lines).map RouteDoc.triple =
      (startsFrom text.length statement lines).filterMap fun n =>
        readFrom ((text ++ joinLines lines).take n) ((text ++ joinLines lines).drop n) := by
  induction lines generalizing above text statement with
  | nil => rfl
  | cons line lines ih =>
    obtain ⟨hline, hrest⟩ := List.forall_mem_cons.1 hlines
    rw [roles_cons, routesBelow, List.map_append,
      map_triple_routeAt upper above htext statement hline hrest, startsFrom, List.filterMap_append]
    congr 1
    cases lines with
    | nil => rfl
    | cons next lines =>
      have hnext : EndsLine (text ++ line ++ ['\n']) := .inr ⟨_, rfl⟩
      have hwhole : text ++ joinLines (line :: next :: lines) =
          text ++ line ++ ['\n'] ++ joinLines (next :: lines) := by
        rw [joinLines_cons (List.cons_ne_nil next lines)]
        simp
      have hlength : (text ++ line ++ ['\n']).length = text.length + line.length + 1 := by
        rw [List.length_append, List.length_append, List.length_singleton]
      rw [hwhole, ← hlength]
      exact ih _ hnext _ hrest

/-! ## The invocations of a text -/

/-- The places at which statements begin in a text. -/
def starts (text : Str) : List ℕ := startsFrom 0 none (text.splitOn '\n')

/-- What is read at a place of a text. -/
def readAt (text : Str) (n : ℕ) : Option (Str × Str × Str) := readFrom (text.take n) (text.drop n)

/-- The starts of a text are the lengths of what is in front of them. -/
lemma mem_starts_iff {text : Str} {n : ℕ} :
    n ∈ starts text ↔
      ∃ before behind, text = before ++ (routeCall ++ behind) ∧ before.length = n ∧
        IsStart before := by
  rw [starts, mem_startsFrom_iff (newline_notMem_lines text), joinLines_splitOn]
  simp only [Nat.zero_add, IsStart]

/-- What is read at the length of a front is what is read behind it. -/
lemma readAt_length (before behind : Str) :
    readAt (before ++ behind) before.length = readFrom before behind := by
  rw [readAt, List.take_left, List.drop_left]

/-- What the generator reads of a text is what it reads at the places at which statements begin. -/
lemma map_triple_parseText (upper : Char → Str) (text : Str) :
    (parseText upper text).map RouteDoc.triple = (starts text).filterMap (readAt text) := by
  have hempty : EndsLine [] := .inl rfl
  rw [parseText_eq, map_triple_routesBelow upper [] hempty none (newline_notMem_lines text),
    joinLines_splitOn]
  rfl

/-- The places of the invocations of a source text. -/
def placesOf (pieces : List (Str × Invocation)) (rest : Str) : List Place :=
  placesFrom [] pieces rest

/-- Of each invocation of the text one route is found, in order, with its path, its lower-cased
method and its handler, and no other route. -/
def FindsAll (upper : Char → Str) (pieces : List (Str × Invocation)) (rest : Str) : Prop :=
  (parseText upper (sourceText pieces rest)).map RouteDoc.triple =
    pieces.map fun piece => piece.2.triple

section

variable {pieces : List (Str × Invocation)} {rest : Str}

/-- The source around an invocation. -/
lemma sourceText_eq {p : Place} (h : p ∈ placesOf pieces rest) :
    sourceText pieces rest = p.before ++ (p.invocation.text ++ p.after) := eq_of_mem_placesFrom h

/-- An invocation begins a statement or does not. -/
lemma length_mem_starts_iff {p : Place} (h : p ∈ placesOf pieces rest) :
    p.before.length ∈ starts (sourceText pieces rest) ↔ IsStart p.before := by
  have htext : sourceText pieces rest =
      p.before ++ (routeCall ++ (p.invocation.opened ++ p.after)) := by
    rw [sourceText_eq h, Invocation.text, List.append_assoc]
  rw [mem_starts_iff]
  constructor
  · rintro ⟨before, behind, heq, hlength, hstart⟩
    obtain ⟨rfl, -⟩ := List.append_inj (heq.symm.trans htext) hlength
    exact hstart
  · exact fun hstart => ⟨p.before, _, htext, rfl, hstart⟩

/-- All invocations are read: each at its own place. -/
lemma allRead_iff :
    AllRead (placesOf pieces rest) ↔ ∀ p ∈ placesOf pieces rest,
      p.before.length ∈ starts (sourceText pieces rest) ∧
        readAt (sourceText pieces rest) p.before.length = some p.invocation.triple := by
  refine forall₂_congr fun p hp => ?_
  rw [length_mem_starts_iff hp, sourceText_eq hp, readAt_length]
  exact and_congr_right fun hstart => (readTriple_iff hstart.2.1 p.invocation p.after).symm

/-- Nothing else is read: nothing at the other places. -/
lemma noStray_iff :
    NoStray (sourceText pieces rest) (placesOf pieces rest) ↔
      ∀ n ∈ starts (sourceText pieces rest),
        n ∉ (placesOf pieces rest).map (fun p => p.before.length) →
        readAt (sourceText pieces rest) n = none := by
  have hplace : ∀ before behind, sourceText pieces rest = before ++ behind →
      (before.length ∉ (placesOf pieces rest).map (fun p => p.before.length) ↔
        ∀ p ∈ placesOf pieces rest, p.before ≠ before) := by
    intro before behind heq
    rw [List.mem_map, not_exists]
    refine forall_congr' fun p => ?_
    rw [not_and]
    refine forall_congr' fun hp => not_congr ⟨fun hlength => ?_, congrArg List.length⟩
    exact (List.append_inj ((sourceText_eq hp).symm.trans heq) hlength).1
  constructor
  · intro hstray n hn hother
    obtain ⟨before, behind, heq, rfl, hstart⟩ := mem_starts_iff.1 hn
    have hnone := hstray before behind heq hstart ((hplace _ _ heq).1 hother)
    rw [heq, readAt_length]
    exact hnone
  · intro hnone before behind heq hstart hother
    have hread := hnone before.length (mem_starts_iff.2 ⟨before, behind, heq, rfl, hstart⟩)
      ((hplace _ _ heq).2 hother)
    rwa [heq, readAt_length] at hread

/-- **When the generator misses no route.** If no other statement of a text reads as a route, the
generator finds exactly the invocations when it reads each of them; and if it reads each of them,
when no other statement reads as a route.

**Proof sketch.** What the generator reads, it reads at the places at which statements begin, and
these come in order like the invocations. -/
theorem parseText_complete (upper : Char → Str) (pieces : List (Str × Invocation)) (rest : Str) :
    (NoStray (sourceText pieces rest) (placesOf pieces rest) →
      (FindsAll upper pieces rest ↔ AllRead (placesOf pieces rest))) ∧
    (AllRead (placesOf pieces rest) →
      (FindsAll upper pieces rest ↔
        NoStray (sourceText pieces rest) (placesOf pieces rest))) := by
  have hstarts : (starts (sourceText pieces rest)).Pairwise (· < ·) :=
    pairwise_startsFrom (newline_notMem_lines _)
  have hfst : ((placesOf pieces rest).map fun p => (p.before.length, p.invocation)).map Prod.fst =
      (placesOf pieces rest).map fun p => p.before.length := by
    rw [List.map_map]
    rfl
  have hmarked : (((placesOf pieces rest).map fun p => (p.before.length, p.invocation)).map
      Prod.fst).Pairwise (· < ·) := by
    rw [hfst]
    exact (pairwise_placesFrom [] pieces rest).1
  have hwant : pieces.map (fun piece => piece.2.triple) =
      ((placesOf pieces rest).map fun p => (p.before.length, p.invocation)).map
        fun p => p.2.triple := by
    have hall := congrArg (List.map Invocation.triple) (map_invocation_placesFrom [] pieces rest)
    rw [List.map_map, List.map_map] at hall
    rw [List.map_map]
    exact hall.symm
  have hread : AllRead (placesOf pieces rest) ↔
      ∀ q ∈ (placesOf pieces rest).map fun p => (p.before.length, p.invocation),
        q.1 ∈ starts (sourceText pieces rest) ∧
          readAt (sourceText pieces rest) q.1 = some q.2.triple := by
    rw [allRead_iff, List.forall_mem_map]
  rw [FindsAll, map_triple_parseText, hwant, hread, noStray_iff, ← hfst]
  exact Sorting.filterMap_eq_map_iff hstarts hmarked

end

/-- `route!("path", Rt::GET, handler)`. -/
def pageCall (path handler : Str) (hpath : '"' ∉ path) (hhandler : IsName handler) :
    Invocation where
  path := path
  method := "GET".toList
  handler := handler
  protocol := none
  gap i := if i.val = 2 ∨ i.val = 4 then [' '] else []
  quoteFree := hpath
  isName_method := isName_of_all (by decide) (by decide)
  isName_handler := hhandler
  isSpace_gap i := by
    split_ifs
    · exact fun c hc => by rw [List.mem_singleton.1 hc]; rfl
    · exact fun c hc => absurd hc List.not_mem_nil

/-- Two invocations on two lines are found. -/
theorem twoLines_found :
    FindsAll (fun c => [c])
      [([], pageCall "/a".toList "a".toList (by decide) (isName_of_all (by decide) (by decide))),
        (",\n".toList, pageCall "/b(c)".toList "b".toList (by decide)
          (isName_of_all (by decide) (by decide)))] [] :=
  ((parseText_complete _ _ _).1 (noStray_iff.2 (by decide))).2 (allRead_iff.2 (by decide))

/-- Of two invocations on one line the second one is missed. -/
theorem sameLine_missed :
    ¬ ∀ (upper : Char → Str) (pieces : List (Str × Invocation)) (rest : Str),
      (∀ piece ∈ pieces, ¬ routeCall <:+: piece.1 ∧ '/' ∉ piece.1) →
      ¬ routeCall <:+: rest → '/' ∉ rest → FindsAll upper pieces rest := by
  intro hall
  have hfinds := hall (fun c => [c])
    [([], pageCall "/a".toList "a".toList (by decide) (isName_of_all (by decide) (by decide))),
      (", ".toList, pageCall "/b".toList "b".toList (by decide)
        (isName_of_all (by decide) (by decide)))]
    [] (by decide) (by decide) (by decide)
  have hone : (parseText (fun c => [c])
      "route!(\"/a\", Rt::GET, a), route!(\"/b\", Rt::GET, b)".toList).length = 1 := by
    decide
  have hlength := congrArg List.length hfinds
  rw [List.length_map] at hlength
  exact absurd (hone.symm.trans hlength) (by decide)

end OpenApi

end Httpageboy
