import Httpageboy.Core.Message
import Httpageboy.Lib.Utf8
import Httpageboy.OpenApi.Extract
import Mathlib.Data.Prod.Lex

set_option relaxedAutoImplicit false
set_option autoImplicit false

/-!
# Loading the routes of a directory

`load_routes` walks a directory, sorts the source files it finds, concatenates their routes, sorts
them and drops the repeated ones. The order in which `read_dir` enumerates a directory is part of
the tree here; the result does not depend on it.

## Main definitions

* `Httpageboy.OpenApi.Tree` — a file, or a directory with its entries as `read_dir` lists them.
* `Httpageboy.OpenApi.collectRsFiles`, `Httpageboy.OpenApi.loadRoutes` — the functions of the
  source.
* `Httpageboy.OpenApi.Tree.FileAt` — the files of a tree and their paths.
* `Httpageboy.OpenApi.Tree.Reordered` — the same tree, enumerated in another order.

## Main results

* `Httpageboy.OpenApi.mem_collectRsFiles_iff` — the files that are found.
* `Httpageboy.OpenApi.loadRoutes_canonical` — what is loaded, in whichever order directories are
  read.
-/

namespace Httpageboy

namespace OpenApi

/-! ## The functions of the source -/

/-- A file, with its bytes or the error that reading it ends with; a directory, with its entries in
the order of `read_dir`; or a directory that cannot be read. -/
inductive Tree
  | file (content : Except Str Bytes)
  | dir (entries : List (Bytes × Tree))
  | closed (error : Str)

/-- A file that was found: its path below the source directory, and what reading it gives. -/
structure SourceFile where
  path : List Bytes
  content : Except Str Bytes

/-- `Path::display` of a path below the source directory. -/
def displayPath (source : Bytes) (path : List Bytes) : Str :=
  Utf8.decodeLossy <| path.foldl
    (fun text name =>
      if text = [] ∨ text.getLast? = some 47 then text ++ name else text ++ 47 :: name)
    source

/-- The error of a file or a directory that cannot be read. -/
def readFailure (source : Bytes) (path : List Bytes) (error : Str) : Str :=
  "failed to read ".toList ++ displayPath source path ++ ": ".toList ++ error

/-- `Path::extension`: what is behind the last dot, if something is in front of it. -/
def extension (name : Bytes) : Option Bytes :=
  if (name.rdropWhile (· ≠ 46)).length ≤ 1 then none else some (name.rtakeWhile (· ≠ 46))

/-- Whether a file is collected: it has the extension `rs` and is not the generator itself. -/
def isRustSource (name : Bytes) : Bool :=
  extension name = some (Utf8.encode "rs".toList) ∧
    Utf8.decode name ≠ some "openapi_from_code.rs".toList

mutual

/-- The body of the loop of `collect_rs_files`. -/
def collectEntry (source : Bytes) (path : List Bytes) (name : Bytes) :
    Tree → Except Str (List SourceFile)
  | .file content => .ok (if isRustSource name then [⟨path ++ [name], content⟩] else [])
  | .dir entries => collectEntries source (path ++ [name]) entries
  | .closed error => .error (readFailure source (path ++ [name]) error)

/-- The loop of `collect_rs_files` over the entries of a directory. -/
def collectEntries (source : Bytes) (path : List Bytes) :
    List (Bytes × Tree) → Except Str (List SourceFile)
  | [] => .ok []
  | (name, tree) :: entries => do
    let files ← collectEntry source path name tree
    let more ← collectEntries source path entries
    .ok (files ++ more)

end

/-- `collect_rs_files`. -/
def collectRsFiles (source : Bytes) : Tree → Except Str (List SourceFile)
  | .dir entries => collectEntries source [] entries
  | .file _ => .error (readFailure source [] "Not a directory (os error 20)".toList)
  | .closed error => .error (readFailure source [] error)

/-- `parse_file`. -/
def parseFile (upper : Char → Str) (source : Bytes) (file : SourceFile) :
    Except Str (List RouteDoc) :=
  match file.content with
  | .error error => .error (readFailure source file.path error)
  | .ok bytes =>
    match Utf8.decode bytes with
    | none =>
      .error (readFailure source file.path "stream did not contain valid UTF-8".toList)
    | some content => .ok (parseText upper content)

/-- The loop of `load_routes` over the files. -/
def parseFiles (upper : Char → Str) (source : Bytes) :
    List SourceFile → Except Str (List RouteDoc)
  | [] => .ok []
  | file :: files => do
    let docs ← parseFile upper source file
    let more ← parseFiles upper source files
    .ok (docs ++ more)

/-- What paths are compared by: their components, byte by byte. -/
def pathKey (path : List Bytes) : List (List ℕ) := path.map fun name => name.map UInt8.toNat

/-- What routes are compared by: the path, then the method, then the handler. -/
def RouteDoc.key (route : RouteDoc) : Str ×ₗ (Str ×ₗ Str) :=
  toLex (route.path, toLex (route.method, route.handler))

/-- `load_routes`. -/
def loadRoutes (upper : Char → Str) (source : Bytes) (tree : Tree) :
    Except Str (List RouteDoc) := do
  let files ← collectRsFiles source tree
  let routes ← parseFiles upper source (Sorting.sortBy (fun file => pathKey file.path) files)
  .ok (Sorting.dedupBy RouteDoc.key (Sorting.sortBy RouteDoc.key routes))

/-! ## Trees -/

namespace Tree

/-- Induction over a tree, with a hypothesis for every entry of a directory. -/
theorem induct {P : Tree → Prop} (file : ∀ content, P (.file content))
    (closed : ∀ error, P (.closed error))
    (dir : ∀ entries : List (Bytes × Tree), (∀ e ∈ entries, P e.2) → P (.dir entries))
    (tree : Tree) : P tree := by
  refine Tree.rec (motive_1 := P) (motive_2 := fun entries => ∀ e ∈ entries, P e.2)
    (motive_3 := fun e => P e.2) file dir closed ?_ ?_ ?_ tree
  · intro e he
    cases he
  · intro e entries he hentries e' he'
    rcases List.mem_cons.1 he' with rfl | hmem
    · exact he
    · exact hentries e' hmem
  · intro name tree h
    exact h

/-- The names in each directory are different. -/
inductive DistinctNames : Tree → Prop
  | file (content : Except Str Bytes) : DistinctNames (.file content)
  | closed (error : Str) : DistinctNames (.closed error)
  | dir {entries : List (Bytes × Tree)} (hnodup : (entries.map Prod.fst).Nodup)
      (hentries : ∀ e ∈ entries, DistinctNames e.2) : DistinctNames (.dir entries)

/-- The tree has a file at this path, with this content. -/
inductive FileAt : Tree → List Bytes → Except Str Bytes → Prop
  | here (content : Except Str Bytes) : FileAt (.file content) [] content
  | within {entries : List (Bytes × Tree)} {name : Bytes} {tree : Tree} {path : List Bytes}
      {content : Except Str Bytes} (hmem : (name, tree) ∈ entries)
      (h : FileAt tree path content) : FileAt (.dir entries) (name :: path) content

/-- The same tree, with directories at any depth enumerated in another order. -/
inductive Reordered : Tree → Tree → Prop
  | refl (tree : Tree) : Reordered tree tree
  | enumeration {entries entries' : List (Bytes × Tree)} (h : entries.Perm entries') :
      Reordered (.dir entries) (.dir entries')
  | entry {front back : List (Bytes × Tree)} {name : Bytes} {tree tree' : Tree}
      (h : Reordered tree tree') :
      Reordered (.dir (front ++ (name, tree) :: back)) (.dir (front ++ (name, tree') :: back))
  | trans {tree tree' tree'' : Tree} (h : Reordered tree tree') (h' : Reordered tree' tree'') :
      Reordered tree tree''

/-- Another order can be put back. -/
lemma Reordered.symm {tree tree' : Tree} (h : Reordered tree tree') : Reordered tree' tree := by
  induction h with
  | refl tree => exact .refl tree
  | enumeration h => exact .enumeration h.symm
  | entry _ ih => exact .entry ih
  | trans _ _ ih ih' => exact .trans ih' ih

/-- Another order of enumeration keeps the names in each directory different. -/
lemma DistinctNames.reordered {tree tree' : Tree} (h : Reordered tree tree')
    (hnames : tree.DistinctNames) : tree'.DistinctNames := by
  induction h with
  | refl tree => exact hnames
  | enumeration h =>
    cases hnames with
    | dir hnodup hentries =>
      exact .dir ((h.map Prod.fst).nodup_iff.1 hnodup) fun e he => hentries e (h.mem_iff.2 he)
  | @entry front back name tree tree' _ ih =>
    cases hnames with
    | dir hnodup hentries =>
      refine .dir (by simpa using hnodup) fun e he => ?_
      rcases List.mem_append.1 he with hfront | hrest
      · exact hentries e (List.mem_append_left _ hfront)
      · rcases List.mem_cons.1 hrest with rfl | hback
        · exact ih (hentries (name, tree) (by simp))
        · exact hentries e (List.mem_append_right _ (List.mem_cons_of_mem _ hback))
  | trans _ _ ih ih' => exact ih' (ih hnames)

end Tree

/-! ## The files that are found -/

/-- The name of a Rust file other than the generator: a stem, and `.rs` behind it. -/
def IsSourceName (name : Bytes) : Prop :=
  (∃ stem, stem ≠ [] ∧ name = stem ++ Utf8.encode ".rs".toList) ∧
    name ≠ Utf8.encode "openapi_from_code.rs".toList

/-- The last name of a path is that of such a file. -/
def IsSourcePath (path : List Bytes) : Prop := ∃ name, path.getLast? = some name ∧ IsSourceName name

/-- A name has the extension `rs` when it is a stem with `.rs` behind it. -/
lemma extension_eq_rs_iff (name : Bytes) :
    extension name = some (Utf8.encode "rs".toList) ↔
      ∃ stem, stem ≠ [] ∧ name = stem ++ Utf8.encode ".rs".toList := by
  have hrs : Utf8.encode "rs".toList = [114, 115] := by decide
  have hdot : Utf8.encode ".rs".toList = [46, 114, 115] := by decide
  rw [hrs, hdot]
  unfold extension
  constructor
  · intro h
    split_ifs at h with hlength
    have htake := Option.some.inj h
    have hsplit := @List.rdropWhile_append_rtakeWhile _ (fun b : UInt8 => decide (b ≠ 46)) name
    rw [htake] at hsplit
    rcases List.eq_nil_or_concat (name.rdropWhile fun b => decide (b ≠ 46)) with
      hnil | ⟨stem, b, hb⟩
    · rw [hnil] at hlength
      exact absurd (Nat.zero_le 1) hlength
    · rw [List.concat_eq_append] at hb
      have hlast := List.rdropWhile_last_not (fun b : UInt8 => decide (b ≠ 46)) name
        (by rw [hb]; simp)
      simp only [hb, List.getLast_append_singleton, decide_eq_true_eq, not_not] at hlast
      subst hlast
      refine ⟨stem, ?_, ?_⟩
      · rintro rfl
        rw [hb] at hlength
        exact hlength (Nat.le_refl 1)
      · rw [← hsplit, hb, List.append_assoc]
        rfl
  · rintro ⟨stem, hne, rfl⟩
    have hpos := List.length_pos_of_ne_nil hne
    have hdrop : (stem ++ [46, 114, 115]).rdropWhile (fun b : UInt8 => decide (b ≠ 46)) =
        stem ++ [46] := by
      simp [List.rdropWhile]
    have htake : (stem ++ [46, 114, 115]).rtakeWhile (fun b : UInt8 => decide (b ≠ 46)) =
        [114, 115] := by
      simp [List.rtakeWhile]
    rw [hdrop, htake, if_neg]
    simp only [List.length_append, List.length_singleton]
    omega

/-- **The filter of the code keeps the source files.** -/
lemma isRustSource_iff {name : Bytes} : isRustSource name = true ↔ IsSourceName name := by
  unfold isRustSource IsSourceName
  rw [decide_eq_true_iff, extension_eq_rs_iff, ne_eq, ne_eq, Utf8.decode_eq_some_iff, eq_comm]

/-- The files of a directory are those of its first entry and those of the others. -/
lemma collectEntries_cons_iff {source : Bytes} {path : List Bytes} {name : Bytes} {tree : Tree}
    {entries : List (Bytes × Tree)} {files : List SourceFile} :
    collectEntries source path ((name, tree) :: entries) = .ok files ↔
      ∃ first more, collectEntry source path name tree = .ok first ∧
        collectEntries source path entries = .ok more ∧ files = first ++ more := by
  rw [collectEntries]
  cases collectEntry source path name tree with
  | error error => simp [bind, Except.bind]
  | ok first =>
    cases collectEntries source path entries with
    | error error => simp [bind, Except.bind]
    | ok more => simp [bind, Except.bind, eq_comm]

/-- The files of a directory are those of its parts. -/
lemma collectEntries_append_iff {source : Bytes} {path : List Bytes}
    {front back : List (Bytes × Tree)} {files : List SourceFile} :
    collectEntries source path (front ++ back) = .ok files ↔
      ∃ first more, collectEntries source path front = .ok first ∧
        collectEntries source path back = .ok more ∧ files = first ++ more := by
  induction front generalizing files with
  | nil =>
    constructor
    · intro h
      exact ⟨[], files, rfl, h, rfl⟩
    · rintro ⟨first, more, hfirst, hmore, rfl⟩
      obtain rfl : first = [] := (Except.ok.inj hfirst).symm
      exact hmore
  | cons e front ih =>
    rw [List.cons_append, collectEntries_cons_iff]
    constructor
    · rintro ⟨first, rest, hfirst, hrest, rfl⟩
      obtain ⟨second, more, hsecond, hmore, rfl⟩ := ih.1 hrest
      exact ⟨first ++ second, more, collectEntries_cons_iff.2 ⟨_, _, hfirst, hsecond, rfl⟩, hmore,
        (List.append_assoc _ _ _).symm⟩
    · rintro ⟨both, more, hboth, hmore, rfl⟩
      obtain ⟨first, second, hfirst, hsecond, rfl⟩ := collectEntries_cons_iff.1 hboth
      exact ⟨first, second ++ more, hfirst, ih.2 ⟨_, _, hsecond, hmore, rfl⟩,
        List.append_assoc _ _ _⟩

/-- The files of a directory are those of its entries. -/
lemma Tree.fileAt_dir_iff {entries : List (Bytes × Tree)} {path : List Bytes}
    {content : Except Str Bytes} :
    (Tree.dir entries).FileAt path content ↔
      ∃ e ∈ entries, ∃ rest, path = e.1 :: rest ∧ e.2.FileAt rest content := by
  constructor
  · intro h
    cases h with
    | within hmem h => exact ⟨_, hmem, _, rfl, h⟩
  · rintro ⟨⟨name, tree⟩, hmem, rest, rfl, h⟩
    exact .within hmem h

/-- The loop over the entries of a directory finds the files of the entries. -/
lemma mem_collectEntries {source : Bytes} {path : List Bytes} {entries : List (Bytes × Tree)}
    {files : List SourceFile} (h : collectEntries source path entries = .ok files)
    {Q : Bytes × Tree → SourceFile → Prop}
    (hentry : ∀ e ∈ entries, ∀ found, collectEntry source path e.1 e.2 = .ok found →
      ∀ file, file ∈ found ↔ Q e file) (file : SourceFile) :
    file ∈ files ↔ ∃ e ∈ entries, Q e file := by
  induction entries generalizing files with
  | nil =>
    obtain rfl : files = [] := (Except.ok.inj h).symm
    simp
  | cons e entries ih =>
    obtain ⟨name, tree⟩ := e
    obtain ⟨first, more, hfirst, hmore, rfl⟩ := collectEntries_cons_iff.1 h
    rw [List.mem_append, hentry _ List.mem_cons_self first hfirst,
      ih hmore fun e he => hentry e (List.mem_cons_of_mem _ he), List.exists_mem_cons_iff]

/-- **The files that are found below an entry**: its source files.

**Proof sketch.** Induction over the tree. -/
lemma mem_collectEntry {source : Bytes} (tree : Tree) {path : List Bytes} {name : Bytes}
    {files : List SourceFile} (h : collectEntry source path name tree = .ok files)
    (file : SourceFile) :
    file ∈ files ↔ ∃ rest, tree.FileAt rest file.content ∧ IsSourcePath (name :: rest) ∧
      file.path = path ++ name :: rest := by
  induction tree using Tree.induct generalizing path name files file with
  | closed error => cases h
  | file content =>
    rw [collectEntry, Except.ok.injEq] at h
    subst h
    by_cases hsource : isRustSource name = true
    · rw [if_pos hsource, List.mem_singleton]
      constructor
      · rintro rfl
        exact ⟨[], .here content, ⟨name, rfl, isRustSource_iff.1 hsource⟩, rfl⟩
      · rintro ⟨rest, hfile, -, hpath⟩
        obtain ⟨filePath, fileContent⟩ := file
        cases hfile
        obtain rfl : filePath = path ++ [name] := hpath
        rfl
    · rw [if_neg hsource]
      constructor
      · intro hmem
        cases hmem
      · rintro ⟨rest, hfile, ⟨name', hlast, hsource'⟩, -⟩
        obtain ⟨filePath, fileContent⟩ := file
        cases hfile
        obtain rfl := Option.some.inj hlast
        exact absurd (isRustSource_iff.2 hsource') hsource
  | dir entries ih =>
    rw [collectEntry] at h
    rw [mem_collectEntries h fun e he found hfound file => ih e he hfound file]
    constructor
    · rintro ⟨e, he, rest, hfile, ⟨last, hlast, hsource⟩, hpath⟩
      refine ⟨e.1 :: rest, Tree.fileAt_dir_iff.2 ⟨e, he, rest, rfl, hfile⟩, ⟨last, ?_, hsource⟩, ?_⟩
      · rw [List.getLast?_cons_cons, hlast]
      · rw [hpath, List.append_assoc]
        rfl
    · rintro ⟨rest, hfile, ⟨last, hlast, hsource⟩, hpath⟩
      obtain ⟨e, he, rest, rfl, hbelow⟩ := Tree.fileAt_dir_iff.1 hfile
      rw [List.getLast?_cons_cons] at hlast
      refine ⟨e, he, rest, hbelow, ⟨last, hlast, hsource⟩, ?_⟩
      rw [hpath, List.append_assoc]
      rfl

/-- **The files that are found**: the source files of the directory. -/
theorem mem_collectRsFiles_iff {source : Bytes} {tree : Tree} {files : List SourceFile}
    (h : collectRsFiles source tree = .ok files) (file : SourceFile) :
    file ∈ files ↔ tree.FileAt file.path file.content ∧ IsSourcePath file.path := by
  cases tree with
  | file content => cases h
  | closed error => cases h
  | dir entries =>
    rw [collectRsFiles] at h
    rw [mem_collectEntries h fun e _ found hfound file => mem_collectEntry e.2 hfound file,
      Tree.fileAt_dir_iff]
    constructor
    · rintro ⟨e, he, rest, hfile, hsource, hpath⟩
      rw [List.nil_append] at hpath
      exact ⟨⟨e, he, rest, hpath, hfile⟩, by rwa [hpath]⟩
    · rintro ⟨⟨e, he, rest, hpath, hfile⟩, hsource⟩
      exact ⟨e, he, rest, hfile, by rwa [← hpath], hpath⟩

/-- Files of different entries have different paths. -/
lemma nodup_collectEntries {source : Bytes} {path : List Bytes} {entries : List (Bytes × Tree)}
    {files : List SourceFile} (hnames : (entries.map Prod.fst).Nodup)
    (hentry : ∀ e ∈ entries, ∀ found, collectEntry source path e.1 e.2 = .ok found →
      (found.map SourceFile.path).Nodup)
    (h : collectEntries source path entries = .ok files) :
    (files.map SourceFile.path).Nodup := by
  induction entries generalizing files with
  | nil =>
    obtain rfl : files = [] := (Except.ok.inj h).symm
    exact List.nodup_nil
  | cons e entries ih =>
    obtain ⟨name, tree⟩ := e
    obtain ⟨hnew, hnames⟩ := List.nodup_cons.1 hnames
    obtain ⟨first, more, hfirst, hmore, rfl⟩ := collectEntries_cons_iff.1 h
    rw [List.map_append]
    refine (hentry _ List.mem_cons_self first hfirst).append
      (ih hnames (fun e he => hentry e (List.mem_cons_of_mem _ he)) hmore) ?_
    -- the two paths would go on with the name of two different entries
    intro shared hin hin'
    obtain ⟨file, hfile, rfl⟩ := List.mem_map.1 hin
    obtain ⟨file', hfile', hpaths⟩ := List.mem_map.1 hin'
    obtain ⟨rest, -, -, hpath⟩ := (mem_collectEntry tree hfirst file).1 hfile
    obtain ⟨e', he', rest', -, -, hpath'⟩ := (mem_collectEntries hmore
      (fun e _ found hfound file => mem_collectEntry e.2 hfound file) file').1 hfile'
    rw [hpath, hpath', List.append_cancel_left_eq] at hpaths
    obtain ⟨hname, -⟩ := List.cons.inj hpaths
    exact hnew (List.mem_map.2 ⟨e', he', hname⟩)

/-- The files that are found below an entry have different paths. -/
lemma nodup_collectEntry {source : Bytes} (tree : Tree) (hnames : tree.DistinctNames)
    {path : List Bytes} {name : Bytes} {files : List SourceFile}
    (h : collectEntry source path name tree = .ok files) :
    (files.map SourceFile.path).Nodup := by
  induction tree using Tree.induct generalizing path name files with
  | closed error => cases h
  | file content =>
    rw [collectEntry, Except.ok.injEq] at h
    subst h
    split_ifs <;> simp
  | dir entries ih =>
    rw [collectEntry] at h
    cases hnames with
    | dir hnodup hentries =>
      exact nodup_collectEntries hnodup (fun e he found hfound => ih e he (hentries e he) hfound) h

/-- The files that are found have different paths. -/
lemma nodup_collectRsFiles {source : Bytes} {tree : Tree} (hnames : tree.DistinctNames)
    {files : List SourceFile} (h : collectRsFiles source tree = .ok files) :
    (files.map SourceFile.path).Nodup := by
  cases hnames with
  | file content => cases h
  | closed error => cases h
  | dir hnodup hentries =>
    exact nodup_collectEntries hnodup
      (fun e he found hfound => nodup_collectEntry e.2 (hentries e he) hfound) h

/-! ## Orders of enumeration -/

/-- The order of the entries changes the order of the files only. -/
lemma collectEntries_perm {source : Bytes} {path : List Bytes}
    {entries entries' : List (Bytes × Tree)}
    (h : entries.Perm entries') {files : List SourceFile}
    (hfiles : collectEntries source path entries = .ok files) :
    ∃ files', collectEntries source path entries' = .ok files' ∧ files.Perm files' := by
  induction h generalizing files with
  | nil => exact ⟨files, hfiles, .refl _⟩
  | cons e _ ih =>
    obtain ⟨first, more, hfirst, hmore, rfl⟩ := collectEntries_cons_iff.1 hfiles
    obtain ⟨more', hmore', hperm⟩ := ih hmore
    exact ⟨first ++ more', collectEntries_cons_iff.2 ⟨first, more', hfirst, hmore', rfl⟩,
      hperm.append_left first⟩
  | swap e e' entries =>
    obtain ⟨first, rest, hfirst, hrest, rfl⟩ := collectEntries_cons_iff.1 hfiles
    obtain ⟨second, more, hsecond, hmore, rfl⟩ := collectEntries_cons_iff.1 hrest
    refine ⟨second ++ (first ++ more), collectEntries_cons_iff.2 ⟨second, first ++ more, hsecond,
      collectEntries_cons_iff.2 ⟨first, more, hfirst, hmore, rfl⟩, rfl⟩, ?_⟩
    rw [← List.append_assoc, ← List.append_assoc]
    exact List.perm_append_comm.append_right more
  | trans _ _ ih ih' =>
    obtain ⟨files', hfiles', hperm⟩ := ih hfiles
    obtain ⟨files'', hfiles'', hperm'⟩ := ih' hfiles'
    exact ⟨files'', hfiles'', hperm.trans hperm'⟩

/-- Another order in one entry changes the order of the files only. -/
lemma collectEntries_entry {source : Bytes} {path : List Bytes} {front back : List (Bytes × Tree)}
    {name : Bytes} {tree tree' : Tree}
    (hentry : ∀ {found}, collectEntry source path name tree = .ok found →
      ∃ found', collectEntry source path name tree' = .ok found' ∧ found.Perm found')
    {files : List SourceFile}
    (h : collectEntries source path (front ++ (name, tree) :: back) = .ok files) :
    ∃ files', collectEntries source path (front ++ (name, tree') :: back) = .ok files' ∧
      files.Perm files' := by
  obtain ⟨first, rest, hfirst, hrest, rfl⟩ := collectEntries_append_iff.1 h
  obtain ⟨found, more, hfound, hmore, rfl⟩ := collectEntries_cons_iff.1 hrest
  obtain ⟨found', hfound', hperm⟩ := hentry hfound
  exact ⟨first ++ (found' ++ more), collectEntries_append_iff.2 ⟨first, found' ++ more, hfirst,
    collectEntries_cons_iff.2 ⟨found', more, hfound', hmore, rfl⟩, rfl⟩,
    (hperm.append_right more).append_left first⟩

/-- What is found below a tree does not depend on the orders of enumeration, up to its order. -/
lemma collectEntry_reordered {source : Bytes} {tree tree' : Tree} (h : Tree.Reordered tree tree')
    {path : List Bytes} {name : Bytes} {files : List SourceFile}
    (hfiles : collectEntry source path name tree = .ok files) :
    ∃ files', collectEntry source path name tree' = .ok files' ∧ files.Perm files' := by
  induction h generalizing path name files with
  | refl tree => exact ⟨files, hfiles, .refl _⟩
  | enumeration h =>
    rw [collectEntry] at hfiles ⊢
    exact collectEntries_perm h hfiles
  | @entry front back name' tree tree' _ ih =>
    rw [collectEntry] at hfiles ⊢
    exact collectEntries_entry (fun h => ih h) hfiles
  | trans _ _ ih ih' =>
    obtain ⟨files', hfiles', hperm⟩ := ih hfiles
    obtain ⟨files'', hfiles'', hperm'⟩ := ih' hfiles'
    exact ⟨files'', hfiles'', hperm.trans hperm'⟩

/-- The files that are found do not depend on the orders of enumeration, up to their order. -/
lemma collectRsFiles_reordered {source : Bytes} {tree tree' : Tree}
    (h : Tree.Reordered tree tree') {files : List SourceFile}
    (hfiles : collectRsFiles source tree = .ok files) :
    ∃ files', collectRsFiles source tree' = .ok files' ∧ files.Perm files' := by
  induction h generalizing files with
  | refl tree => exact ⟨files, hfiles, .refl _⟩
  | enumeration h => exact collectEntries_perm h hfiles
  | entry h _ => exact collectEntries_entry (fun hfound => collectEntry_reordered h hfound) hfiles
  | trans _ _ ih ih' =>
    obtain ⟨files', hfiles', hperm⟩ := ih hfiles
    obtain ⟨files'', hfiles'', hperm'⟩ := ih' hfiles'
    exact ⟨files'', hfiles'', hperm.trans hperm'⟩

/-! ## The routes that are loaded -/

/-- Different paths are compared as different. -/
lemma pathKey_injective : Function.Injective pathKey :=
  List.map_injective_iff.2 (List.map_injective_iff.2 fun _ _ => UInt8.toNat_inj.1)

/-- The routes of the files, file by file. -/
lemma parseFiles_eq_ok {upper : Char → Str} {source : Bytes} {files : List SourceFile}
    {routes : List RouteDoc} (h : parseFiles upper source files = .ok routes) :
    ∃ parsed : List (SourceFile × List RouteDoc), parsed.map Prod.fst = files ∧
      (∀ p ∈ parsed, parseFile upper source p.1 = .ok p.2) ∧ routes = parsed.flatMap Prod.snd := by
  induction files generalizing routes with
  | nil =>
    obtain rfl : routes = [] := (Except.ok.inj h).symm
    exact ⟨[], rfl, by simp, rfl⟩
  | cons file files ih =>
    rw [parseFiles] at h
    cases hfirst : parseFile upper source file with
    | error error =>
      rw [hfirst] at h
      cases h
    | ok docs =>
      cases hrest : parseFiles upper source files with
      | error error =>
        rw [hfirst, hrest] at h
        cases h
      | ok more =>
        rw [hfirst, hrest] at h
        obtain rfl : routes = docs ++ more := (Except.ok.inj h).symm
        obtain ⟨parsed, rfl, hparsed, rfl⟩ := ih hrest
        exact ⟨(file, docs) :: parsed, rfl, List.forall_mem_cons.2 ⟨hfirst, hparsed⟩, rfl⟩

/-- The routes that are loaded, from those of the sorted files. -/
lemma loadRoutes_eq_ok_iff {upper : Char → Str} {source : Bytes} {tree : Tree}
    {routes : List RouteDoc} :
    loadRoutes upper source tree = .ok routes ↔
      ∃ files found, collectRsFiles source tree = .ok files ∧
        parseFiles upper source (Sorting.sortBy (fun file => pathKey file.path) files) = .ok found ∧
        routes = Sorting.dedupBy RouteDoc.key (Sorting.sortBy RouteDoc.key found) := by
  unfold loadRoutes
  cases collectRsFiles source tree with
  | error error => simp [bind, Except.bind]
  | ok files =>
    simp only [bind, Except.bind, Except.ok.injEq, exists_and_left, exists_eq_left']
    cases parseFiles upper source (Sorting.sortBy (fun file => pathKey file.path) files) with
    | error error => simp
    | ok found => simp [eq_comm]

/-- The routes that are loaded are sorted strictly by path, method and handler. -/
lemma pairwise_loadRoutes {upper : Char → Str} {source : Bytes} {tree : Tree}
    {routes : List RouteDoc} (hload : loadRoutes upper source tree = .ok routes) :
    routes.Pairwise fun r r' => r.key < r'.key := by
  obtain ⟨files, found, -, -, rfl⟩ := loadRoutes_eq_ok_iff.1 hload
  exact Sorting.pairwise_dedupBy RouteDoc.key (Sorting.pairwise_sortBy RouteDoc.key _)

/-- Files with different paths are sorted in one order only. -/
lemma sortBy_pathKey_eq {files files' : List SourceFile} (hperm : files.Perm files')
    (hnodup : (files.map SourceFile.path).Nodup) :
    Sorting.sortBy (fun file => pathKey file.path) files =
      Sorting.sortBy (fun file => pathKey file.path) files' :=
  Sorting.sortBy_eq_of_perm _ hperm fun _ hfile _ hfile' hkey =>
    List.inj_on_of_nodup_map hnodup hfile hfile' (pathKey_injective hkey)

/-- Another order of enumeration loads the same routes. -/
lemma loadRoutes_reordered {upper : Char → Str} {source : Bytes} {tree tree' : Tree}
    (hnames : tree.DistinctNames) (h : Tree.Reordered tree tree') {routes : List RouteDoc}
    (hload : loadRoutes upper source tree = .ok routes) :
    loadRoutes upper source tree' = .ok routes := by
  obtain ⟨files, found, hfiles, hfound, hroutes⟩ := loadRoutes_eq_ok_iff.1 hload
  obtain ⟨files', hfiles', hperm⟩ := collectRsFiles_reordered h hfiles
  rw [sortBy_pathKey_eq hperm (nodup_collectRsFiles hnames hfiles)] at hfound
  exact loadRoutes_eq_ok_iff.2 ⟨files', found, hfiles', hfound, hroutes⟩

/-- **Route loading is canonical.** Two orders of enumeration load the same routes. They increase
strictly by path, method and handler, their keys are those that the source files of the tree
document, and of the routes with one key the first one stays: the files come in the order of their
paths, and the routes of a file in the order of its text.

**Proof sketch.** Two enumerations find the same files up to their order, and sorting different
paths has one result. Sorting the routes is stable, so that of each key the first route in the order
of the files comes first, and it is the one that is kept. -/
theorem loadRoutes_canonical (upper : Char → Str) (source : Bytes) {tree tree' : Tree}
    (hnames : tree.DistinctNames) (h : Tree.Reordered tree tree') :
    (∀ routes, loadRoutes upper source tree = .ok routes ↔
      loadRoutes upper source tree' = .ok routes) ∧
    ∀ routes, loadRoutes upper source tree = .ok routes →
      (routes.Pairwise fun r r' => r.key < r'.key) ∧
      (∀ key, (∃ r ∈ routes, r.key = key) ↔
        ∃ file docs, tree.FileAt file.path file.content ∧ IsSourcePath file.path ∧
          parseFile upper source file = .ok docs ∧ ∃ doc ∈ docs, doc.key = key) ∧
      ∃ parsed : List (SourceFile × List RouteDoc),
        (parsed.Pairwise fun p p' => pathKey p.1.path < pathKey p'.1.path) ∧
        (∀ p ∈ parsed, parseFile upper source p.1 = .ok p.2) ∧
        (∀ file, (∃ docs, (file, docs) ∈ parsed) ↔
          tree.FileAt file.path file.content ∧ IsSourcePath file.path) ∧
        ∀ r, r ∈ routes ↔
          (parsed.flatMap Prod.snd).find? (fun doc => doc.key = r.key) = some r := by
  refine ⟨fun routes => ⟨loadRoutes_reordered hnames h,
    loadRoutes_reordered (hnames.reordered h) h.symm⟩, fun routes hload => ?_⟩
  obtain ⟨files, found, hfiles, hfound, hroutes⟩ := loadRoutes_eq_ok_iff.1 hload
  obtain ⟨parsed, hsorted, hparsed, rfl⟩ := parseFiles_eq_ok hfound
  have hkept : ∀ r, r ∈ routes ↔
      (parsed.flatMap Prod.snd).find? (fun doc => doc.key = r.key) = some r := by
    intro r
    rw [hroutes]
    convert Sorting.mem_dedupBy_sortBy_iff RouteDoc.key (parsed.flatMap Prod.snd) r
  have hmem : ∀ file, (∃ docs, (file, docs) ∈ parsed) ↔
      tree.FileAt file.path file.content ∧ IsSourcePath file.path := by
    intro file
    have hperm := Sorting.perm_sortBy (fun file : SourceFile => pathKey file.path) files
    rw [← mem_collectRsFiles_iff hfiles, ← hperm.mem_iff, ← hsorted]
    simp
  have hincreasing : parsed.Pairwise fun p p' => pathKey p.1.path < pathKey p'.1.path := by
    have hlt := Sorting.pairwise_lt_sortBy (fun file : SourceFile => pathKey file.path) (l := files)
      (by
        have hnodup := (nodup_collectRsFiles hnames hfiles).map pathKey_injective
        rwa [List.map_map] at hnodup)
    rw [← hsorted, List.pairwise_map] at hlt
    exact hlt
  refine ⟨pairwise_loadRoutes hload, fun key => ?_, parsed, hincreasing, hparsed, hmem, hkept⟩
  constructor
  · rintro ⟨r, hr, rfl⟩
    obtain ⟨p, hp, hdoc⟩ := List.mem_flatMap.1 (List.mem_of_find?_eq_some ((hkept r).1 hr))
    obtain ⟨hfile, hsource⟩ := (hmem p.1).1 ⟨p.2, hp⟩
    exact ⟨p.1, p.2, hfile, hsource, hparsed p hp, r, hdoc, rfl⟩
  · rintro ⟨file, docs, hfile, hsource, hdocs, doc, hdoc, rfl⟩
    obtain ⟨docs', hp⟩ := (hmem file).2 ⟨hfile, hsource⟩
    have hparse := hparsed _ hp
    rw [hdocs, Except.ok.injEq] at hparse
    subst hparse
    have hsome : ((parsed.flatMap Prod.snd).find? fun d => d.key = doc.key).isSome = true :=
      List.find?_isSome.2 ⟨doc, List.mem_flatMap.2 ⟨_, hp, hdoc⟩, by simp⟩
    obtain ⟨r, hr⟩ := Option.isSome_iff_exists.1 hsome
    have hkey : r.key = doc.key := by simpa using List.find?_some hr
    exact ⟨r, (hkept r).2 (by rw [hkey]; exact hr), hkey⟩

/-- A directory with two files that register the same route, as `read_dir` may enumerate it. -/
def homeTree (first second : Str) : Tree :=
  .dir ([first, second].map fun name =>
    (Utf8.encode name, .file (.ok (Utf8.encode "route!(\"/\", Rt::GET, home),".toList))))

/-- Both orders of enumeration of this directory load the route once. -/
theorem homeTree_canonical :
    ∃ home, home.key = toLex ("/".toList, toLex ("get".toList, "home".toList)) ∧
      loadRoutes (fun c => [c.toUpper]) [] (homeTree "a.rs".toList "b.rs".toList) = .ok [home] ∧
      loadRoutes (fun c => [c.toUpper]) [] (homeTree "b.rs".toList "a.rs".toList) = .ok [home] := by
  have hnames : (homeTree "a.rs".toList "b.rs".toList).DistinctNames := by
    refine .dir (by decide) fun e he => ?_
    obtain ⟨name, -, rfl⟩ := List.mem_map.1 he
    exact .file _
  have hload : loadRoutes (fun c => [c.toUpper]) [] (homeTree "a.rs".toList "b.rs".toList) =
      .ok [⟨"get".toList, "/".toList, "home".toList, "Home".toList, [], none, none, []⟩] := by
    decide
  exact ⟨_, rfl, hload,
    ((loadRoutes_canonical _ _ hnames (.enumeration (List.Perm.swap _ _ _))).1 _).1 hload⟩

end OpenApi

end Httpageboy
