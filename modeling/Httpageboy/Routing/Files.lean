import Httpageboy.Core.Request

set_option relaxedAutoImplicit false
set_option autoImplicit false

/-!
# Files stay under their sources

`serve_file` tries its base directories in order. The file it serves is the first one that
`secure_path` lets through and that can be read, and lies under the base directory it was
requested from, whatever the request path is made of: the check is on whole components of the
canonical path, made at the very end.

## Main definitions

* `Httpageboy.FileSystem.Canonical` — what `canonicalize` promises.
* `Httpageboy.fileUnder` — the file that one base directory has for a request path.

## Main results

* `Httpageboy.securePath_under` — what `secure_path` lets through lies under the base directory.
* `Httpageboy.serveFile_confined` — a served file lies under the first base directory that has it.
-/

namespace Httpageboy

open Httpageboy.Path

/-- What `canonicalize` promises: the path of an existing file without symbolic links, which is
its own canonical path; it is absolute, and has no `.` or `..`. -/
structure FileSystem.Canonical (fs : FileSystem) : Prop where
  idem : ∀ path canon, fs.canonicalize path = some canon → fs.canonicalize canon = some canon
  plain : ∀ path canon, fs.canonicalize path = some canon →
    ∃ names : List Bytes, components canon = .rootDir :: names.map .normal

/-- The file under a base directory: where it is, and its content. -/
def fileUnder (fs : FileSystem) (path : Str) (base : Str) : Option (Path × Bytes) :=
  (securePath fs (Utf8.encode base) path).bind fun real =>
    (fs.read real).map fun data => (real, data)

/-- The response with a file. -/
def fileResponse (file : Path × Bytes) : Response where
  status := .ok
  headers := [("Content-Type".toList, getContentTypeQuick file.1)]
  body := file.2

/-- A base directory has a file when `secure_path` lets it through and it can be read. -/
lemma fileUnder_eq_some_iff {fs : FileSystem} {path base : Str} {file : Path × Bytes} :
    fileUnder fs path base = some file ↔
      securePath fs (Utf8.encode base) path = some file.1 ∧ fs.read file.1 = some file.2 := by
  unfold fileUnder
  obtain ⟨real, data⟩ := file
  simp only [Option.bind_eq_some_iff, Option.map_eq_some_iff, Prod.mk.injEq]
  constructor
  · rintro ⟨real', hsecure, data', hread, rfl, rfl⟩
    exact ⟨hsecure, hread⟩
  · rintro ⟨hsecure, hread⟩
    exact ⟨real, hsecure, data, hread, rfl, rfl⟩

/-- The loop serves the first file. -/
lemma serveFile_eq (fs : FileSystem) (path : Str) (bases : List Str) :
    serveFile fs path bases =
      ((bases.findSome? (fileUnder fs path)).map fileResponse).getD Response.new := by
  induction bases with
  | nil => rfl
  | cons base bases ih =>
    rw [serveFile, List.findSome?_cons, fileUnder]
    cases securePath fs (Utf8.encode base) path with
    | none => exact ih
    | some real =>
      simp only [Option.bind_some]
      cases fs.read real with
      | none => exact ih
      | some data => rfl

/-- **What `secure_path` lets through lies under the base directory**: it is a canonical path that
extends the canonical path of the base directory by names. -/
theorem securePath_under {fs : FileSystem} (hfs : fs.Canonical) {base real : Path} {path : Str}
    (h : securePath fs base path = some real) :
    fs.canonicalize real = some real ∧ ∃ root, fs.canonicalize base = some root ∧
      ∃ names : List Bytes, components real = components root ++ names.map .normal := by
  unfold securePath at h
  simp only [Option.bind_eq_bind, Option.bind_eq_some_iff] at h
  obtain ⟨canon, hcanon, root, hroot, hcheck⟩ := h
  by_cases hprefix : startsWith canon root = true
  · rw [if_pos hprefix, Option.some.injEq] at hcheck
    subst hcheck
    refine ⟨hfs.idem _ canon hcanon, root, hroot, ?_⟩
    obtain ⟨rest, hrest⟩ := List.isPrefixOf_iff_prefix.1 hprefix
    obtain ⟨names, hnames⟩ := hfs.plain _ canon hcanon
    obtain ⟨parents, hparents⟩ := hfs.plain _ root hroot
    rw [hparents, hnames, List.cons_append, List.cons.injEq] at hrest
    obtain ⟨front, back, -, -, hback⟩ := List.map_eq_append_iff.1 hrest.2.symm
    refine ⟨back, ?_⟩
    rw [hback, hparents, hnames, List.cons_append, hrest.2]
  · rw [if_neg hprefix] at hcheck
    cases hcheck

/-- **Static files are confined to their sources.** Either no base directory has the requested
file, and the answer is `404`; or the answer is `200` with the content of a file whose canonical
path extends, by names, the canonical path of a listed base directory, the first one that has the
file.

**Proof sketch.** The bases are tried in turn (`findSome?`). A path that is served has been
resolved, and its components extend those of the base (`securePath_under`). -/
theorem serveFile_confined {fs : FileSystem} (hfs : fs.Canonical) (path : Str)
    (bases : List Str) :
    ((∀ base ∈ bases, ∀ real, securePath fs (Utf8.encode base) path = some real →
        fs.read real = none) ∧
      serveFile fs path bases = Response.new ∧ Response.new.status = .notFound) ∨
    ∃ before base after real data root,
      bases = before ++ base :: after ∧
      (∀ base ∈ before, ∀ real, securePath fs (Utf8.encode base) path = some real →
        fs.read real = none) ∧
      securePath fs (Utf8.encode base) path = some real ∧ fs.read real = some data ∧
      (serveFile fs path bases).status = .ok ∧ (serveFile fs path bases).body = data ∧
      fs.canonicalize real = some real ∧ fs.canonicalize (Utf8.encode base) = some root ∧
      ∃ names : List Bytes, components real = components root ++ names.map .normal := by
  have hnone : ∀ base, fileUnder fs path base = none → ∀ real,
      securePath fs (Utf8.encode base) path = some real → fs.read real = none := by
    intro base hbase real hsecure
    cases hread : fs.read real with
    | none => rfl
    | some data =>
      have hfile : fileUnder fs path base = some (real, data) :=
        fileUnder_eq_some_iff.2 ⟨hsecure, hread⟩
      rw [hbase] at hfile
      cases hfile
  cases hfind : bases.findSome? (fileUnder fs path) with
  | none =>
    left
    refine ⟨fun base hmem => hnone base (List.findSome?_eq_none_iff.1 hfind base hmem), ?_, rfl⟩
    rw [serveFile_eq, hfind]
    rfl
  | some file =>
    right
    obtain ⟨before, base, after, hbases, hfile, hbefore⟩ := List.findSome?_eq_some_iff.1 hfind
    obtain ⟨hsecure, hread⟩ := fileUnder_eq_some_iff.1 hfile
    obtain ⟨hcanon, root, hroot, hnames⟩ := securePath_under hfs hsecure
    have hserve : serveFile fs path bases = fileResponse file := by
      rw [serveFile_eq, hfind]
      rfl
    exact ⟨before, base, after, file.1, file.2, root, hbases,
      fun base hmem => hnone base (hbefore base hmem), hsecure, hread, by rw [hserve]; rfl,
      by rw [hserve]; rfl, hcanon, hroot, hnames⟩

/-! ## A small tree -/

/-- A text as a path. -/
def toPath (s : String) : Path := Utf8.encode s.toList

/-- The canonical paths of a small tree: a page under `/srv/www`, reached by two more paths, and
a link out of the tree. -/
def treeLinks : List (Path × Path) :=
  [(toPath "/srv/www", toPath "/srv/www"), (toPath "/srv/www/x", toPath "/srv/www/x"),
    (toPath "/srv/www/a.txt", toPath "/srv/www/a.txt"),
    (toPath "/srv/www/x/../a.txt", toPath "/srv/www/a.txt"),
    (toPath "/srv/www/key", toPath "/etc/key"), (toPath "/etc/key", toPath "/etc/key")]

/-- The tree, with two directories and two readable files. -/
def treeFs : FileSystem where
  isDir := fun path => path = toPath "/srv/www" ∨ path = toPath "/srv/www/x"
  canonicalize := fun path => treeLinks.lookup path
  read := fun path =>
    [(toPath "/srv/www/a.txt", toPath "hello"), (toPath "/etc/key", toPath "secret")].lookup path

/-- What the tree finds is in its table. -/
lemma mem_treeLinks {path canon : Path} (h : treeFs.canonicalize path = some canon) :
    (path, canon) ∈ treeLinks := by
  obtain ⟨before, after, hsplit, -⟩ := List.lookup_eq_some_iff.1 h
  rw [hsplit]
  exact List.mem_append_right before List.mem_cons_self

/-- The file system of the example keeps what `canonicalize` promises. -/
lemma treeFs_canonical : treeFs.Canonical where
  idem := by
    have hall : ∀ link ∈ treeLinks, treeLinks.lookup link.2 = some link.2 := by decide
    exact fun path canon h => hall _ (mem_treeLinks h)
  plain := by
    have hall : ∀ link ∈ treeLinks,
        ∃ names ∈ [["srv", "www"], ["srv", "www", "x"], ["srv", "www", "a.txt"], ["etc", "key"]],
          components link.2 = .rootDir :: (names.map toPath).map .normal := by decide
    intro path canon h
    obtain ⟨names, -, hnames⟩ := hall _ (mem_treeLinks h)
    exact ⟨names.map toPath, hnames⟩

/-- The page is served from the second source, and the link out of the tree is not followed. -/
theorem serveFile_confined_tree :
    (serveFile treeFs "/x/../a.txt".toList ["/srv/none".toList, "/srv/www".toList]).body =
      toPath "hello" ∧
    serveFile treeFs "/key".toList ["/srv/none".toList, "/srv/www".toList] = Response.new ∧
    ∃ before base after real data root,
      ["/srv/none".toList, "/srv/www".toList] = before ++ base :: after ∧
      (∀ base ∈ before, ∀ real,
        securePath treeFs (Utf8.encode base) "/x/../a.txt".toList = some real →
        treeFs.read real = none) ∧
      securePath treeFs (Utf8.encode base) "/x/../a.txt".toList = some real ∧
      treeFs.read real = some data ∧
      (serveFile treeFs "/x/../a.txt".toList
        ["/srv/none".toList, "/srv/www".toList]).status = .ok ∧
      (serveFile treeFs "/x/../a.txt".toList
        ["/srv/none".toList, "/srv/www".toList]).body = data ∧
      treeFs.canonicalize real = some real ∧ treeFs.canonicalize (Utf8.encode base) = some root ∧
      ∃ names : List Bytes, components real = components root ++ names.map .normal := by
  have hok : (serveFile treeFs "/x/../a.txt".toList
      ["/srv/none".toList, "/srv/www".toList]).status = .ok := by decide
  refine ⟨by decide, by decide, ?_⟩
  rcases serveFile_confined treeFs_canonical "/x/../a.txt".toList
    ["/srv/none".toList, "/srv/www".toList] with ⟨-, hnew, hstatus⟩ | hfile
  · rw [hnew, hstatus] at hok
    cases hok
  · exact hfile

end Httpageboy
