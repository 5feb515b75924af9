import Httpageboy.Routing.Files
import Httpageboy.Routing.Patterns
import Httpageboy.Runtime.Server

set_option relaxedAutoImplicit false
set_option autoImplicit false

/-!
# What lies outside of the sources stays there

A file server must not only serve no file from outside of its sources: nothing that goes on there
may show in what it does. Two file systems that are the same under the sources are thus compared,
whatever files, directories and links they have elsewhere. The server cannot tell them apart, in no
run and by no request.

## Main definitions

* `Httpageboy.FileSystem.Under` — the places under the sources.
* `Httpageboy.FileSystem.AgreeUnder` — the file systems are the same there.
* `Httpageboy.FileSystem.Walkable` — what `is_dir` promises.

## Main results

* `Httpageboy.serveFile_agree` — the file server answers alike.
* `Httpageboy.run_confined` — so does the server, in every run.
-/

namespace Httpageboy

variable {H U : Type}

/-! ## File systems -/

/-- The name that `secure_path` looks for in a directory. -/
def indexName : Path := Utf8.encode "index.html".toList

namespace FileSystem

/-- The place lies under one of the sources. -/
def Under (fs : FileSystem) (bases : List Str) (real : Path) : Prop :=
  ∃ base ∈ bases, ∃ root, fs.canonicalize (Utf8.encode base) = some root ∧
    Path.startsWith real root = true

/-- The file systems are the same under the sources: these are at the same places, the same paths
lead to each place under them, and it is the same there. -/
structure AgreeUnder (fs fs' : FileSystem) (bases : List Str) : Prop where
  roots : ∀ base ∈ bases,
    fs'.canonicalize (Utf8.encode base) = fs.canonicalize (Utf8.encode base)
  paths : ∀ path real, fs.Under bases real →
    (fs'.canonicalize path = some real ↔ fs.canonicalize path = some real)
  dirs : ∀ path real, fs.Under bases real → fs.canonicalize path = some real →
    fs'.isDir path = fs.isDir path
  files : ∀ real, fs.Under bases real → fs'.read real = fs.read real

/-- What `is_dir` promises: a path that leads on is that of a directory. The empty path leads
nowhere, although a name that is joined to it does. -/
structure Walkable (fs : FileSystem) : Prop where
  empty : fs.isDir [] = false
  leads : ∀ path canon, path ≠ [] → fs.canonicalize (Path.join path indexName) = some canon →
    fs.isDir path = true

variable {fs fs' : FileSystem} {bases : List Str}

/-- The same places lie under the sources. -/
lemma AgreeUnder.under_iff (h : fs.AgreeUnder fs' bases) (real : Path) :
    fs'.Under bases real ↔ fs.Under bases real := by
  unfold Under
  constructor
  · rintro ⟨base, hbase, root, hroot, hprefix⟩
    exact ⟨base, hbase, root, (h.roots base hbase).symm.trans hroot, hprefix⟩
  · rintro ⟨base, hbase, root, hroot, hprefix⟩
    exact ⟨base, hbase, root, (h.roots base hbase).trans hroot, hprefix⟩

/-- It does not matter which of them comes first. -/
lemma AgreeUnder.symm (h : fs.AgreeUnder fs' bases) : fs'.AgreeUnder fs bases where
  roots base hbase := (h.roots base hbase).symm
  paths path real hunder := (h.paths path real ((h.under_iff real).1 hunder)).symm
  dirs path real hunder hpath := by
    have hunder' := (h.under_iff real).1 hunder
    exact (h.dirs path real hunder' ((h.paths path real hunder').1 hpath)).symm
  files real hunder := (h.files real ((h.under_iff real).1 hunder)).symm

end FileSystem

/-! ## The file server -/

/-- The path that `secure_path` builds of a base directory and the path of a request. -/
def fullPath (base : Path) (path : Str) : Path :=
  Path.join base (Utf8.encode (((path.splitOn '?').headD []).dropWhile (· = '/')))

/-- And where it looks then: in a directory it takes the index. -/
def soughtPath (fs : FileSystem) (full : Path) : Path :=
  if fs.isDir full then Path.join full indexName else full

/-- What `secure_path` lets through. -/
lemma securePath_eq_some_iff {fs : FileSystem} {base real : Path} {path : Str} :
    securePath fs base path = some real ↔
      fs.canonicalize (soughtPath fs (fullPath base path)) = some real ∧
        ∃ root, fs.canonicalize base = some root ∧ Path.startsWith real root = true := by
  have hsecure : securePath fs base path =
      (fs.canonicalize (soughtPath fs (fullPath base path))).bind fun canon =>
        (fs.canonicalize base).bind fun root =>
          if Path.startsWith canon root then some canon else none := rfl
  rw [hsecure, Option.bind_eq_some_iff]
  constructor
  · rintro ⟨canon, hcanon, hbase⟩
    obtain ⟨root, hroot, hcheck⟩ := Option.bind_eq_some_iff.1 hbase
    split_ifs at hcheck with hprefix
    obtain rfl := Option.some.inj hcheck
    exact ⟨hcanon, root, hroot, hprefix⟩
  · rintro ⟨hcanon, root, hroot, hprefix⟩
    exact ⟨real, hcanon, Option.bind_eq_some_iff.2 ⟨root, hroot, if_pos hprefix⟩⟩

section Agree

variable {fs fs' : FileSystem} {bases : List Str}

/-- What is let through lies under the sources. -/
lemma under_of_securePath {base : Str} (hbase : base ∈ bases) {path : Str} {real : Path}
    (h : securePath fs (Utf8.encode base) path = some real) : fs.Under bases real := by
  obtain ⟨-, root, hroot, hprefix⟩ := securePath_eq_some_iff.1 h
  exact ⟨base, hbase, root, hroot, hprefix⟩

/-- What is let through in the one file system is let through in the other. -/
lemma securePath_of_agree (h : fs.AgreeUnder fs' bases) (hfs : fs.Walkable) (hfs' : fs'.Walkable)
    {base : Str} (hbase : base ∈ bases) {path : Str} {real : Path}
    (hsecure : securePath fs (Utf8.encode base) path = some real) :
    securePath fs' (Utf8.encode base) path = some real := by
  have hunder := under_of_securePath hbase hsecure
  obtain ⟨hcanon, root, hroot, hprefix⟩ := securePath_eq_some_iff.1 hsecure
  have hcanon' := (h.paths _ real hunder).2 hcanon
  -- the other file system takes the same for a directory
  have hsought : soughtPath fs' (fullPath (Utf8.encode base) path) =
      soughtPath fs (fullPath (Utf8.encode base) path) := by
    generalize fullPath (Utf8.encode base) path = full at hcanon hcanon' ⊢
    unfold soughtPath at hcanon hcanon' ⊢
    cases hdir : fs.isDir full with
    | true =>
      rw [hdir, if_pos rfl] at hcanon'
      have hne : full ≠ [] := by
        rintro rfl
        rw [hfs.empty] at hdir
        cases hdir
      rw [hfs'.leads full real hne hcanon']
    | false =>
      rw [hdir, if_neg Bool.false_ne_true] at hcanon
      rw [h.dirs full real hunder hcanon, hdir]
  refine securePath_eq_some_iff.2 ⟨?_, root, (h.roots base hbase).trans hroot, hprefix⟩
  rw [hsought]
  exact hcanon'

/-- The same files are under a source. -/
lemma fileUnder_agree (h : fs.AgreeUnder fs' bases) (hfs : fs.Walkable) (hfs' : fs'.Walkable)
    {base : Str} (hbase : base ∈ bases) (path : Str) :
    fileUnder fs' path base = fileUnder fs path base := by
  have hsame : securePath fs' (Utf8.encode base) path = securePath fs (Utf8.encode base) path := by
    ext real
    exact ⟨securePath_of_agree h.symm hfs' hfs hbase, securePath_of_agree h hfs hfs' hbase⟩
  unfold fileUnder
  rw [hsame]
  cases hsecure : securePath fs (Utf8.encode base) path with
  | none => rfl
  | some real =>
    rw [Option.bind_some, Option.bind_some, h.files real (under_of_securePath hbase hsecure)]

/-- **The file server answers alike**: it looks under its sources only. -/
theorem serveFile_agree (h : fs.AgreeUnder fs' bases) (hfs : fs.Walkable) (hfs' : fs'.Walkable)
    (path : Str) : serveFile fs' path bases = serveFile fs path bases := by
  have hfind : ∀ listed ⊆ bases,
      listed.findSome? (fileUnder fs' path) = listed.findSome? (fileUnder fs path) := by
    intro listed hsub
    induction listed with
    | nil => rfl
    | cons base rest ih =>
      obtain ⟨hbase, hrest⟩ := List.cons_subset.1 hsub
      rw [List.findSome?_cons, List.findSome?_cons, fileUnder_agree h hfs hfs' hbase, ih hrest]
  rw [serveFile_eq, serveFile_eq, hfind bases (List.Subset.refl bases)]

end Agree

/-! ## The server -/

/-- The handlers are the same, and what lies under the sources. -/
structure Env.AgreeUnder (env env' : Env H) (bases : List Str) : Prop where
  handle : env'.handle = env.handle
  files : env.fs.AgreeUnder env'.fs bases
  walkable : env.fs.Walkable
  walkable' : env'.fs.Walkable

section Run

variable {env env' : Env H} {bases : List Str}

/-- A request is routed alike. -/
lemma route_agree (h : env.AgreeUnder env' bases) (request : Request) (routes : Routes H U) :
    request.route env' routes bases = request.route env routes bases := by
  rw [route_eq, route_eq]
  cases selectEntry routes request.method request.path with
  | some e =>
    unfold invoke
    rw [h.handle]
  | none =>
    simp only
    rw [serveFile_agree h.files h.walkable h.walkable']

/-- A request is routed alike. -/
lemma parseRaw_agree (h : env.AgreeUnder env' bases) (raw : Bytes) (routes : Routes H U) :
    parseRaw env' raw routes bases = parseRaw env raw routes bases := by
  unfold parseRaw
  cases parseRawOnly raw routes with
  | ok request => exact route_agree h request routes
  | error response => rfl

/-- A framed request is answered alike. -/
lemma Server.answer_agree {server : Server H U} (h : env.AgreeUnder env' server.filesSources)
    (handled : ℕ) (raw : Bytes) (routed : Routed H U) (stream : List Read) :
    server.answer env' handled raw routed stream = server.answer env handled raw routed stream := by
  have hrespond : server.respond env' raw routed = server.respond env raw routed := by
    unfold Server.respond
    rw [route_agree h]
  unfold Server.answer
  rw [hrespond]

/-- **What lies outside of the sources stays there.** Two environments with the same handlers,
whose file systems are the same under the sources of the server whenever it handles a request,
make it take the same turns on every connection: it frames, routes and answers the same requests
with the same bytes.

**Proof sketch.** What `secure_path` lets through lies under a source, where the same paths lead to
the same places (`securePath_of_agree`); whether it looks for an index is decided there as well. So
the same files are served, and nothing else in an iteration depends on the file system. -/
theorem run_confined {server : Server H U} {env env' : ℕ → Env H}
    (h : ∀ i, (env i).AgreeUnder (env' i) server.filesSources) (n : ℕ) (conn : Conn) :
    server.run env' n conn = server.run env n conn := by
  have hturn : server.turn env' = server.turn env := by
    funext conn
    have hagree := h conn.handled
    have hparse : ∀ reader, parseStream (env' conn.handled) server.routes server.filesSources
        server.limits (0 < conn.handled) reader =
          parseStream (env conn.handled) server.routes server.filesSources server.limits
            (0 < conn.handled) reader := by
      intro reader
      unfold parseStream
      simp only [parseRaw_agree hagree]
    unfold Server.turn
    rw [hparse]
    simp only [Server.answer_agree hagree]
  unfold Server.run
  rw [hturn]

end Run

/-! ## A small site -/

/-- Where the paths of a small site lead: it has an index, and a link to a file outside. -/
def siteLinks : List (Path × Path) :=
  [(toPath "/w", toPath "/w"), (toPath "/w/", toPath "/w"),
    (toPath "/w/index.html", toPath "/w/index.html"), (toPath "/w/key", toPath "/k"),
    (toPath "/k", toPath "/k")]

/-- The site, with a text in the file outside. -/
def siteFs (secret : Bytes) : FileSystem where
  isDir := fun path => path = toPath "/w" ∨ path = toPath "/w/"
  canonicalize := fun path => siteLinks.lookup path
  read := fun path =>
    [(toPath "/w/index.html", toPath "hello"), (toPath "/k", secret)].lookup path

/-- The text does not matter under the source. -/
lemma siteFs_agree (secret secret' : Bytes) :
    (siteFs secret).AgreeUnder (siteFs secret') ["/w".toList] where
  roots _ _ := rfl
  paths _ _ _ := Iff.rfl
  dirs _ _ _ _ := rfl
  files := by
    rintro real ⟨base, hbase, root, hroot, hprefix⟩
    obtain rfl := List.mem_singleton.1 hbase
    have hsite : siteLinks.lookup (Utf8.encode "/w".toList) = some (toPath "/w") := by decide
    obtain rfl := Option.some.inj (hroot.symm.trans hsite)
    have hne : real ≠ toPath "/k" := by
      rintro rfl
      revert hprefix
      decide
    have hbeq : (real == toPath "/k") = false := beq_false_of_ne hne
    unfold siteFs
    simp only [List.lookup_cons, hbeq, List.lookup_nil]

/-- Its directory is one. -/
lemma siteFs_walkable (secret : Bytes) : (siteFs secret).Walkable where
  empty := by
    show decide (([] : Path) = toPath "/w" ∨ ([] : Path) = toPath "/w/") = false
    decide
  leads := by
    intro path canon hne hcanon
    have hkey : Path.join path indexName ∈ siteLinks.map Prod.fst := by
      obtain ⟨before, after, hsplit, -⟩ := List.lookup_eq_some_iff.1 hcanon
      rw [hsplit]
      simp
    have hindex : toPath "/w/index.html" = toPath "/w/" ++ indexName := by decide
    have hshort : ∀ key ∈ siteLinks.map Prod.fst, key ≠ toPath "/w/index.html" →
        key.length < indexName.length := by decide
    have hrelative : indexName.head? ≠ some Path.sep := by decide
    have hlong : indexName.length ≤ (Path.join path indexName).length := by
      unfold Path.join
      rw [if_neg hrelative]
      split_ifs
      all_goals
        rw [List.length_append]
        omega
    have hjoin : Path.join path indexName = toPath "/w/" ++ indexName := by
      rw [← hindex]
      by_contra hother
      exact absurd (hshort _ hkey hother) (Nat.not_lt.2 hlong)
    show decide (path = toPath "/w" ∨ path = toPath "/w/") = true
    rw [decide_eq_true_iff]
    unfold Path.join at hjoin
    rw [if_neg hrelative] at hjoin
    split_ifs at hjoin with hsep
    · have hcut := List.append_cancel_right hjoin
      have hslash : toPath "/w/" = toPath "/w" ++ [Path.sep] := by decide
      rw [hslash] at hcut
      exact .inl (List.append_cancel_right hcut)
    · exact .inr (List.append_cancel_right hjoin)

/-- A server with the site as its source. -/
def siteServer : Server Unit Unit := { rootServer none with filesSources := ["/w".toList] }

/-- Its environment. -/
def siteEnv (secret : Bytes) : Env Unit := { constantEnv Response.new with fs := siteFs secret }

/-- The link is asked for, and tells nothing about the file that it leads to. -/
theorem run_confined_site :
    (siteFs (toPath "a")).read (toPath "/k") ≠ (siteFs (toPath "b")).read (toPath "/k") ∧
      siteServer.run (fun _ => siteEnv (toPath "b")) 20
          (.start 0 [⟨0, .ok (Utf8.encode "GET /key HTTP/1.1\r\n\r\n".toList)⟩]) =
        siteServer.run (fun _ => siteEnv (toPath "a")) 20
          (.start 0 [⟨0, .ok (Utf8.encode "GET /key HTTP/1.1\r\n\r\n".toList)⟩]) :=
  ⟨by decide, run_confined (fun _ =>
    ⟨rfl, siteFs_agree _ _, siteFs_walkable _, siteFs_walkable _⟩) _ _⟩

end Httpageboy
