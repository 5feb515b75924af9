import Httpageboy.Core.Message

set_option relaxedAutoImplicit false
set_option autoImplicit false

/-!
# Files

`utils.rs` and the part of Rust's `Path` it uses, for Unix paths: a path is its bytes. The file
system is a parameter, its three queries are the ones the server makes.

## Main definitions

* `Httpageboy.Path.join`, `Httpageboy.Path.startsWith`, `Httpageboy.Path.extension`.
* `Httpageboy.FileSystem` — the answers of the operating system.
* `Httpageboy.securePath` — the canonical path of a requested file under a base directory.
-/

namespace Httpageboy

/-- The bytes of a Unix path. -/
abbrev Path := Bytes

namespace Path

/-- The separator `/`. -/
def sep : UInt8 := 47

/-- The byte `.`. -/
def dot : UInt8 := 46

/-- `Path::join`: an absolute second path replaces the first one. -/
def join (base rel : Path) : Path :=
  if rel.head? = some sep then rel
  else if base ≠ [] ∧ base.getLast? ≠ some sep then base ++ [sep] ++ rel
  else base ++ rel

/-- `Component`. -/
inductive Component where
  | rootDir
  | curDir
  | parentDir
  | normal (name : Bytes)
  deriving DecidableEq

/-- The component of one nonempty piece. -/
def component (piece : Bytes) : Component :=
  if piece = [dot] then .curDir else if piece = [dot, dot] then .parentDir else .normal piece

/-- `Path::components`: repeated separators and all `.` pieces are dropped, but for a `.` that
starts a relative path. -/
def components (path : Path) : List Component :=
  let pieces := path.splitOn sep
  let names := (pieces.filter fun piece => piece ≠ [] ∧ piece ≠ [dot]).map component
  if path.head? = some sep then .rootDir :: names
  else if pieces.head? = some [dot] then .curDir :: names
  else names

/-- `Path::starts_with`: whole components are compared. -/
def startsWith (path base : Path) : Bool := (components base).isPrefixOf (components path)

/-- `Path::extension`: the part of the file name behind its last dot. A name without a dot, or
whose only dot comes first, has none. -/
def extension (path : Path) : Option Bytes :=
  match (components path).getLast? with
  | some (.normal name) =>
    let after := name.reverse.takeWhile (· ≠ dot)
    if after.length + 1 < name.length then some after.reverse else none
  | _ => none

end Path

/-- The answers of the operating system to the queries of the file server. -/
structure FileSystem where
  isDir : Path → Bool
  canonicalize : Path → Option Path
  read : Path → Option Bytes

/-- `get_content_type_quick`. -/
def getContentTypeQuick (path : Path) : Str :=
  let table : List (List String × String) :=
    [(["png"], "image/png"), (["jpg", "jpeg"], "image/jpeg"), (["gif"], "image/gif"),
      (["bmp"], "image/bmp"), (["svg"], "image/svg+xml"), (["webp"], "image/webp"),
      (["html"], "text/html"), (["css"], "text/css"), (["js"], "application/javascript"),
      (["json"], "application/json"), (["xml"], "application/xml"), (["pdf"], "application/pdf"),
      (["doc", "docx"], "application/msword"), (["xls", "xlsx"], "application/vnd.ms-excel"),
      (["ppt", "pptx"], "application/vnd.ms-powerpoint"), (["zip"], "application/zip"),
      (["rar"], "application/x-rar-compressed"), (["txt"], "text/plain"), (["csv"], "text/csv"),
      (["mp3"], "audio/mpeg"), (["wav"], "audio/wav"), (["mp4"], "video/mp4"),
      (["avi"], "video/x-msvideo"), (["mov"], "video/quicktime"), (["ogg"], "audio/ogg"),
      (["ogv"], "video/ogg"), (["oga"], "audio/ogg"), (["ico"], "image/x-icon")]
  let ext := (Path.extension path).bind Utf8.decode
  match table.find? fun row => row.1.any fun name => ext = some name.toList with
  | some row => row.2.toList
  | none => "application/octet-stream".toList

/-- `secure_path`: the canonical path of the requested file, if it exists and lies under the
canonical base directory. -/
def securePath (fs : FileSystem) (base : Path) (reqPath : Str) : Option Path := do
  let rel := (reqPath.splitOn '?').headD []
  let rel := rel.dropWhile (· = '/')
  let full := Path.join base (Utf8.encode rel)
  let full := if fs.isDir full then Path.join full (Utf8.encode "index.html".toList) else full
  let canon ← fs.canonicalize full
  let absBase ← fs.canonicalize base
  if Path.startsWith canon absBase then some canon else none

end Httpageboy
