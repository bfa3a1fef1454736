import Stns.Foundation.FileSystem
import Stns.Foundation.MachineInt
import Stns.Foundation.Percent
import Stns.Foundation.Stdio
import Stns.Document.Config

/-!
# Cache files

Every user has a cache directory with one file for each request path: a
non-empty file is a stored response, an empty one a stored "not found".
-/

namespace Stns

open MachineInt

/-- {lit}`geteuid()` as the format {lit}`%d` prints it. -/
def printUid (euid : Nat) : Bytes :=
  ascii (toString (UInt32.ofNat euid).toInt32.toInt)

/-- {lit}`dpath`: the directory name, cut to its buffer. -/
def cacheDirPath (c : StnsConf) (euid : Nat) : Bytes :=
  (Path.join c.cacheDir.chars (printUid euid)).take (maxbuf - 1)

/-- {lit}`curl_escape` of the library.  Unreserved bytes stay, every other byte
becomes a percent sign and two digits, so nothing is lost, shortened or turned
into a slash. -/
class CurlEscape where
  curlEscape : Bytes -> Bytes
  injective : forall {s t}, curlEscape s = curlEscape t -> s = t
  slash_not_mem : forall s, Path.slash ∉ curlEscape s
  length_le : forall s, s.length <= (curlEscape s).length

/-- That encoding, for runs on fixed paths. -/
instance : CurlEscape where
  curlEscape := Percent.escape
  injective := Percent.escape_injective
  slash_not_mem := Percent.slash_not_mem_escape
  length_le := Percent.length_le_escape

/-- {lit}`fpath`: the file name of a request path, cut to its buffer. -/
def cacheFilePath [CurlEscape] (dpath : Bytes) (path : CString) : Bytes :=
  let base := CurlEscape.curlEscape (path.chars.take maxBufferSize)
  (Path.join dpath base).take (maxbuf * 2 + 1)

/-- {lit}`S_IWGRP | S_IWOTH` -/
def othersWrite : UInt32 := 0o22

/-- The mode of a cache directory. -/
def dirMode : UInt32 := 0o700

/-- The mode of a cache file. -/
def fileMode : UInt32 := 0o744

/-- A real directory of the user that nobody else can write. -/
def Node.Safe (euid : Nat) (node : Node) : Prop :=
  match node with
  | .inode i =>
      i.isDirectory = true ∧ i.uid = euid ∧ i.mode &&& othersWrite = 0
  | .link _ => False

instance (euid : Nat) (node : Node) : Decidable (node.Safe euid) :=
  match node with
  | .inode _ => inferInstanceAs (Decidable (_ ∧ _ ∧ _))
  | .link _ => inferInstanceAs (Decidable False)

/-- {lit}`stns_cache_dir_is_safe` -/
def stnsCacheDirIsSafe (fs : FileSystem) (euid : Nat) (dir : Bytes) : Bool :=
  match fs.lstat dir with
  | some node => decide (node.Safe euid)
  | none => false

theorem stnsCacheDirIsSafe_eq {fs : FileSystem} {dir : Bytes} {node : Node}
    (euid : Nat) (hnode : fs.lstat dir = some node) :
    stnsCacheDirIsSafe fs euid dir = decide (node.Safe euid) := by
  unfold stnsCacheDirIsSafe
  rw [hnode]

/-!
## Writing and reading one file
-/

/-- {lit}`stns_export_file` up to the safety check: a directory that is not
there is made. -/
def prepareDir (fs : FileSystem) (euid now : Nat) (dir : Bytes) : FileSystem :=
  match fs.stat dir with
  | some _ => fs
  | none => fs.mkdir euid now dirMode dir

/-- {lit}`stns_export_file` from the open file on: only a file of the user is
emptied and written. -/
def rewriteFile (fs : FileSystem) (euid now : Nat) (file : Bytes)
    (data : CString) : FileSystem :=
  match fs.stat file with
  | none => fs
  | some statbuf =>
      if statbuf.uid ≠ euid then fs
      else
        ((fs.truncate now file).append now file data.chars).chmod fileMode file

/-- {lit}`stns_export_file` -/
def stnsExportFile (fs : FileSystem) (euid now : Nat) (dir file : Bytes)
    (data : CString) : FileSystem :=
  let fs := prepareDir fs euid now dir
  if stnsCacheDirIsSafe fs euid dir = false then fs
  else
    match fs.openWrite euid now fileMode file with
    | none => fs
    | some fs => rewriteFile fs euid now file data

/-- The room {lit}`stns_import_file` makes before it copies a piece. -/
def growAlways (room : Nat) (b : Block) : Block :=
  b.realloc room

/-- {lit}`stns_import_file`; NULL when the file cannot be opened.  A data
pointer that is NULL is a block without room, so allocating is growing. -/
def stnsImportFile (fs : FileSystem) (file : Bytes) (data : Block) :
    Option Block :=
  (fs.readFile file).map (fun content =>
    (Stdio.appendPieces growAlways (Stdio.fgets maxbuf content) (data, 0)).1)

/-!
## Freshness and eviction
-/

/-- The age of a time stamp, as {lit}`unsigned long`. -/
def ageOf (now mtime : Nat) : Nat :=
  sizeSub now mtime

/-- A file young enough to answer from. -/
def isFresh (c : StnsConf) (now : Nat) (statbuf : Inode) : Bool :=
  decide ((ageOf now statbuf.mtime < sizeOfInt c.cacheTtl ∧ statbuf.size > 0) ∨
    (ageOf now statbuf.mtime < sizeOfInt c.negativeCacheTtl ∧
      statbuf.size = 0))

def isExpired (c : StnsConf) (now : Nat) (statbuf : Inode) : Bool :=
  decide ((ageOf now statbuf.mtime > sizeOfInt c.cacheTtl ∧ statbuf.size > 0) ∨
    (ageOf now statbuf.mtime > sizeOfInt c.negativeCacheTtl ∧
      statbuf.size = 0))

/-- The loop of {lit}`delete_cache_files` over the directory entries. -/
def deleteExpired (c : StnsConf) (euid now : Nat) (dir : Bytes) :
    FileSystem -> List Bytes -> FileSystem
  | fs, [] => fs
  | fs, name :: rest =>
      let buf := Path.join dir name
      let fs :=
        match fs.stat buf with
        | none => fs
        | some statbuf =>
            if (statbuf.uid = euid ∨ euid = 0) ∧
                statbuf.isDirectory = false ∧ isExpired c now statbuf = true
            then fs.unlink now buf
            else fs
      deleteExpired c euid now dir fs rest

/-- {lit}`delete_cache_files` -/
def deleteCacheFiles (c : StnsConf) (euid now : Nat) (fs : FileSystem) :
    FileSystem :=
  let dir := cacheDirPath c euid
  match fs.stat dir with
  | none => fs
  | some statbuf =>
      if statbuf.isDirectory && statbuf.readable then
        deleteExpired c euid now dir fs (fs.list dir)
      else
        fs

end Stns
