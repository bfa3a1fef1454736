import Stns.Request.Request

/-!
# An unsafe cache directory

A request compares two runs: one with the cache turned on over a cache
directory that is there but not safe, one with the cache turned off.
-/

namespace Stns

/-- The configuration with the cache turned off. -/
def StnsConf.withoutCache (c : StnsConf) : StnsConf :=
  { c with cache := 0 }

/-- The name is there, as any kind of file, but does not lead to a safe
directory. -/
structure UnsafeName (fs : FileSystem) (euid : Nat) (dir : Bytes) : Prop where
  there : exists entry, fs.lstat (Path.dropSlashes dir) = some entry
  notSafe : forall node, fs.lstat dir = some node -> ¬ node.Safe euid

namespace UnsafeName

variable {fs : FileSystem} {euid : Nat} {dir : Bytes}

/-- A name without a slash behind it is there when {lit}`lstat` finds it. -/
theorem of_lstat {node : Node} (hnode : fs.lstat dir = some node)
    (hnot : ¬ node.Safe euid) : UnsafeName fs euid dir where
  there := FileSystem.lstat_dropSlashes hnode
  notSafe := by
    intro node' hnode'
    rw [hnode] at hnode'
    cases hnode'
    exact hnot

theorem stnsCacheDirIsSafe_eq_false (h : UnsafeName fs euid dir) :
    stnsCacheDirIsSafe fs euid dir = false := by
  unfold stnsCacheDirIsSafe
  split
  · rename_i node hnode
    exact decide_eq_false (h.notSafe node hnode)
  · rfl

/-- A name that is there is not made, whatever it leads to. -/
theorem prepareDir_eq (h : UnsafeName fs euid dir) (now : Nat) :
    prepareDir fs euid now dir = fs := by
  rcases h.there with ⟨entry, hentry⟩
  unfold prepareDir
  split
  · rfl
  · exact FileSystem.mkdir_of_entry hentry

theorem stnsExportFile_eq (h : UnsafeName fs euid dir) (now : Nat)
    (file : Bytes) (data : CString) :
    stnsExportFile fs euid now dir file data = fs := by
  unfold stnsExportFile
  rw [h.prepareDir_eq now]
  dsimp only
  rw [if_pos h.stnsCacheDirIsSafe_eq_false]

theorem cacheLookup_eq (h : UnsafeName fs euid dir) (c : StnsConf)
    (now : Nat) (file : Bytes) (data : Block) :
    cacheLookup c euid now fs dir file data = .miss fs := by
  unfold cacheLookup
  rw [if_neg]
  intro hused
  rcases hused with ⟨_, _, hsafe⟩
  rw [h.stnsCacheDirIsSafe_eq_false] at hsafe
  cases hsafe

end UnsafeName

theorem cacheLookup_withoutCache (c : StnsConf) (euid now : Nat)
    (fs : FileSystem) (dir file : Bytes) (data : Block) :
    cacheLookup c.withoutCache euid now fs dir file data = .miss fs := by
  unfold cacheLookup
  rw [if_neg]
  intro hused
  rcases hused with ⟨hcache, _, _⟩
  exact hcache rfl

section Runner

variable (run : CommandRunner)

/-- The retries and the query wrapper are those of the same configuration. -/
theorem contactBackendBy_withoutCache (c : StnsConf) (path : CString)
    (backend : Backend) (res : Response) :
    contactBackendBy run c.withoutCache path backend res =
      contactBackendBy run c path backend res := rfl

/-- A request without a cache leaves the file system alone, and answers the
same over every file system. -/
theorem requestBackendBy_withoutCache (c : StnsConf) (euid : Nat)
    (path : CString) (backend : Backend) (dpath fpath : Bytes)
    (res : Response) (w : World) (fs : FileSystem) :
    (requestBackendBy run c.withoutCache euid path backend dpath fpath res
        { w with fs := fs }).1 =
      (requestBackendBy run c.withoutCache euid path backend dpath fpath res
        w).1 ∧
    (requestBackendBy run c.withoutCache euid path backend dpath fpath res
      w).2.fs = w.fs := by
  unfold requestBackendBy
  dsimp only
  split
  · exact ⟨rfl, rfl⟩
  · refine ⟨rfl, ?_⟩
    dsimp only
    rw [if_neg]
    intro hon
    rcases hon with ⟨hcache, _⟩
    exact hcache rfl

theorem requestBackendBy_of_unsafeName {c : StnsConf} {euid : Nat}
    {path : CString} {backend : Backend} {dpath fpath : Bytes}
    {res : Response} {w : World} (hname : UnsafeName w.fs euid dpath) :
    requestBackendBy run c euid path backend dpath fpath res w =
      requestBackendBy run c.withoutCache euid path backend dpath fpath res
        w := by
  unfold requestBackendBy
  rw [contactBackendBy_withoutCache]
  have havailable : stnsRequestAvailable c.withoutCache w.now w.lock =
      stnsRequestAvailable c w.now w.lock := rfl
  rw [havailable]
  dsimp only
  split
  · rfl
  · have hoff : ¬ (c.withoutCache.cache ≠ 0 ∧
        c.withoutCache.cachedEnable = 0) := by
      intro hon
      rcases hon with ⟨hcache, _⟩
      exact hcache rfl
    rw [if_neg hoff]
    split
    · rw [hname.stnsExportFile_eq]
    · rfl

theorem stnsRequestBy_withoutCache [CurlEscape] (c : StnsConf) (euid : Nat)
    (path : CString) (data : Block) (backend : Backend) (w : World) :
    stnsRequestBy run c.withoutCache euid path data backend w =
      requestBackendBy run c.withoutCache euid path backend
        (cacheDirPath c euid) (cacheFilePath (cacheDirPath c euid) path)
        (Response.start data) w := by
  unfold stnsRequestBy
  dsimp only
  rw [cacheLookup_withoutCache]
  rfl

theorem stnsRequestBy_of_unsafeName [CurlEscape] {c : StnsConf} {euid : Nat}
    (path : CString) (data : Block) (backend : Backend) {w : World}
    (hname : UnsafeName w.fs euid (cacheDirPath c euid)) :
    stnsRequestBy run c euid path data backend w =
      stnsRequestBy run c.withoutCache euid path data backend w := by
  rw [stnsRequestBy_withoutCache]
  unfold stnsRequestBy
  dsimp only
  rw [hname.cacheLookup_eq]
  exact requestBackendBy_of_unsafeName run hname

end Runner

/-- A cache directory whose name is there without being safe is not used: the
request changes no file of the cache, reads no cache file, answers and contacts
the backend as it would with the cache turned off, and answers the same whatever
else the file system holds. -/
theorem unsafe_directory_unused [CurlEscape] (M : Machine) (c : StnsConf)
    (euid : Nat) (path : CString) (data : Block) (backend : Backend) (w : World)
    (hname : UnsafeName w.fs euid (cacheDirPath c euid)) :
    stnsRequestCounted M c euid path data backend w =
        stnsRequestCounted M c.withoutCache euid path data backend w ∧
      (stnsRequestCounted M c euid path data backend w).2.fs = w.fs ∧
      (stnsRequestCounted M c euid path data backend w).1.fromCache = false ∧
      forall fs : FileSystem, UnsafeName fs euid (cacheDirPath c euid) ->
        (stnsRequestCounted M c euid path data backend { w with fs := fs }).1 =
          (stnsRequestCounted M c euid path data backend w).1 := by
  unfold stnsRequestCounted
  have hsame := stnsRequestBy_of_unsafeName (stnsExecCmdCounted M) path data
    backend hname
  refine ⟨hsame, ?_, ?_, ?_⟩
  · rw [hsame, stnsRequestBy_withoutCache]
    exact (requestBackendBy_withoutCache _ _ _ _ _ _ _ _ w w.fs).right
  · rw [hsame, stnsRequestBy_withoutCache]
    unfold requestBackendBy
    dsimp only
    split <;> rfl
  · intro fs hname'
    have hother : UnsafeName { w with fs := fs }.fs euid
        (cacheDirPath c euid) := hname'
    rw [stnsRequestBy_of_unsafeName _ _ _ _ hother, hsame,
      stnsRequestBy_withoutCache, stnsRequestBy_withoutCache]
    exact (requestBackendBy_withoutCache _ _ _ _ _ _ _ _ w fs).left

/-!
## Two directories
-/

/-- A backend that times out on every attempt. -/
def timeoutBackend : Backend :=
  ⟨fun _ => ⟨[], 0, 28⟩, none, 0⟩

/-- The buffer of a caller, filled with zeros. -/
def zeroBlock : Block :=
  ⟨defaultBufferSize, fun _ => 0, true⟩

/-- The cache directory of user 1000 is a dangling symbolic link. -/
def danglingWorld : World :=
  ⟨0, ⟨AList.singleton (ascii "/var/cache/stns/1000") (.link none)⟩, none⟩

theorem unsafe_directory_unused_dangling :
    (stnsRequestCounted Machine.wrapping {} 1000 (literal "users") zeroBlock
        timeoutBackend danglingWorld).2.fs = danglingWorld.fs ∧
      (stnsRequestCounted Machine.wrapping {} 1000 (literal "users") zeroBlock
        timeoutBackend danglingWorld).1.fromCache = false := by
  have hnode : danglingWorld.fs.lstat (cacheDirPath {} 1000) =
      some (.link none) := by decide
  have hunused := unsafe_directory_unused Machine.wrapping {} 1000
    (literal "users") zeroBlock timeoutBackend danglingWorld
    (.of_lstat hnode (fun h => h))
  exact ⟨hunused.right.left, hunused.right.right.left⟩

/-- A cache directory name of 1023 bytes: with the user's component behind it,
it no longer fits the buffer. -/
def longCacheDir : CString :=
  CString.ofBytes ((List.replicate 4
    (Path.slash :: List.replicate 254 97)).flatten ++ [Path.slash, 97, 97])

/-- The name with the component is a dangling link; the cut name is a safe
directory with a fresh file in it. -/
def longWorld : World :=
  ⟨0, ⟨((AList.singleton (Path.join longCacheDir.chars (printUid 0))
        (.link none)).insert longCacheDir.chars
          (.inode ⟨.directory 4096, 0, dirMode, true, true, 0⟩)).insert
        (Path.join longCacheDir.chars (ascii "users"))
          (.inode ⟨.regular (ascii "[]"), 0, fileMode, true, true, 0⟩)⟩,
    none⟩

theorem cut_directory_name_is_used :
    longWorld.fs.lstat (Path.join longCacheDir.chars (printUid 0)) =
        some (.link none) ∧
      (stnsRequestCounted Machine.wrapping { cacheDir := longCacheDir } 0
        (literal "users") zeroBlock timeoutBackend longWorld).1.result =
          CurlCode.ok ∧
      (stnsRequestCounted Machine.wrapping
        (StnsConf.withoutCache { cacheDir := longCacheDir }) 0
        (literal "users") zeroBlock timeoutBackend longWorld).1.result =
          28 := by
  decide +kernel

end Stns
