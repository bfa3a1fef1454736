import Stns.Request.CacheSoundness

/-!
# Storing a response and reading it back

A response that is written to a cache file and read again comes back as it
was.  The reader meets it in pieces and resizes its buffer to each of them; the
buffer may start with room or as NULL.
-/

namespace Stns

open MachineInt Stns.Path

/-- Exporting gets as far as printing the data: the directory, once made, is
safe, and the file can be opened and belongs to the user. -/
def Exports (fs : FileSystem) (euid now : Nat) (dir file : Bytes) : Prop :=
  stnsCacheDirIsSafe (prepareDir fs euid now dir) euid dir = true ∧
    exists fs' i,
      (prepareDir fs euid now dir).openWrite euid now fileMode file =
          some fs' ∧
        fs'.stat file = some i ∧ i.uid = euid

/-!
## Writing
-/

section Writing

variable {fs : FileSystem} {euid now : Nat} {dir file : Bytes}

theorem node_of_safe (h : stnsCacheDirIsSafe fs euid dir = true) :
    exists node, fs.lstat dir = some node ∧ node.Safe euid := by
  unfold stnsCacheDirIsSafe at h
  cases hnode : fs.lstat dir with
  | none =>
      rw [hnode] at h
      cases h
  | some node =>
      rw [hnode] at h
      exact ⟨node, rfl, of_decide_eq_true h⟩

/-- A safe directory is there, so there is nothing to prepare any more. -/
theorem prepareDir_of_safe (h : stnsCacheDirIsSafe fs euid dir = true) :
    prepareDir fs euid now dir = fs := by
  rcases node_of_safe h with ⟨node, hnode, hsafe⟩
  cases node with
  | link target => exact absurd hsafe (fun h => h)
  | inode i =>
      unfold prepareDir
      rw [FileSystem.stat_of_lstat hnode]

theorem stnsExportFile_prepared (data : CString)
    (h : stnsCacheDirIsSafe (prepareDir fs euid now dir) euid dir = true) :
    stnsExportFile fs euid now dir file data =
      stnsExportFile (prepareDir fs euid now dir) euid now dir file data := by
  unfold stnsExportFile
  rw [prepareDir_of_safe h]

/-- What is open for writing is a regular file and no link, so the path shows
its inode. -/
theorem lstat_of_openWrite {fs' : FileSystem} {i : Inode}
    (hopen : fs.openWrite euid now fileMode file = some fs')
    (hi : fs'.stat file = some i) :
    fs'.lstat file = some (.inode i) ∧ i.isRegular = true := by
  rcases FileSystem.openWrite_cases hopen with
    ⟨i', hi', hregular, _, rfl⟩ | ⟨_, hcreate⟩
  · rw [FileSystem.stat_of_lstat hi'] at hi
    cases hi
    exact ⟨hi', hregular⟩
  · have hi' := FileSystem.lstat_create hcreate
    rw [FileSystem.stat_of_lstat hi'] at hi
    cases hi
    exact ⟨hi', rfl⟩

/-- The file then has the data and nothing of what it had before. -/
theorem stnsExportFile_lstat (data : CString)
    (h : Exports fs euid now dir file) :
    (stnsExportFile fs euid now dir file data).lstat file =
      some (.inode
        ⟨.regular data.chars, euid, fileMode, true, true, now⟩) := by
  rcases h with ⟨hsafe, fs', i, hopen, hi, huid⟩
  rcases node_of_safe hsafe with ⟨node, hnode, hnodeSafe⟩
  rw [stnsExportFile_prepared data hsafe,
    stnsExportFile_of_safe data hnode hnodeSafe, hopen]
  rcases lstat_of_openWrite hopen hi with ⟨hfile, hregular⟩
  exact rewriteFile_lstat data hfile hregular huid

theorem stnsExportFile_safe [CurlEscape] {dpath : Bytes}
    (hdpath : dpath.length < maxbuf) (path : CString) (data : CString)
    (h : stnsCacheDirIsSafe (prepareDir fs euid now dpath) euid dpath =
      true) :
    stnsCacheDirIsSafe
      (stnsExportFile fs euid now dpath (cacheFilePath dpath path) data) euid
        dpath = true := by
  rcases node_of_safe h with ⟨node, hnode, hsafe⟩
  rcases cacheFilePath_eq hdpath path with ⟨name, hname, hslash, _⟩
  rw [stnsExportFile_prepared data h, hname]
  rcases (stnsExportFile_keepsDirectory now data hslash hnode hsafe).safe
    hnode hsafe with ⟨node', hnode', hsafe'⟩
  rw [stnsCacheDirIsSafe_eq euid hnode']
  exact decide_eq_true hsafe'

end Writing

/-!
## Reading
-/

/-- Reading a text in pieces leaves the text in the buffer. -/
theorem import_holdsString {content : CString}
    (hcontent : content.chars ≠ []) {data : Block}
    (hbounds : data.inBounds = true) :
    (Stdio.appendPieces growAlways (Stdio.fgets maxbuf content.chars)
      (data, 0)).1.HoldsString content.chars := by
  have hpieces : Stdio.fgets maxbuf content.chars ≠ [] :=
    fun h => hcontent (Stdio.fgets_eq_nil_iff.mp h)
  have htext := Stdio.text_fgets maxbuf content.nulFree
  have hload := Stdio.appendPieces_load grows_growAlways
    (Stdio.fgets maxbuf content.chars) data 0
  have hend := Stdio.appendPieces_terminated grows_growAlways hpieces 0
    (Nat.zero_le data.capacity)
  rw [htext, Nat.zero_add] at hload hend
  rw [Block.load_zero, List.nil_append] at hload
  exact ⟨Stdio.appendPieces_inBounds grows_growAlways _ 0
    (Nat.zero_le data.capacity) hbounds, hload, content.nulFree, hend.right,
    hend.left⟩

/-- A file that a non-empty response was written to, and that is still fresh,
answers with the whole response. -/
theorem answer_of_exported [CurlEscape] {c : StnsConf} {euid : Nat} {w : World}
    {path : CString} {d : CString} {mtime : Nat} {data imported : Block}
    (hused : CacheUsed c euid w.fs)
    (hfile : w.fs.lstat (cacheFilePath (cacheDirPath c euid) path) =
      some (.inode ⟨.regular d.chars, euid, fileMode, true, true, mtime⟩))
    (hne : d.chars ≠ []) (hshort : d.length < maxBufferSize)
    (hfresh : ageOf w.now mtime < sizeOfInt c.cacheTtl)
    (himported : imported = (Stdio.appendPieces growAlways
      (Stdio.fgets maxbuf d.chars) (data, 0)).1)
    (hholds : imported.HoldsString d.chars) (backend : Backend) :
    (stnsRequest c euid path data backend w).1 =
      ⟨CurlCode.ok, ⟨imported, d.length, 200⟩, true, .none⟩ := by
  have hsize : d.chars.length ≠ 0 :=
    fun h => hne (List.length_eq_zero_iff.mp h)
  have hhit : Hit c euid w path
      ⟨.regular d.chars, euid, fileMode, true, true, mtime⟩ := by
    refine ⟨FileSystem.stat_of_lstat hfile, rfl, ?_, .inr rfl⟩
    exact decide_eq_true (.inl ⟨hfresh, Nat.pos_of_ne_zero hsize⟩)
  have hanswer : answerFromFile data
      ⟨.regular d.chars, euid, fileMode, true, true, mtime⟩ =
      ⟨CurlCode.ok, ⟨imported, imported.cstring.strnlen maxBufferSize, 200⟩,
        true, .none⟩ := by
    rw [himported]
    exact if_neg hsize
  have hlength : imported.cstring.length = d.length := by
    unfold CString.length
    rw [hholds.cstring]
  rw [stnsRequest_of_hit hused hhit, hanswer]
  unfold CString.strnlen
  rw [hlength, Nat.min_eq_left (Nat.le_of_lt hshort)]

/-- What is exported is imported again, into any buffer, and a request that the
file still answers reports its length. -/
theorem import_undoes_export [CurlEscape] {fs : FileSystem} {euid now : Nat}
    {dir file : Bytes} {d : CString} (hne : d.chars ≠ [])
    (hshort : d.length < maxBufferSize)
    (hexports : Exports fs euid now dir file) {data : Block}
    (hbounds : data.inBounds = true) :
    exists imported,
      stnsImportFile (stnsExportFile fs euid now dir file d) file data =
          some imported ∧
        imported.HoldsString d.chars ∧
        forall (c : StnsConf) (path : CString) (w : World)
          (backend : Backend),
          dir = cacheDirPath c euid -> file = cacheFilePath dir path ->
          w.fs = stnsExportFile fs euid now dir file d ->
          c.cache ≠ 0 -> c.cachedEnable = 0 ->
          ageOf w.now now < sizeOfInt c.cacheTtl ->
            (stnsRequest c euid path data backend w).1 =
              ⟨CurlCode.ok, ⟨imported, d.length, 200⟩, true, .none⟩ := by
  have hfile := stnsExportFile_lstat d hexports
  have hholds := import_holdsString hne hbounds
  refine ⟨_, ?_, hholds, ?_⟩
  · unfold stnsImportFile FileSystem.readFile
    rw [FileSystem.stat_of_lstat hfile]
    rfl
  · intro c path w backend hdir hpath hfs hcache hcached hfresh
    have hsafe : stnsCacheDirIsSafe (stnsExportFile fs euid now dir file d)
        euid dir = true := by
      rw [hpath]
      exact stnsExportFile_safe (hdir ▸ cacheDirPath_length c euid) path d
        hexports.left
    rw [← hfs] at hfile hsafe
    rw [hpath] at hfile
    rw [hdir] at hfile hsafe
    exact answer_of_exported ⟨hcache, hcached, hsafe⟩ hfile hne hshort hfresh
      rfl hholds backend

/-- A response of two lines over a longer one, read into a NULL pointer. -/
theorem import_undoes_export_shorter :
    let file := cacheFilePath (cacheDirPath {} 1000) (literal "users")
    let fs : FileSystem :=
      (freshWorld.fs.put file (.inode
        ⟨.regular (ascii "[1, 2, 3, 4]"), 1000, fileMode, true, true, 0⟩))
    exists imported,
      stnsImportFile (stnsExportFile fs 1000 5 (cacheDirPath {} 1000) file
          (literal "[1,\n2]")) file ⟨0, fun _ => 255, true⟩ =
          some imported ∧
        imported.HoldsString (literal "[1,\n2]").chars ∧
        forall (c : StnsConf) (path : CString) (w : World)
          (backend : Backend),
          cacheDirPath {} 1000 = cacheDirPath c 1000 ->
          file = cacheFilePath (cacheDirPath {} 1000) path ->
          w.fs = stnsExportFile fs 1000 5 (cacheDirPath {} 1000) file
            (literal "[1,\n2]") ->
          c.cache ≠ 0 -> c.cachedEnable = 0 ->
          ageOf w.now 5 < sizeOfInt c.cacheTtl ->
            (stnsRequest c 1000 path ⟨0, fun _ => 255, true⟩ backend w).1 =
              ⟨CurlCode.ok, ⟨imported, (literal "[1,\n2]").length, 200⟩, true,
                .none⟩ := by
  dsimp only
  refine import_undoes_export (by decide) (by decide) ?_ rfl
  refine ⟨by decide +kernel, _, _, rfl, rfl, rfl⟩

end Stns
