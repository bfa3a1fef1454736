import Stns.Request.Request

/-!
# What a request leaves alone

Every operation on one cache file keeps the directory, up to its time stamp, and
the other files; eviction only takes files away.
-/

namespace Stns

open Stns.Path

/-!
## Names of cache files
-/

theorem cacheDirPath_length (c : StnsConf) (euid : Nat) :
    (cacheDirPath c euid).length < maxbuf := by
  have hle : (cacheDirPath c euid).length <= maxbuf - 1 := by
    unfold cacheDirPath
    rw [List.length_take]
    exact Nat.min_le_left _ _
  unfold maxbuf at hle ⊢
  omega

section Names

variable [CurlEscape]

/-- The file name component of a request path. -/
def cacheName (path : CString) : Bytes :=
  CurlEscape.curlEscape (path.chars.take maxBufferSize)

theorem slash_not_mem_cacheName (path : CString) :
    slash ∉ cacheName path :=
  CurlEscape.slash_not_mem _

theorem cacheName_injective {path path' : CString}
    (hproper : Proper (cacheName path))
    (h : cacheName path = cacheName path') : path = path' := by
  have hshort : forall p : CString, (cacheName p).length <= nameMax ->
      p.chars.take maxBufferSize = p.chars := by
    intro p hp
    have hle := CurlEscape.length_le (p.chars.take maxBufferSize)
    apply List.take_of_length_le
    unfold cacheName at hp
    rw [List.length_take] at hle
    unfold nameMax at hp
    unfold maxBufferSize at hp hle ⊢
    omega
  have hlength := hproper.right.right.right
  have hlength' := hlength
  rw [h] at hlength'
  have hescape := CurlEscape.injective h
  rw [hshort path hlength, hshort path' hlength'] at hescape
  exact CString.ext hescape

/-- The file of a path is in the directory; only a name that is too long for
the kernel is ever cut. -/
theorem cacheFilePath_eq {dpath : Bytes} (hdpath : dpath.length < maxbuf)
    (path : CString) :
    exists name, cacheFilePath dpath path = join dpath name ∧
      slash ∉ name ∧
      (name = cacheName path ∨
        (nameMax < name.length ∧ nameMax < (cacheName path).length)) := by
  refine ⟨(cacheName path).take (maxbuf * 2 - dpath.length), ?_, ?_, ?_⟩
  · unfold cacheFilePath join
    have hcut : maxbuf * 2 + 1 = dpath.length +
        ((maxbuf * 2 - dpath.length) + 1) := by omega
    rw [hcut, List.take_length_add_append, List.take_succ_cons]
    rfl
  · intro hmem
    exact slash_not_mem_cacheName path (List.mem_of_mem_take hmem)
  · by_cases hlong : (cacheName path).length <= maxbuf * 2 - dpath.length
    · left
      exact List.take_of_length_le hlong
    · right
      rw [List.length_take]
      unfold nameMax
      unfold maxbuf at hdpath hlong ⊢
      omega

/-- The path has a cache file of its own. -/
def HasFile (path : CString) : Prop :=
  Proper (cacheName path)

instance (path : CString) : Decidable (HasFile path) :=
  inferInstanceAs (Decidable (Proper _))

/-- The key of the cache file of a path. -/
def cacheKey (dpath : Bytes) (path : CString) : Bytes :=
  join dpath (cacheName path)

theorem cacheFilePath_of_hasFile {dpath : Bytes} {path : CString}
    (hdpath : dpath.length < maxbuf) (h : HasFile path) :
    cacheFilePath dpath path = cacheKey dpath path := by
  rcases cacheFilePath_eq hdpath path with
    ⟨name, hpath, _, rfl | ⟨_, hlong⟩⟩
  · exact hpath
  · have hshort := h.right.right.right
    omega

theorem lstat_cacheKey (fs : FileSystem) (dpath : Bytes) {path : CString}
    (h : HasFile path) :
    fs.lstat (cacheKey dpath path) =
      fs.nodes.lookup (cacheKey dpath path) :=
  FileSystem.lstat_join (slash_not_mem_cacheName path) h

theorem cacheKey_ne_resolve {dpath : Bytes} (path : CString) {key : Bytes}
    (hkey : key.length <= dpath.length) :
    cacheKey dpath path ≠ resolve key := by
  intro heq
  have hlength := congrArg List.length heq
  have hle := resolve_length_le key
  unfold cacheKey join at hlength
  rw [List.length_append, List.length_cons] at hlength
  omega

theorem cacheKey_ne_cacheFilePath {dpath : Bytes} {path path' : CString}
    (hdpath : dpath.length < maxbuf) (h : HasFile path') (hne : path' ≠ path) :
    cacheKey dpath path' ≠ resolve (cacheFilePath dpath path) := by
  rcases cacheFilePath_eq hdpath path with ⟨name, hpath, hslash, hname⟩
  rw [hpath]
  intro heq
  rcases resolve_join_cases dpath hslash with hjoin | hback
  · rw [hjoin] at heq
    have hsame := join_injective heq
    rcases hname with hname | ⟨hlong, _⟩
    · rw [hname] at hsame
      exact hne (cacheName_injective h hsame)
    · have hshort := h.right.right.right
      rw [hsame] at hshort
      omega
  · have hlength := congrArg List.length heq
    unfold cacheKey join at hlength
    rw [List.length_append, List.length_cons] at hlength
    unfold join at hback
    omega

end Names

/-!
## The directory
-/

/-- A directory keeps everything but its time stamp. -/
def KeepsDirectory (dir : Bytes) (fs fs' : FileSystem) : Prop :=
  forall i, fs.lstat dir = some (.inode i) -> i.isDirectory = true ->
    exists mtime, fs'.lstat dir = some (.inode { i with mtime := mtime })

namespace KeepsDirectory

variable {dir : Bytes} {fs fs' fs'' : FileSystem}

theorem refl (dir : Bytes) (fs : FileSystem) : KeepsDirectory dir fs fs :=
  fun i hi _ => ⟨i.mtime, hi⟩

theorem trans (h : KeepsDirectory dir fs fs')
    (h' : KeepsDirectory dir fs' fs'') : KeepsDirectory dir fs fs'' := by
  intro i hi hdir
  rcases h i hi hdir with ⟨mtime, hi'⟩
  rcases h' _ hi' hdir with ⟨mtime', hi''⟩
  exact ⟨mtime', hi''⟩

/-- Adding or removing another name only touches the directory. -/
theorem of_touch (now : Nat)
    (h : fs'.nodes.lookup (resolve dir) = fs.nodes.lookup (resolve dir)) :
    KeepsDirectory dir fs (fs'.touch now dir) := by
  intro i hi hdir
  rw [← FileSystem.lstat_congr h] at hi
  exact ⟨now, FileSystem.lstat_touch now hi hdir⟩

theorem of_lookup
    (h : fs'.nodes.lookup (resolve dir) = fs.nodes.lookup (resolve dir)) :
    KeepsDirectory dir fs fs' := by
  intro i hi _
  rw [← FileSystem.lstat_congr h] at hi
  exact ⟨i.mtime, hi⟩

theorem safe {euid : Nat} {node : Node} (h : KeepsDirectory dir fs fs')
    (hnode : fs.lstat dir = some node) (hsafe : node.Safe euid) :
    exists node', fs'.lstat dir = some node' ∧ node'.Safe euid := by
  cases node with
  | link target => exact absurd hsafe (fun h => h)
  | inode i =>
      rcases h i hnode hsafe.left with ⟨mtime, hi⟩
      exact ⟨_, hi, hsafe⟩

/-- Whether names can be added does not change either. -/
theorem mayChange_cacheKey [CurlEscape] {euid : Nat}
    (h : KeepsDirectory dir fs fs')
    (hdir : exists node, fs.lstat dir = some node ∧ node.Safe euid)
    (path : CString) :
    fs'.mayChange (cacheKey dir path) = fs.mayChange (cacheKey dir path) := by
  rcases hdir with ⟨node, hnode, hsafe⟩
  cases node with
  | link target => exact absurd hsafe (fun h => h)
  | inode i =>
      rcases h i hnode hsafe.left with ⟨mtime, hi⟩
      unfold FileSystem.mayChange cacheKey
      rw [dirName_join (slash_not_mem_cacheName path),
        FileSystem.stat_of_lstat hnode, FileSystem.stat_of_lstat hi]
      rfl

end KeepsDirectory

/-!
## Eviction
-/

/-- Files only disappear. -/
structure Evicted (dir : Bytes) (fs fs' : FileSystem) : Prop where
  directory : KeepsDirectory dir fs fs'
  others : forall key, key ≠ resolve dir ->
    fs'.nodes.lookup key = fs.nodes.lookup key ∨
      fs'.nodes.lookup key = none

namespace Evicted

variable {dir : Bytes} {fs fs' fs'' : FileSystem}

theorem refl (dir : Bytes) (fs : FileSystem) : Evicted dir fs fs :=
  ⟨KeepsDirectory.refl dir fs, fun _ _ => .inl rfl⟩

theorem trans (h : Evicted dir fs fs') (h' : Evicted dir fs' fs'') :
    Evicted dir fs fs'' := by
  refine ⟨h.directory.trans h'.directory, ?_⟩
  intro key hkey
  rcases h'.others key hkey with hsame | hgone
  · rw [hsame]
    exact h.others key hkey
  · exact .inr hgone

theorem of_remove {name : Bytes} (now : Nat) (hslash : slash ∉ name)
    (hproper : Proper name) :
    Evicted dir fs
      ((fs.remove (join dir name)).touch now (dirName (join dir name))) := by
  rw [dirName_join hslash]
  have hbase : Proper (baseName (join dir name)) := by
    rwa [baseName_join hslash]
  have hne := (resolve_ne_resolve_dirName hbase).symm
  rw [dirName_join hslash] at hne
  constructor
  · exact KeepsDirectory.of_touch now (FileSystem.remove_lookup_ne hne)
  · intro key hkey
    rw [FileSystem.touch_lookup_ne hkey]
    by_cases hremoved : key = resolve (join dir name)
    · right
      rw [hremoved, FileSystem.remove_lookup_self]
    · left
      exact FileSystem.remove_lookup_ne hremoved

theorem of_unlink {name : Bytes} (now : Nat) (hslash : slash ∉ name)
    (hproper : Proper name) :
    Evicted dir fs (fs.unlink now (join dir name)) := by
  unfold FileSystem.unlink
  split
  · split
    · exact of_remove now hslash hproper
    · exact refl dir fs
  · split
    · exact of_remove now hslash hproper
    · exact refl dir fs
  · exact refl dir fs

end Evicted

/-- A name of the directory that leads to an expired file. -/
def ExpiredFile (c : StnsConf) (euid now : Nat) (fs : FileSystem)
    (key : Bytes) : Prop :=
  exists name i, slash ∉ name ∧ Proper name ∧
    key = join (cacheDirPath c euid) name ∧ fs.stat key = some i ∧
      i.isDirectory = false ∧ isExpired c now i = true

/-- Only expired files disappear. -/
structure OnlyEvicts (c : StnsConf) (euid now : Nat) (fs fs' : FileSystem) :
    Prop where
  evicted : Evicted (cacheDirPath c euid) fs fs'
  expired : forall key, key ≠ resolve (cacheDirPath c euid) ->
    fs'.nodes.lookup key ≠ fs.nodes.lookup key ->
      ExpiredFile c euid now fs key

namespace OnlyEvicts

variable {c : StnsConf} {euid now : Nat} {fs fs' fs'' : FileSystem}

theorem refl (c : StnsConf) (euid now : Nat) (fs : FileSystem) :
    OnlyEvicts c euid now fs fs :=
  ⟨Evicted.refl _ fs, fun _ _ hchanged => absurd rfl hchanged⟩

theorem trans (h : OnlyEvicts c euid now fs fs')
    (h' : OnlyEvicts c euid now fs' fs'') : OnlyEvicts c euid now fs fs'' := by
  refine ⟨h.evicted.trans h'.evicted, ?_⟩
  intro key hkey hchanged
  by_cases hsame : fs'.nodes.lookup key = fs.nodes.lookup key
  · rcases h'.expired key hkey (hsame ▸ hchanged) with
      ⟨name, i, hslash, hproper, hjoin, hstat, hexpired⟩
    have hresolve : resolve key = key := by
      rw [hjoin]
      exact resolve_join hslash hproper
    refine ⟨name, i, hslash, hproper, hjoin, ?_, hexpired⟩
    unfold FileSystem.stat FileSystem.lstat at hstat ⊢
    rw [hresolve] at hstat ⊢
    rwa [hsame] at hstat
  · exact h.expired key hkey hsame

theorem of_unlink {name : Bytes} {i : Inode} (hslash : slash ∉ name)
    (hproper : Proper name)
    (hstat : fs.stat (join (cacheDirPath c euid) name) = some i)
    (hfile : i.isDirectory = false) (hexpired : isExpired c now i = true) :
    OnlyEvicts c euid now fs
      (fs.unlink now (join (cacheDirPath c euid) name)) := by
  refine ⟨Evicted.of_unlink now hslash hproper, ?_⟩
  intro key hkey hchanged
  by_cases hself : key = join (cacheDirPath c euid) name
  · rw [hself]
    exact ⟨name, i, hslash, hproper, rfl, hstat, hfile, hexpired⟩
  · exfalso
    apply hchanged
    apply FileSystem.unlink_lookup_ne
    · rwa [resolve_join hslash hproper]
    · rwa [dirName_join hslash]

theorem of_deleteExpired {names : List Bytes}
    (hnames : forall name, name ∈ names -> slash ∉ name ∧ Proper name) :
    OnlyEvicts c euid now fs
      (deleteExpired c euid now (cacheDirPath c euid) fs names) := by
  induction names generalizing fs with
  | nil => exact refl c euid now fs
  | cons name rest ih =>
      rcases hnames name List.mem_cons_self with ⟨hslash, hproper⟩
      have hrest : forall name, name ∈ rest -> slash ∉ name ∧ Proper name :=
        fun name hmem => hnames name (List.mem_cons_of_mem _ hmem)
      unfold deleteExpired
      refine trans ?_ (ih hrest)
      split
      · exact refl c euid now fs
      · rename_i i hstat
        split
        · rename_i hold
          rcases hold with ⟨_, hfile, hexpired⟩
          exact of_unlink hslash hproper hstat hfile hexpired
        · exact refl c euid now fs

theorem of_deleteCacheFiles (c : StnsConf) (euid now : Nat)
    (fs : FileSystem) :
    OnlyEvicts c euid now fs (deleteCacheFiles c euid now fs) := by
  unfold deleteCacheFiles
  dsimp only
  split
  · exact refl c euid now fs
  · split
    · apply of_deleteExpired
      intro name hmem
      exact FileSystem.proper_of_mem_list hmem
    · exact refl c euid now fs

end OnlyEvicts

/-!
## Export
-/

section Export

variable {fs fs' : FileSystem} {euid now : Nat} {dir file key : Bytes}

theorem rewriteFile_lookup_ne (data : CString) (hkey : key ≠ resolve file) :
    (rewriteFile fs euid now file data).nodes.lookup key =
      fs.nodes.lookup key := by
  unfold rewriteFile
  split
  · rfl
  · split
    · rfl
    · unfold FileSystem.chmod FileSystem.append FileSystem.truncate
      rw [FileSystem.update_lookup_ne hkey, FileSystem.update_lookup_ne hkey,
        FileSystem.update_lookup_ne hkey]

theorem rewriteFile_lstat {i : Inode} (data : CString)
    (hi : fs.lstat file = some (.inode i)) (hregular : i.isRegular = true)
    (huid : i.uid = euid) :
    (rewriteFile fs euid now file data).lstat file =
      some (.inode
        ⟨.regular data.chars, euid, fileMode, true, true, now⟩) := by
  unfold rewriteFile
  have htruncated := FileSystem.lstat_truncate now hi
    (Inode.isDirectory_of_isRegular hregular)
  have hwritten := FileSystem.lstat_append now data.chars htruncated rfl
  rw [FileSystem.stat_of_lstat hi]
  dsimp only
  rw [if_neg (not_not_intro huid),
    FileSystem.lstat_chmod fileMode hwritten rfl, huid]
  rfl

theorem openWrite_lookup_ne (hopen : fs.openWrite euid now fileMode file =
      some fs') (hkey : key ≠ resolve file)
    (hdir : key ≠ resolve (dirName file)) :
    fs'.nodes.lookup key = fs.nodes.lookup key := by
  rcases FileSystem.openWrite_cases hopen with
    ⟨i, _, _, _, rfl⟩ | ⟨_, hcreate⟩
  · rfl
  · unfold FileSystem.create at hcreate
    split at hcreate
    · cases hcreate
      rw [FileSystem.touch_lookup_ne hdir, FileSystem.put_lookup_ne hkey]
    · cases hcreate

/-- With a safe directory, exporting is opening and rewriting the file. -/
theorem stnsExportFile_of_safe {node : Node} (data : CString)
    (hnode : fs.lstat dir = some node) (hsafe : node.Safe euid) :
    stnsExportFile fs euid now dir file data =
      match fs.openWrite euid now fileMode file with
      | none => fs
      | some fs => rewriteFile fs euid now file data := by
  cases node with
  | link target => exact absurd hsafe (fun h => h)
  | inode i =>
      have hprepared : prepareDir fs euid now dir = fs := by
        unfold prepareDir
        rw [FileSystem.stat_of_lstat hnode]
      have hchecked : stnsCacheDirIsSafe fs euid dir = true :=
        (stnsCacheDirIsSafe_eq euid hnode).trans (decide_eq_true hsafe)
      unfold stnsExportFile
      rw [hprepared]
      dsimp only
      rw [hchecked]
      exact if_neg Bool.noConfusion

variable {name : Bytes} {node : Node}

theorem stnsExportFile_lookup_ne (data : CString) (hslash : slash ∉ name)
    (hnode : fs.lstat dir = some node) (hsafe : node.Safe euid)
    (hkey : key ≠ resolve (join dir name)) (hdir : key ≠ resolve dir) :
    (stnsExportFile fs euid now dir (join dir name) data).nodes.lookup key =
      fs.nodes.lookup key := by
  rw [stnsExportFile_of_safe data hnode hsafe]
  split
  · rfl
  · rename_i fs' hopen
    rw [rewriteFile_lookup_ne data hkey]
    refine openWrite_lookup_ne hopen hkey ?_
    rwa [dirName_join hslash]

theorem stnsExportFile_keepsDirectory (now : Nat) (data : CString)
    (hslash : slash ∉ name) (hnode : fs.lstat dir = some node)
    (hsafe : node.Safe euid) :
    KeepsDirectory dir fs
      (stnsExportFile fs euid now dir (join dir name) data) := by
  rw [stnsExportFile_of_safe data hnode hsafe]
  split
  · exact KeepsDirectory.refl dir fs
  · rename_i fs' hopen
    rcases FileSystem.openWrite_cases hopen with
      ⟨i, hi, hregular, _, rfl⟩ | ⟨_, hcreate⟩
    · -- the directory itself is not a regular file
      have hne : resolve dir ≠ resolve (join dir name) := by
        cases node with
        | link target => exact absurd hsafe (fun h => h)
        | inode j =>
            exact FileSystem.resolve_ne_of_directory hnode hsafe.left hi
              (Inode.isDirectory_of_isRegular hregular)
      exact KeepsDirectory.of_lookup (rewriteFile_lookup_ne data hne)
    · unfold FileSystem.create at hcreate
      split at hcreate
      · rename_i hallowed
        cases hcreate
        have hne := resolve_ne_resolve_dirName hallowed.left
        rw [dirName_join hslash] at hne ⊢
        have hcreated : KeepsDirectory dir fs
            ((fs.put (join dir name) (.inode
              ⟨.regular [], euid, fileMode, true, true, now⟩)).touch now
                dir) :=
          KeepsDirectory.of_touch now (FileSystem.put_lookup_ne hne.symm)
        exact hcreated.trans
          (KeepsDirectory.of_lookup (rewriteFile_lookup_ne data hne.symm))
      · cases hcreate

/-- A file that is not there, or that the user can rewrite. -/
def Rewritable (euid : Nat) (fs : FileSystem) (file : Bytes) : Prop :=
  fs.lstat file = none ∨ exists i, fs.lstat file = some (.inode i) ∧
    i.isRegular = true ∧ i.writable = true ∧ i.uid = euid

/-- Only a file that is not there and cannot be made cannot be opened. -/
theorem openWrite_none_iff (hown : Rewritable euid fs file)
    (hproper : Proper (baseName file)) :
    fs.openWrite euid now fileMode file = none <->
      fs.lstat file = none ∧ fs.mayChange file = false := by
  unfold FileSystem.openWrite FileSystem.create
  rcases hown with hnone | ⟨i, hi, hregular, hwritable, _⟩
  · rw [hnone]
    cases fs.mayChange file with
    | false => simp
    | true => simp [hproper]
  · rw [hi]
    simp [hregular, hwritable]

/-- The user's own file ends up with the data, if it can be opened. -/
theorem stnsExportFile_own (data : CString) (hnode : fs.lstat dir = some node)
    (hsafe : node.Safe euid) (hown : Rewritable euid fs file)
    (hopen : fs.openWrite euid now fileMode file ≠ none) :
    (stnsExportFile fs euid now dir file data).lstat file =
      some (.inode
        ⟨.regular data.chars, euid, fileMode, true, true, now⟩) := by
  rw [stnsExportFile_of_safe data hnode hsafe]
  split
  · rename_i hnone
    exact absurd hnone hopen
  · rename_i fs' hsome
    rcases FileSystem.openWrite_cases hsome with
      ⟨i, hi, _, _, rfl⟩ | ⟨_, hcreate⟩
    · rcases hown with hnone | ⟨i', hi', hregular, _, huid⟩
      · rw [hi] at hnone
        cases hnone
      · exact rewriteFile_lstat data hi' hregular huid
    · exact rewriteFile_lstat data (FileSystem.lstat_create hcreate) rfl rfl

end Export

end Stns
