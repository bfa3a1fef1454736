import Stns.Request.CacheFrame
import Stns.Request.Received

/-!
# Runs of requests

A run is a sequence of requests of one user over one cache directory.  Whatever
the backend does, every cache file of the directory holds the string that the
latest request for its path left in its buffer.
-/

namespace Stns

open Stns.Path

/-- One request: the time that passes before it, its path, the buffer of its
caller and what the backend would do. -/
structure RequestCall where
  advance : Nat
  path : CString
  data : Block
  backend : Backend
  capacity : data.capacity = defaultBufferSize
  nulFree : forall i chunk, chunk ∈ (backend.transfers i).chunks -> 0 ∉ chunk

namespace RequestCall

/-- What the backend comes to for this request. -/
def outcome (call : RequestCall) (c : StnsConf) : BackendOutcome :=
  call.backend.outcome c call.path call.data.cstring.chars

theorem coherent (call : RequestCall) (c : StnsConf) :
    (call.outcome c).received.Coherent :=
  call.backend.coherent_outcome c _ _

end RequestCall

/-- A request of the past. -/
structure RequestRecord where
  path : CString
  answer : Answer
  ended : Nat

/-- The world after some requests, and these requests, the latest first. -/
structure RequestRun where
  world : World
  history : List RequestRecord

def World.advance (w : World) (seconds : Nat) : World :=
  { w with now := w.now + seconds }

namespace RequestRun

def start (w : World) : RequestRun :=
  ⟨w, []⟩

variable [CurlEscape] (c : StnsConf) (euid : Nat)

def step (s : RequestRun) (call : RequestCall) : RequestRun :=
  let next := stnsRequest c euid call.path call.data call.backend
    (s.world.advance call.advance)
  ⟨next.2, ⟨call.path, next.1, next.2.now⟩ :: s.history⟩

def run (s : RequestRun) (calls : List RequestCall) : RequestRun :=
  calls.foldl (step c euid) s

end RequestRun

/-- The latest request for a path that contacted the backend. -/
def latestContact (path : CString) (history : List RequestRecord) :
    Option RequestRecord :=
  history.find? (fun e => e.path = path ∧ e.answer.contact ≠ .none)

theorem latestContact_cons (path : CString) (e : RequestRecord)
    (history : List RequestRecord) :
    latestContact path (e :: history) =
      if e.path = path ∧ e.answer.contact ≠ .none then some e
      else latestContact path history := by
  unfold latestContact
  rw [List.find?_cons]
  by_cases h : e.path = path ∧ e.answer.contact ≠ .none
  · rw [if_pos h, decide_eq_true h]
  · rw [if_neg h, decide_eq_false h]

theorem latestContact_skip (path : CString) {e : RequestRecord}
    (history : List RequestRecord) (h : e.answer.contact = .none) :
    latestContact path (e :: history) = latestContact path history := by
  rw [latestContact_cons, if_neg (fun he => he.right h)]

/-!
## What one request does
-/

/-- The cache is on, and its directory safe. -/
def CacheUsed (c : StnsConf) (euid : Nat) (fs : FileSystem) : Prop :=
  c.cache ≠ 0 ∧ c.cachedEnable = 0 ∧
    stnsCacheDirIsSafe fs euid (cacheDirPath c euid) = true

instance (c : StnsConf) (euid : Nat) (fs : FileSystem) :
    Decidable (CacheUsed c euid fs) :=
  inferInstanceAs (Decidable (_ ∧ _ ∧ _))

/-- The path leads to a fresh file of the user that the request can read. -/
def Hit [CurlEscape] (c : StnsConf) (euid : Nat) (w : World) (path : CString)
    (i : Inode) : Prop :=
  w.fs.stat (cacheFilePath (cacheDirPath c euid) path) = some i ∧
    i.uid = euid ∧ isFresh c w.now i = true ∧
      (i.size = 0 ∨ i.readable = true)

/-- The answer from a file: an empty one stands for a missing entry. -/
def answerFromFile (data : Block) (i : Inode) : Answer :=
  if i.size = 0 then
    ⟨CurlCode.httpReturnedError, ⟨data, 0, stnsHttpNotfound⟩, true, .none⟩
  else
    let data := (Stdio.appendPieces growAlways
      (Stdio.fgets maxbuf i.content) (data, 0)).1
    ⟨CurlCode.ok, ⟨data, data.cstring.strnlen maxBufferSize, 200⟩, true, .none⟩

/-- All that a request at a world can do. -/
inductive Stepped [CurlEscape] (c : StnsConf) (euid : Nat) (w : World)
    (history : List RequestRecord) (call : RequestCall) :
    RequestRun -> Prop where
  | fromFile {i : Inode} (hhit : Hit c euid w call.path i) :
      Stepped c euid w history call
        ⟨w, ⟨call.path, answerFromFile call.data i, w.now⟩ :: history⟩
  | backOff (hmiss : forall i, ¬ Hit c euid w call.path i)
      (havailable : (stnsRequestAvailable c w.now w.lock).1 = false)
      {fs : FileSystem} (hevicted : Evicted (cacheDirPath c euid) w.fs fs)
      (lock : Option Nat) :
      Stepped c euid w history call
        ⟨⟨w.now, fs, lock⟩,
          ⟨call.path, ⟨CurlCode.couldntConnect, Response.start call.data,
            false, .none⟩, w.now⟩ :: history⟩
  | contact (hmiss : forall i, ¬ Hit c euid w call.path i)
      (havailable : (stnsRequestAvailable c w.now w.lock).1 = true)
      {fs : FileSystem} (hevicted : Evicted (cacheDirPath c euid) w.fs fs)
      (lock : Option Nat) {res : Response} {how : Contact}
      (hhow : how ≠ .none) (hshows : res.Shows (call.outcome c).received)
      (hnotFound : (call.outcome c).notFound = true <->
        (call.outcome c).result = CurlCode.httpReturnedError ∧
          res.statusCode = stnsHttpNotfound) :
      Stepped c euid w history call
        ⟨⟨w.now + call.backend.elapsed,
            stnsExportFile fs euid (w.now + call.backend.elapsed)
              (cacheDirPath c euid)
              (cacheFilePath (cacheDirPath c euid) call.path)
              res.data.cstring, lock⟩,
          ⟨call.path, ⟨(call.outcome c).result, res, false, how⟩,
            w.now + call.backend.elapsed⟩ :: history⟩

section Step

variable [CurlEscape] {c : StnsConf} {euid : Nat}

theorem cacheLookup_of_hit {w : World} {path : CString} {i : Inode}
    (hused : CacheUsed c euid w.fs) (hhit : Hit c euid w path i)
    (data : Block) :
    cacheLookup c euid w.now w.fs (cacheDirPath c euid)
        (cacheFilePath (cacheDirPath c euid) path) data =
      if i.size = 0 then .notFound
      else
        .found (Stdio.appendPieces growAlways
          (Stdio.fgets maxbuf i.content) (data, 0)).1 := by
  rcases hhit with ⟨hstat, huid, hfresh, hread⟩
  unfold CacheUsed at hused
  unfold cacheLookup
  rw [if_pos hused, hstat]
  dsimp only
  rw [if_neg (not_not_intro huid), if_pos hfresh]
  by_cases hsize : i.size = 0
  · rw [if_pos hsize, if_pos hsize]
  · have hreadable := hread.resolve_left hsize
    rw [if_neg hsize, if_neg hsize]
    unfold stnsImportFile FileSystem.readFile
    rw [hstat]
    dsimp only
    rw [if_pos hreadable]
    rfl

/-- Without a hit the lookup goes on, after an eviction at most. -/
theorem cacheLookup_of_miss {w : World} {path : CString}
    (hmiss : CacheUsed c euid w.fs -> forall i, ¬ Hit c euid w path i)
    (data : Block) :
    exists fs,
      cacheLookup c euid w.now w.fs (cacheDirPath c euid)
          (cacheFilePath (cacheDirPath c euid) path) data = .miss fs ∧
        OnlyEvicts c euid w.now w.fs fs := by
  unfold cacheLookup
  split
  · rename_i hused
    cases hstat : w.fs.stat (cacheFilePath (cacheDirPath c euid) path) with
    | none => exact ⟨w.fs, rfl, OnlyEvicts.refl _ _ _ _⟩
    | some i =>
        dsimp only
        by_cases huid : i.uid = euid
        · rw [if_neg (not_not_intro huid)]
          cases hfresh : isFresh c w.now i with
          | false =>
              exact ⟨_, if_neg Bool.noConfusion,
                OnlyEvicts.of_deleteCacheFiles c euid w.now w.fs⟩
          | true =>
              have hread : ¬ (i.size = 0 ∨ i.readable = true) := by
                intro hread
                exact hmiss hused i ⟨hstat, huid, hfresh, hread⟩
              rw [not_or] at hread
              rw [if_pos rfl, if_neg hread.left]
              unfold stnsImportFile FileSystem.readFile
              rw [hstat]
              dsimp only
              rw [if_neg hread.right]
              exact ⟨w.fs, rfl, OnlyEvicts.refl _ _ _ _⟩
        · rw [if_pos huid]
          exact ⟨w.fs, rfl, OnlyEvicts.refl _ _ _ _⟩
  · exact ⟨w.fs, rfl, OnlyEvicts.refl _ _ _ _⟩

section Runner

variable (run : CommandRunner) {w : World} {path : CString}

theorem stnsRequestBy_of_hit {i : Inode} (hused : CacheUsed c euid w.fs)
    (hhit : Hit c euid w path i) (data : Block) (backend : Backend) :
    stnsRequestBy run c euid path data backend w =
      (answerFromFile data i, w) := by
  unfold stnsRequestBy answerFromFile
  dsimp only
  rw [cacheLookup_of_hit hused hhit]
  by_cases hsize : i.size = 0
  · rw [if_pos hsize, if_pos hsize]
    rfl
  · rw [if_neg hsize, if_neg hsize]
    rfl

variable (hmiss : CacheUsed c euid w.fs -> forall i, ¬ Hit c euid w path i)

include hmiss

/-- A request that finds none goes on, after an eviction at most. -/
theorem stnsRequestBy_of_miss (data : Block) (backend : Backend) :
    exists fs, OnlyEvicts c euid w.now w.fs fs ∧
      stnsRequestBy run c euid path data backend w =
        requestBackendBy run c euid path backend (cacheDirPath c euid)
          (cacheFilePath (cacheDirPath c euid) path) (Response.start data)
          { w with fs := fs } := by
  rcases cacheLookup_of_miss hmiss data with ⟨fs, hlookup, hevicts⟩
  refine ⟨fs, hevicts, ?_⟩
  unfold stnsRequestBy
  dsimp only
  rw [hlookup]

/-- Without a fresh file, a request is refused while the lock is in force. -/
theorem answerBy_of_refused
    (hheld : (stnsRequestAvailable c w.now w.lock).1 = false)
    (data : Block) (backend : Backend) :
    (stnsRequestBy run c euid path data backend w).1 =
      ⟨CurlCode.couldntConnect, Response.start data, false, .none⟩ := by
  rcases stnsRequestBy_of_miss run hmiss data backend with ⟨fs, _, hrequest⟩
  rw [hrequest]
  unfold requestBackendBy
  dsimp only
  rw [hheld, if_pos rfl]

/-- Without a fresh file and without a lock in force, the answer is the
backend's. -/
theorem answerBy_of_contact
    (hfree : (stnsRequestAvailable c w.now w.lock).1 = true)
    (data : Block) (backend : Backend) :
    (stnsRequestBy run c euid path data backend w).1 =
      let contacted := contactBackendBy run c path backend
        (Response.start data)
      ⟨contacted.1, contacted.2.1, false, contacted.2.2⟩ := by
  rcases stnsRequestBy_of_miss run hmiss data backend with ⟨fs, _, hrequest⟩
  rw [hrequest]
  unfold requestBackendBy
  dsimp only
  rw [hfree, if_neg Bool.noConfusion]

end Runner

theorem stnsRequest_of_hit {w : World} {path : CString} {i : Inode}
    (hused : CacheUsed c euid w.fs) (hhit : Hit c euid w path i)
    (data : Block) (backend : Backend) :
    stnsRequest c euid path data backend w = (answerFromFile data i, w) :=
  stnsRequestBy_of_hit stnsExecCmd hused hhit data backend

theorem stnsRequest_of_miss {w : World} {path : CString}
    (hmiss : CacheUsed c euid w.fs -> forall i, ¬ Hit c euid w path i)
    (data : Block) (backend : Backend) :
    exists fs, OnlyEvicts c euid w.now w.fs fs ∧
      stnsRequest c euid path data backend w =
        requestBackend c euid path backend (cacheDirPath c euid)
          (cacheFilePath (cacheDirPath c euid) path) (Response.start data)
          { w with fs := fs } :=
  stnsRequestBy_of_miss stnsExecCmd hmiss data backend

theorem answer_of_contact {w : World} {path : CString}
    (hmiss : CacheUsed c euid w.fs -> forall i, ¬ Hit c euid w path i)
    (hfree : (stnsRequestAvailable c w.now w.lock).1 = true)
    (data : Block) (backend : Backend) :
    (stnsRequest c euid path data backend w).1 =
      let contacted := contactBackend c path backend (Response.start data)
      ⟨contacted.1, contacted.2.1, false, contacted.2.2⟩ :=
  answerBy_of_contact stnsExecCmd hmiss hfree data backend

theorem stepped (hcache : c.cache ≠ 0) (hcached : c.cachedEnable = 0)
    (s : RequestRun) (call : RequestCall) {node : Node}
    (hnode : s.world.fs.lstat (cacheDirPath c euid) = some node)
    (hsafe : node.Safe euid) :
    Stepped c euid (s.world.advance call.advance) s.history call
      (s.step c euid call) := by
  have hused : CacheUsed c euid (s.world.advance call.advance).fs :=
    ⟨hcache, hcached,
      (stnsCacheDirIsSafe_eq euid hnode).trans (decide_eq_true hsafe)⟩
  unfold RequestRun.step
  generalize s.world.advance call.advance = w at hused ⊢
  dsimp only
  by_cases hhit : exists i, Hit c euid w call.path i
  · rcases hhit with ⟨i, hhit⟩
    rw [stnsRequest_of_hit hused hhit]
    exact .fromFile hhit
  · have hmiss := not_exists.mp hhit
    rcases stnsRequest_of_miss (fun _ => hmiss) call.data call.backend with
      ⟨fs, honly, hrequest⟩
    have hevicted := honly.evicted
    rw [hrequest]
    unfold requestBackend requestBackendBy
    cases havailable : (stnsRequestAvailable c w.now w.lock).1 with
    | false =>
        dsimp only
        rw [havailable, if_pos rfl]
        exact .backOff hmiss havailable hevicted _
    | true =>
        have hroom : defaultBufferSize <= call.data.capacity :=
          Nat.le_of_eq call.capacity.symm
        rcases contactBackend_outcome c call.path hroom call.nulFree with
          ⟨res, how, hhow, hrun, hshows, hnotFound⟩
        dsimp only
        rw [havailable, if_neg Bool.noConfusion, ← contactBackend, hrun]
        dsimp only
        rw [if_pos ⟨hcache, hcached⟩]
        exact .contact hmiss havailable hevicted _ hhow hshows hnotFound

theorem Stepped.now_le {w : World} {history : List RequestRecord}
    {call : RequestCall} {s : RequestRun}
    (h : Stepped c euid w history call s) : w.now <= s.world.now := by
  cases h with
  | fromFile hhit => exact Nat.le_refl _
  | backOff hmiss havailable hevicted lock => exact Nat.le_refl _
  | contact hmiss havailable hevicted lock hhow hshows hnotFound =>
      exact Nat.le_add_right _ _

end Step

/-!
## Cache files and their requests
-/

/-- A cache file of the user, written by the latest contact for the path. -/
structure FileOf (c : StnsConf) (euid : Nat) (s : RequestRun) (path : CString)
    (i : Inode) (source : RequestRecord) : Prop where
  type : i.type = .regular source.answer.res.data.cstring.chars
  uid : i.uid = euid
  readable : i.readable = true
  writable : i.writable = true
  latest : latestContact path s.history = some source
  mtime : i.mtime = source.ended
  past : source.ended <= s.world.now

/-- The directory is safe, and what is in it comes from the run. -/
structure CacheTracked [CurlEscape] (c : StnsConf) (euid : Nat)
    (s : RequestRun) : Prop where
  safe : exists node, s.world.fs.lstat (cacheDirPath c euid) = some node ∧
    node.Safe euid
  files : forall path, HasFile path ->
    s.world.fs.nodes.lookup (cacheKey (cacheDirPath c euid) path) = none ∨
      exists i source,
        s.world.fs.nodes.lookup (cacheKey (cacheDirPath c euid) path) =
            some (.inode i) ∧
          FileOf c euid s path i source

/-- A safe directory with nothing in it. -/
structure EmptyCache (c : StnsConf) (euid : Nat) (fs : FileSystem) : Prop where
  safe : exists node, fs.lstat (cacheDirPath c euid) = some node ∧
    node.Safe euid
  empty : forall name, slash ∉ name -> Proper name ->
    fs.lstat (join (cacheDirPath c euid) name) = none

section Tracked

variable {c : StnsConf} {euid : Nat} {s : RequestRun}

/-- A file stays a file of its path while time passes and requests for other
paths are made. -/
theorem FileOf.later {s' : RequestRun} {path : CString} {i : Inode}
    {source : RequestRecord} (h : FileOf c euid s path i source)
    (hnow : s.world.now <= s'.world.now)
    (hlatest : latestContact path s'.history = latestContact path s.history) :
    FileOf c euid s' path i source :=
  { h with
    latest := hlatest.trans h.latest
    past := Nat.le_trans h.past hnow }

variable [CurlEscape]

theorem EmptyCache.tracked {w : World} (h : EmptyCache c euid w.fs) :
    CacheTracked c euid (RequestRun.start w) := by
  refine ⟨h.safe, ?_⟩
  intro path hpath
  left
  have hnone := h.empty (cacheName path) (slash_not_mem_cacheName path) hpath
  rwa [← lstat_cacheKey _ _ hpath]

/-- Files that disappear do no harm. -/
theorem CacheTracked.evict {s' : RequestRun} (h : CacheTracked c euid s)
    (hnow : s.world.now <= s'.world.now)
    (hevicted : Evicted (cacheDirPath c euid) s.world.fs s'.world.fs)
    (hlatest : forall path,
      latestContact path s'.history = latestContact path s.history) :
    CacheTracked c euid s' := by
  rcases h.safe with ⟨node, hnode, hsafe⟩
  refine ⟨hevicted.directory.safe hnode hsafe, ?_⟩
  intro path hpath
  have hkey := cacheKey_ne_resolve path
    (Nat.le_refl (cacheDirPath c euid).length)
  rcases hevicted.others _ hkey with hsame | hgone
  · rw [hsame]
    rcases h.files path hpath with hnone | ⟨i, source, hi, hfile⟩
    · exact .inl hnone
    · exact .inr ⟨i, source, hi, hfile.later hnow (hlatest path)⟩
  · exact .inl hgone

theorem CacheTracked.wait (h : CacheTracked c euid s) (seconds : Nat) :
    CacheTracked c euid ⟨s.world.advance seconds, s.history⟩ :=
  h.evict (Nat.le_add_right _ _) (Evicted.refl _ _) (fun _ => rfl)

theorem CacheTracked.rewritable (h : CacheTracked c euid s)
    {path : CString} (hpath : HasFile path) :
    Rewritable euid s.world.fs (cacheKey (cacheDirPath c euid) path) := by
  unfold Rewritable
  rw [lstat_cacheKey _ _ hpath]
  rcases h.files path hpath with hnone | ⟨i, source, hi, hfile⟩
  · exact .inl hnone
  · right
    refine ⟨i, hi, ?_, hfile.writable, hfile.uid⟩
    unfold Inode.isRegular
    rw [hfile.type]

theorem proper_baseName_cacheKey (dpath : Bytes) {path : CString}
    (hpath : HasFile path) : Proper (baseName (cacheKey dpath path)) := by
  unfold cacheKey
  rw [baseName_join (slash_not_mem_cacheName path)]
  exact hpath

theorem CacheTracked.export_own (h : CacheTracked c euid s)
    {path : CString} (hpath : HasFile path) (now : Nat) (data : CString) :
    (s.world.fs.openWrite euid now fileMode
        (cacheKey (cacheDirPath c euid) path) = none ∧
      (stnsExportFile s.world.fs euid now (cacheDirPath c euid)
        (cacheFilePath (cacheDirPath c euid) path) data).nodes.lookup
          (cacheKey (cacheDirPath c euid) path) = none) ∨
    (s.world.fs.openWrite euid now fileMode
        (cacheKey (cacheDirPath c euid) path) ≠ none ∧
      (stnsExportFile s.world.fs euid now (cacheDirPath c euid)
        (cacheFilePath (cacheDirPath c euid) path) data).nodes.lookup
          (cacheKey (cacheDirPath c euid) path) =
        some (.inode
          ⟨.regular data.chars, euid, fileMode, true, true, now⟩)) := by
  rcases h.safe with ⟨node, hnode, hsafe⟩
  rw [cacheFilePath_of_hasFile (cacheDirPath_length c euid) hpath]
  by_cases hopen : s.world.fs.openWrite euid now fileMode
      (cacheKey (cacheDirPath c euid) path) = none
  · left
    refine ⟨hopen, ?_⟩
    rw [stnsExportFile_of_safe data hnode hsafe, hopen]
    dsimp only
    rw [← lstat_cacheKey _ _ hpath]
    exact ((openWrite_none_iff (h.rewritable hpath)
      (proper_baseName_cacheKey _ hpath)).mp hopen).left
  · right
    have hown := stnsExportFile_own data hnode hsafe (h.rewritable hpath)
      hopen
    rw [lstat_cacheKey _ _ hpath] at hown
    exact ⟨hopen, hown⟩

theorem CacheTracked.export_other (h : CacheTracked c euid s)
    {path path' : CString} (hpath : HasFile path') (hne : path' ≠ path)
    (now : Nat) (data : CString) :
    (stnsExportFile s.world.fs euid now (cacheDirPath c euid)
        (cacheFilePath (cacheDirPath c euid) path) data).nodes.lookup
          (cacheKey (cacheDirPath c euid) path') =
      s.world.fs.nodes.lookup (cacheKey (cacheDirPath c euid) path') := by
  rcases h.safe with ⟨node, hnode, hsafe⟩
  have hdpath := cacheDirPath_length c euid
  have hother := cacheKey_ne_cacheFilePath hdpath hpath hne
  have hkey := cacheKey_ne_resolve path'
    (Nat.le_refl (cacheDirPath c euid).length)
  rcases cacheFilePath_eq hdpath path with ⟨name, hfile, hslash, _⟩
  rw [hfile] at hother ⊢
  exact stnsExportFile_lookup_ne data hslash hnode hsafe hother hkey

/-- A contact stores what its response buffer holds. -/
theorem CacheTracked.export (h : CacheTracked c euid s) {e : RequestRecord}
    (hcontact : e.answer.contact ≠ .none) (hnow : s.world.now <= e.ended)
    (lock : Option Nat) :
    CacheTracked c euid
      ⟨⟨e.ended, stnsExportFile s.world.fs euid e.ended (cacheDirPath c euid)
          (cacheFilePath (cacheDirPath c euid) e.path)
          e.answer.res.data.cstring, lock⟩,
        e :: s.history⟩ := by
  constructor
  · rcases h.safe with ⟨node, hnode, hsafe⟩
    rcases cacheFilePath_eq (cacheDirPath_length c euid) e.path with
      ⟨name, hfile, hslash, _⟩
    have hkeeps := stnsExportFile_keepsDirectory e.ended
      e.answer.res.data.cstring hslash hnode hsafe
    rw [← hfile] at hkeeps
    exact hkeeps.safe hnode hsafe
  · intro path hpath
    dsimp only
    by_cases hsame : path = e.path
    · rw [hsame] at hpath ⊢
      rcases h.export_own hpath e.ended e.answer.res.data.cstring with
        ⟨_, hnone⟩ | ⟨_, hown⟩
      · exact .inl hnone
      · right
        refine ⟨_, e, hown, rfl, rfl, rfl, rfl, ?_, rfl, Nat.le_refl _⟩
        rw [latestContact_cons, if_pos ⟨rfl, hcontact⟩]
    · rw [h.export_other hpath hsame]
      rcases h.files path hpath with hnone | ⟨i, source, hi, hfile⟩
      · exact .inl hnone
      · right
        refine ⟨i, source, hi, hfile.later hnow ?_⟩
        rw [latestContact_cons, if_neg (fun he => hsame he.left.symm)]

/-- What a request leaves is tracked, whatever it does. -/
theorem Stepped.tracked {w : World} {history : List RequestRecord}
    {call : RequestCall} (hstep : Stepped c euid w history call s)
    (h : CacheTracked c euid ⟨w, history⟩) : CacheTracked c euid s := by
  cases hstep with
  | fromFile hhit =>
      refine h.evict (Nat.le_refl _) (Evicted.refl _ _) ?_
      intro path
      apply latestContact_skip
      unfold answerFromFile
      split <;> rfl
  | backOff hmiss havailable hevicted lock =>
      refine h.evict (Nat.le_refl _) hevicted ?_
      intro path
      exact latestContact_skip path history rfl
  | @contact _ _ fs hevicted lock res how hhow _ _ =>
      have hmid : CacheTracked c euid ⟨{ w with fs := fs }, history⟩ :=
        h.evict (Nat.le_refl _) hevicted (fun _ => rfl)
      exact hmid.export (e := ⟨call.path, ⟨_, res, false, how⟩, _⟩) hhow
        (Nat.le_add_right _ _) lock

theorem cacheTracked_step (hcache : c.cache ≠ 0)
    (hcached : c.cachedEnable = 0) (h : CacheTracked c euid s)
    (call : RequestCall) : CacheTracked c euid (s.step c euid call) := by
  rcases h.safe with ⟨node, hnode, hsafe⟩
  exact (stepped hcache hcached s call hnode hsafe).tracked
    (h.wait call.advance)

theorem cacheTracked_run (hcache : c.cache ≠ 0)
    (hcached : c.cachedEnable = 0) (h : CacheTracked c euid s)
    (calls : List RequestCall) :
    CacheTracked c euid (s.run c euid calls) := by
  induction calls generalizing s with
  | nil => exact h
  | cons call rest ih => exact ih (cacheTracked_step hcache hcached h call)

theorem step_now_le (hcache : c.cache ≠ 0) (hcached : c.cachedEnable = 0)
    (h : CacheTracked c euid s) (call : RequestCall) :
    (s.world.advance call.advance).now <=
      (s.step c euid call).world.now := by
  rcases h.safe with ⟨node, hnode, hsafe⟩
  exact (stepped hcache hcached s call hnode hsafe).now_le

theorem run_now_le (hcache : c.cache ≠ 0) (hcached : c.cachedEnable = 0)
    (h : CacheTracked c euid s) (calls : List RequestCall) :
    s.world.now <= (s.run c euid calls).world.now := by
  induction calls generalizing s with
  | nil => exact Nat.le_refl _
  | cons call rest ih =>
      have hwait : s.world.now <= (s.world.advance call.advance).now :=
        Nat.le_add_right _ _
      exact (hwait.trans (step_now_le hcache hcached h call)).trans
        (ih (cacheTracked_step hcache hcached h call))

end Tracked

end Stns
