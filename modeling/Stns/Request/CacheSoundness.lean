import Stns.Request.CacheRun
import Stns.Request.UnsafeDirectory

/-!
# Answers from the cache

An answer from a cache file should be the answer of the latest request for the
same path that contacted the backend.  It is, as long as every request leaves in
its cache file only what may be answered from there.
-/

namespace Stns

open Stns.Path MachineInt

/-- An answer from the cache is the answer of the latest contact, less than the
time to live before. -/
structure SoundAnswer (c : StnsConf) (earlier : List RequestRecord)
    (e : RequestRecord) : Prop where
  positive : e.answer.fromCache = true -> e.answer.result = CurlCode.ok ->
    exists source, latestContact e.path earlier = some source ∧
      source.answer.result = CurlCode.ok ∧
      source.answer.res.body = e.answer.res.body ∧
      (e.ended : Int) - source.ended < c.cacheTtl.toInt
  negative : e.answer.fromCache = true ->
    e.answer.res.statusCode = stnsHttpNotfound ->
      exists source, latestContact e.path earlier = some source ∧
        source.answer.result = CurlCode.httpReturnedError ∧
        source.answer.res.statusCode = stnsHttpNotfound ∧
        (e.ended : Int) - source.ended < c.negativeCacheTtl.toInt

def SoundHistory (c : StnsConf) : List RequestRecord -> Prop
  | [] => True
  | e :: earlier => SoundAnswer c earlier e ∧ SoundHistory c earlier

theorem soundAnswer_of_fresh {c : StnsConf} {earlier : List RequestRecord}
    {e : RequestRecord} (h : e.answer.fromCache = false) :
    SoundAnswer c earlier e := by
  constructor
  · intro hcached
    rw [h] at hcached
    cases hcached
  · intro hcached
    rw [h] at hcached
    cases hcached

/-!
## When a request spares the cache
-/

/-- What the outcome leaves in the buffer may stand in a cache file: an empty
string for a missing entry, the whole body for one that is there. -/
def BackendOutcome.Storable (c : StnsConf) (o : BackendOutcome) : Prop :=
  if o.received.text = [] then
    c.negativeCacheTtl = 0 ∨ o.notFound = true
  else
    c.cacheTtl = 0 ∨ (o.result = CurlCode.ok ∧ o.received.body ≠ [] ∧
      o.received.body.length <= maxBufferSize)

instance (c : StnsConf) (o : BackendOutcome) : Decidable (o.Storable c) :=
  inferInstanceAs (Decidable (ite _ _ _))

/-- The request answers from a file only if its path has one, and leaves in
that file, if it can open it, only what may stand there. -/
structure Spares [CurlEscape] (c : StnsConf) (euid : Nat) (w : World)
    (call : RequestCall) : Prop where
  answers : (exists i, Hit c euid w call.path i) -> HasFile call.path
  stores : (forall i, ¬ Hit c euid w call.path i) ->
    (stnsRequestAvailable c w.now w.lock).1 = true -> HasFile call.path ->
      w.fs.openWrite euid w.now fileMode
          (cacheFilePath (cacheDirPath c euid) call.path) ≠ none ->
        (call.outcome c).Storable c

def AllSpare [CurlEscape] (c : StnsConf) (euid : Nat) :
    RequestRun -> List RequestCall -> Prop
  | _, [] => True
  | s, call :: rest =>
      Spares c euid (s.world.advance call.advance) call ∧
        AllSpare c euid (s.step c euid call) rest

/-- The string that a request left may stand in its cache file. -/
def Stored (c : StnsConf) (source : RequestRecord) : Prop :=
  if source.answer.res.data.cstring.chars = [] then
    c.negativeCacheTtl = 0 ∨
      (source.answer.result = CurlCode.httpReturnedError ∧
        source.answer.res.statusCode = stnsHttpNotfound)
  else
    c.cacheTtl = 0 ∨ (source.answer.result = CurlCode.ok ∧
      source.answer.res.body = source.answer.res.data.cstring.chars ∧
      source.answer.res.data.cstring.chars.length <= maxBufferSize)

theorem stored_iff_storable {c : StnsConf} {call : RequestCall}
    {res : Response} (hshows : res.Shows (call.outcome c).received)
    (hnotFound : (call.outcome c).notFound = true <->
      (call.outcome c).result = CurlCode.httpReturnedError ∧
        res.statusCode = stnsHttpNotfound)
    (how : Contact) (ended : Nat) :
    Stored c ⟨call.path, ⟨(call.outcome c).result, res, false, how⟩, ended⟩ <->
      (call.outcome c).Storable c := by
  have hcoherent := call.coherent c
  unfold Stored BackendOutcome.Storable
  dsimp only
  rw [hshows.text, hshows.body, hnotFound]
  by_cases htext : (call.outcome c).received.text = []
  · rw [if_pos htext, if_pos htext]
  · rw [if_neg htext, if_neg htext]
    rcases hcoherent with hnone | hsame
    · simp [hnone, Ne.symm htext]
    · rw [hsame]
      simp [htext]

/-!
## What a file answers
-/

section File

variable {c : StnsConf} {euid : Nat} {s : RequestRun}

theorem grows_growAlways : Stdio.Grows growAlways 0 where
  load _ _ _ := rfl
  inBounds _ _ := rfl
  room room _ _ := Nat.le_refl room
  least _ _ _ := Nat.zero_le _

/-- Importing a file of text gives the text, up to the largest size that is
measured, as the body. -/
theorem import_body (data : Block) {content : CString}
    (hcontent : content.chars ≠ []) :
    let block := (Stdio.appendPieces growAlways
      (Stdio.fgets maxbuf content.chars) (data, 0)).1
    (Response.mk block (block.cstring.strnlen maxBufferSize) 200).body =
      content.chars.take maxBufferSize := by
  have hpieces : Stdio.fgets maxbuf content.chars ≠ [] :=
    fun h => hcontent (Stdio.fgets_eq_nil_iff.mp h)
  have htext := Stdio.text_fgets maxbuf content.nulFree
  have hcstring := Stdio.appendPieces_cstring grows_growAlways hpieces
    (Nat.zero_le data.capacity)
  have hload := Stdio.appendPieces_load grows_growAlways
    (Stdio.fgets maxbuf content.chars) data 0
  rw [htext, Block.load_zero, List.nil_append, Nat.zero_add] at hload
  rw [htext] at hcstring
  unfold Response.body CString.strnlen CString.length
  dsimp only
  rw [hcstring, Block.load_min, hload]

/-- A time stamp of the past that is younger than a time to live. -/
theorem ageOf_lt_iff {now mtime : Nat} {ttl : Int32} (hclock : now < 2 ^ 63)
    (hpast : mtime <= now) (httl : 0 <= ttl.toInt) :
    ageOf now mtime < sizeOfInt ttl <-> (now : Int) - mtime < ttl.toInt := by
  have hsize := sizeOfInt_of_nonneg httl
  unfold ageOf
  rw [sizeSub_of_le hpast (by omega)]
  omega

theorem httpReturnedError_ne_ok :
    CurlCode.httpReturnedError ≠ CurlCode.ok := by decide

theorem couldntConnect_ne_ok :
    CurlCode.couldntConnect ≠ CurlCode.ok := by decide

theorem served_ne_notFound : (200 : Int) ≠ stnsHttpNotfound := by decide

theorem ttl_pos {ttl : Int32} (httl : 0 <= ttl.toInt) (hne : ttl ≠ 0) :
    0 < ttl.toInt := by
  have hnot : ttl.toInt ≠ 0 := fun h => hne (Int32.toInt_inj.mp h)
  omega

variable {path : CString} {i : Inode} {source : RequestRecord}

theorem FileOf.content (h : FileOf c euid s path i source) :
    i.content = source.answer.res.data.cstring.chars := by
  unfold Inode.content
  rw [h.type]

theorem FileOf.size (h : FileOf c euid s path i source) :
    i.size = source.answer.res.data.cstring.chars.length := by
  unfold Inode.size
  rw [h.type]

theorem FileOf.isFresh_iff (h : FileOf c euid s path i source)
    (hclock : s.world.now < 2 ^ 63) (httl : 0 <= c.cacheTtl.toInt)
    (hnegative : 0 <= c.negativeCacheTtl.toInt) :
    isFresh c s.world.now i = true <->
      if source.answer.res.data.cstring.chars = [] then
        (s.world.now : Int) - source.ended < c.negativeCacheTtl.toInt
      else (s.world.now : Int) - source.ended < c.cacheTtl.toInt := by
  unfold isFresh
  rw [decide_eq_true_eq, h.mtime, h.size, ageOf_lt_iff hclock h.past httl,
    ageOf_lt_iff hclock h.past hnegative]
  by_cases hnil : source.answer.res.data.cstring.chars = []
  · rw [if_pos hnil, hnil]
    simp
  · have hpositive := List.length_pos_iff.mpr hnil
    rw [if_neg hnil]
    omega

/-- A fresh file answers soundly if its source left what may be stored. -/
theorem FileOf.soundAnswer (h : FileOf c euid s path i source)
    (hclock : s.world.now < 2 ^ 63) (httl : 0 <= c.cacheTtl.toInt)
    (hnegative : 0 <= c.negativeCacheTtl.toInt)
    (hfresh : isFresh c s.world.now i = true) (hstored : Stored c source)
    (data : Block) :
    SoundAnswer c s.history
      ⟨path, answerFromFile data i, s.world.now⟩ := by
  have hyoung := (h.isFresh_iff hclock httl hnegative).mp hfresh
  have hage : 0 <= (s.world.now : Int) - source.ended := by
    have hpast := h.past
    omega
  unfold answerFromFile
  rw [h.size, h.content]
  unfold Stored at hstored
  by_cases hnil : source.answer.res.data.cstring.chars = []
  · rw [if_pos hnil] at hyoung hstored
    rw [if_pos (List.length_eq_zero_iff.mpr hnil)]
    constructor
    · intro _ hok
      exact absurd hok httpReturnedError_ne_ok
    · intro _ _
      rcases hstored with hdead | ⟨hresult, hstatus⟩
      · rw [hdead] at hyoung
        exact absurd hyoung (Int.not_lt.mpr hage)
      · exact ⟨source, h.latest, hresult, hstatus, hyoung⟩
  · rw [if_neg hnil] at hyoung hstored
    rw [if_neg (fun hzero => hnil (List.length_eq_zero_iff.mp hzero))]
    constructor
    · intro _ _
      rcases hstored with hdead | ⟨hok, hbody, hlength⟩
      · rw [hdead] at hyoung
        exact absurd hyoung (Int.not_lt.mpr hage)
      · refine ⟨source, h.latest, hok, ?_, hyoung⟩
        have himport := import_body data hnil
        rw [List.take_of_length_le hlength] at himport
        rw [hbody]
        exact himport.symm
    · intro _ hstatus
      exact absurd hstatus served_ne_notFound

/-- A fresh file does not answer soundly otherwise. -/
theorem FileOf.stored (h : FileOf c euid s path i source)
    (hcoherent : source.answer.res.body = [] ∨
      source.answer.res.body = source.answer.res.data.cstring.chars)
    {data : Block} {now : Nat}
    (hsound : SoundAnswer c s.history ⟨path, answerFromFile data i, now⟩) :
    Stored c source := by
  unfold answerFromFile at hsound
  rw [h.size, h.content] at hsound
  unfold Stored
  by_cases hnil : source.answer.res.data.cstring.chars = []
  · rw [if_pos (List.length_eq_zero_iff.mpr hnil)] at hsound
    rw [if_pos hnil]
    right
    rcases hsound.negative rfl rfl with
      ⟨source', hlatest, hresult, hstatus, _⟩
    have hsource : source = source' :=
      Option.some.inj (h.latest.symm.trans hlatest)
    rw [hsource]
    exact ⟨hresult, hstatus⟩
  · rw [if_neg (fun hzero => hnil (List.length_eq_zero_iff.mp hzero))]
      at hsound
    rw [if_neg hnil]
    right
    rcases hsound.positive rfl rfl with ⟨source', hlatest, hok, hbody, _⟩
    have hsource : source = source' :=
      Option.some.inj (h.latest.symm.trans hlatest)
    rw [← hsource] at hok hbody
    have himport := hbody.trans (import_body data hnil)
    have hpositive : 0 < maxBufferSize := by decide
    rcases hcoherent with hnone | hsame
    · rw [hnone] at himport
      have hempty := congrArg List.length himport
      have hlength := List.length_pos_iff.mpr hnil
      rw [List.length_nil, List.length_take] at hempty
      omega
    · refine ⟨hok, hsame, ?_⟩
      rw [hsame] at himport
      have hcut := congrArg List.length himport
      rw [List.length_take] at hcut
      omega

/-- What may not be stored is fresh at least for a moment. -/
theorem FileOf.isFresh_of_not_stored (h : FileOf c euid s path i source)
    (hclock : s.world.now < 2 ^ 63) (httl : 0 <= c.cacheTtl.toInt)
    (hnegative : 0 <= c.negativeCacheTtl.toInt)
    (hnow : source.ended = s.world.now) (hnot : ¬ Stored c source) :
    isFresh c s.world.now i = true := by
  rw [h.isFresh_iff hclock httl hnegative, hnow, Int.sub_self]
  unfold Stored at hnot
  by_cases hnil : source.answer.res.data.cstring.chars = []
  · rw [if_pos hnil] at hnot ⊢
    exact ttl_pos hnegative (fun hdead => hnot (.inl hdead))
  · rw [if_neg hnil] at hnot ⊢
    exact ttl_pos httl (fun hdead => hnot (.inl hdead))

end File

/-!
## The invariant
-/

structure CacheInvariant [CurlEscape] (c : StnsConf) (euid : Nat)
    (s : RequestRun) : Prop where
  tracked : CacheTracked c euid s
  stored : forall path, HasFile path -> forall i source,
    s.world.fs.nodes.lookup (cacheKey (cacheDirPath c euid) path) =
        some (.inode i) ->
      latestContact path s.history = some source -> Stored c source
  sound : SoundHistory c s.history

section Invariant

variable [CurlEscape] {c : StnsConf} {euid : Nat} {s : RequestRun}

theorem cacheInvariant_start {w : World} (h : EmptyCache c euid w.fs) :
    CacheInvariant c euid (RequestRun.start w) := by
  refine ⟨h.tracked, ?_, trivial⟩
  intro path hpath i source hi
  have hnone := h.empty (cacheName path) (slash_not_mem_cacheName path) hpath
  rw [← lstat_cacheKey _ _ hpath, cacheKey] at hi
  change w.fs.lstat _ = _ at hi
  rw [hnone] at hi
  cases hi

/-- What an eviction leaves was there before. -/
theorem Evicted.lookup_of_lookup {dpath : Bytes} {fs fs' : FileSystem}
    (h : Evicted dpath fs fs') (path : CString) {node : Node}
    (hnode : fs'.nodes.lookup (cacheKey dpath path) = some node) :
    fs.nodes.lookup (cacheKey dpath path) = some node := by
  have hkey := cacheKey_ne_resolve path (Nat.le_refl dpath.length)
  rcases h.others _ hkey with hsame | hgone
  · rw [← hsame]
    exact hnode
  · rw [hgone] at hnode
    cases hnode

/-- A file that cannot be opened cannot be opened after an eviction. -/
theorem CacheTracked.openWrite_evicted (h : CacheTracked c euid s)
    {fs : FileSystem} {path : CString} (hpath : HasFile path)
    (now : Nat) {now' : Nat}
    (hevicted : Evicted (cacheDirPath c euid) s.world.fs fs)
    (hopen : fs.openWrite euid now' fileMode
      (cacheKey (cacheDirPath c euid) path) ≠ none) :
    s.world.fs.openWrite euid now fileMode
      (cacheKey (cacheDirPath c euid) path) ≠ none := by
  intro hnone
  have hproper := proper_baseName_cacheKey (cacheDirPath c euid) hpath
  rcases (openWrite_none_iff (h.rewritable hpath) hproper).mp hnone with
    ⟨habsent, hmay⟩
  have habsent' : fs.lstat (cacheKey (cacheDirPath c euid) path) = none := by
    rw [lstat_cacheKey _ _ hpath] at habsent ⊢
    cases hnode : fs.nodes.lookup (cacheKey (cacheDirPath c euid) path) with
    | none => rfl
    | some node =>
        rw [hevicted.lookup_of_lookup path hnode] at habsent
        cases habsent
  have hmay' : fs.mayChange (cacheKey (cacheDirPath c euid) path) =
      false := by
    rw [← hmay]
    exact hevicted.directory.mayChange_cacheKey h.safe path
  exact hopen ((openWrite_none_iff (.inl habsent') hproper).mpr
    ⟨habsent', hmay'⟩)

/-- Files that disappear do no harm. -/
theorem CacheInvariant.evict {s' : RequestRun} (h : CacheInvariant c euid s)
    (htracked : CacheTracked c euid s')
    (hevicted : Evicted (cacheDirPath c euid) s.world.fs s'.world.fs)
    (hlatest : forall path,
      latestContact path s'.history = latestContact path s.history)
    (hsound : SoundHistory c s'.history) : CacheInvariant c euid s' := by
  refine ⟨htracked, ?_, hsound⟩
  intro path hpath i source hi hsource
  rw [hlatest] at hsource
  exact h.stored path hpath i source (hevicted.lookup_of_lookup path hi)
    hsource

/-- The file that a hit finds is the file of its path. -/
theorem CacheTracked.file_of_hit (h : CacheTracked c euid s)
    {path : CString} (hpath : HasFile path) {i : Inode}
    (hhit : Hit c euid s.world path i) :
    s.world.fs.nodes.lookup (cacheKey (cacheDirPath c euid) path) =
        some (.inode i) ∧
      exists source, FileOf c euid s path i source := by
  have hstat := hhit.left
  rw [cacheFilePath_of_hasFile (cacheDirPath_length c euid) hpath] at hstat
  unfold FileSystem.stat at hstat
  rw [lstat_cacheKey _ _ hpath] at hstat
  rcases h.files path hpath with hnone | ⟨i', source, hi', hfile⟩
  · rw [hnone] at hstat
    cases hstat
  · rw [hi'] at hstat
    cases hstat
    exact ⟨hi', source, hfile⟩

theorem Stepped.invariant {w : World} {history : List RequestRecord}
    {call : RequestCall} (hstep : Stepped c euid w history call s)
    (h : CacheInvariant c euid ⟨w, history⟩)
    (hspares : Spares c euid w call) (hclock : w.now < 2 ^ 63)
    (httl : 0 <= c.cacheTtl.toInt)
    (hnegative : 0 <= c.negativeCacheTtl.toInt) :
    CacheInvariant c euid s := by
  have htracked := hstep.tracked h.tracked
  cases hstep with
  | @fromFile i hhit =>
      have hpath := hspares.answers ⟨i, hhit⟩
      rcases h.tracked.file_of_hit hpath hhit with ⟨hi, source, hfile⟩
      have hstored := h.stored _ hpath i source hi hfile.latest
      refine h.evict htracked (Evicted.refl _ _) ?_ ⟨?_, h.sound⟩
      · intro path
        apply latestContact_skip
        unfold answerFromFile
        split <;> rfl
      · exact hfile.soundAnswer hclock httl hnegative hhit.right.right.left
          hstored call.data
  | backOff hmiss havailable hevicted lock =>
      refine h.evict htracked hevicted ?_ ⟨soundAnswer_of_fresh rfl, h.sound⟩
      intro path
      exact latestContact_skip path history rfl
  | @contact hmiss havailable fs hevicted lock res how hhow hshows hnotFound =>
      have hmid : CacheTracked c euid ⟨{ w with fs := fs }, history⟩ :=
        h.tracked.evict (Nat.le_refl _) hevicted (fun _ => rfl)
      refine ⟨htracked, ?_, soundAnswer_of_fresh rfl, h.sound⟩
      intro path hpath i source hi hsource
      rw [latestContact_cons] at hsource
      by_cases hsame : call.path = path
      · rw [if_pos ⟨hsame, hhow⟩] at hsource
        cases hsource
        rw [← hsame] at hpath hi
        rcases hmid.export_own hpath (w.now + call.backend.elapsed)
          res.data.cstring with ⟨_, hnone⟩ | ⟨hopen, _⟩
        · rw [hnone] at hi
          cases hi
        · have hbefore := h.tracked.openWrite_evicted hpath w.now hevicted
            hopen
          rw [← cacheFilePath_of_hasFile (cacheDirPath_length c euid) hpath]
            at hbefore
          exact (stored_iff_storable hshows hnotFound _ _).mpr
            (hspares.stores hmiss havailable hpath hbefore)
      · rw [if_neg (fun he => hsame he.left)] at hsource
        rw [hmid.export_other hpath (fun heq => hsame heq.symm)] at hi
        exact h.stored path hpath i source
          (hevicted.lookup_of_lookup path hi) hsource

theorem cacheInvariant_run (hcache : c.cache ≠ 0)
    (hcached : c.cachedEnable = 0) (httl : 0 <= c.cacheTtl.toInt)
    (hnegative : 0 <= c.negativeCacheTtl.toInt)
    (h : CacheInvariant c euid s) (calls : List RequestCall)
    (hspare : AllSpare c euid s calls)
    (hclock : (s.run c euid calls).world.now < 2 ^ 63) :
    CacheInvariant c euid (s.run c euid calls) := by
  induction calls generalizing s with
  | nil => exact h
  | cons call rest ih =>
      rcases hspare with ⟨hspares, hrest⟩
      rcases h.tracked.safe with ⟨node, hnode, hsafe⟩
      have hstep := stepped hcache hcached s call hnode hsafe
      have hwait : CacheInvariant c euid
          ⟨s.world.advance call.advance, s.history⟩ :=
        h.evict (h.tracked.wait _) (Evicted.refl _ _) (fun _ => rfl) h.sound
      have hafter := run_now_le hcache hcached
        (hstep.tracked hwait.tracked) rest
      have hadvanced : (s.world.advance call.advance).now < 2 ^ 63 :=
        Nat.lt_of_le_of_lt (hstep.now_le.trans hafter) hclock
      exact ih (hstep.invariant hwait hspares hadvanced httl hnegative) hrest
        hclock

end Invariant

/-- In every run that starts with a safe directory with nothing in it and whose
requests all spare the cache, every answer from a cache file is the answer of
the latest request for the path that contacted the backend. -/
theorem soundHistory_of_allSpare [CurlEscape] (c : StnsConf) (euid : Nat)
    (w : World) (calls : List RequestCall) (hcache : c.cache ≠ 0)
    (hcached : c.cachedEnable = 0) (httl : 0 <= c.cacheTtl.toInt)
    (hnegative : 0 <= c.negativeCacheTtl.toInt)
    (hempty : EmptyCache c euid w.fs)
    (hclock : ((RequestRun.start w).run c euid calls).world.now < 2 ^ 63)
    (hspare : AllSpare c euid (RequestRun.start w) calls) :
    SoundHistory c ((RequestRun.start w).run c euid calls).history :=
  (cacheInvariant_run hcache hcached httl hnegative
    (cacheInvariant_start hempty) calls hspare hclock).sound

/-- Right after the directory of user 1000 was made. -/
def freshWorld : World :=
  ⟨0, ⟨AList.singleton (ascii "/var/cache/stns/1000")
    (.inode ⟨.directory 4096, 1000, dirMode, true, true, 0⟩)⟩, none⟩

theorem emptyCache_freshWorld : EmptyCache {} 1000 freshWorld.fs := by
  refine ⟨⟨_, rfl, by decide⟩, ?_⟩
  intro name hslash hproper
  have hne : join (cacheDirPath {} 1000) name ≠
      ascii "/var/cache/stns/1000" := by
    intro heq
    have hlength := congrArg List.length heq
    have hdpath : (cacheDirPath {} 1000).length =
        (ascii "/var/cache/stns/1000").length := by decide
    unfold join at hlength
    rw [List.length_append, List.length_cons, hdpath] at hlength
    omega
  rw [FileSystem.lstat_join hslash hproper]
  exact AList.lookup_eq_none.mpr (fun hmem => hne (List.mem_singleton.mp hmem))

/-- A request for the users that is answered with an empty list. -/
def servedCall : RequestCall where
  advance := 5
  path := literal "users"
  data := zeroBlock
  backend := ⟨fun _ => ⟨[ascii "[]"], 200, CurlCode.ok⟩, none, 1⟩
  capacity := rfl
  nulFree := by
    intro i chunk hmem
    rw [List.mem_singleton.mp hmem]
    decide

/-- A request for the users that times out. -/
def timeoutCall : RequestCall where
  advance := 5
  path := literal "users"
  data := zeroBlock
  backend := timeoutBackend
  capacity := rfl
  nulFree := fun _ _ hmem => absurd hmem List.not_mem_nil

theorem servedCall_spares (w : World) : Spares {} 1000 w servedCall where
  answers _ := by decide
  stores _ _ _ _ := by decide

/-- The second of two requests is answered from the cache. -/
theorem soundHistory_of_allSpare_served :
    SoundHistory {} ((RequestRun.start freshWorld).run {} 1000
        [servedCall, servedCall]).history ∧
      ((RequestRun.start freshWorld).run {} 1000
        [servedCall, servedCall]).history.map (fun e => e.answer.fromCache) =
        [true, false] := by
  refine ⟨?_, by decide +kernel⟩
  exact soundHistory_of_allSpare {} 1000 freshWorld _ (by decide) (by decide)
    (by decide) (by decide) emptyCache_freshWorld (by decide +kernel)
    ⟨servedCall_spares _, servedCall_spares _, trivial⟩

/-- A request that times out leaves an empty cache file; the next one is told
that there is no such entry. -/
theorem timeout_creates_not_found :
    EmptyCache {} 1000 freshWorld.fs ∧
      ((RequestRun.start freshWorld).run {} 1000
        [timeoutCall, timeoutCall]).history.map (fun e =>
          (e.answer.fromCache, e.answer.result, e.answer.res.statusCode)) =
        [(true, CurlCode.httpReturnedError, stnsHttpNotfound),
          (false, 28, 0)] ∧
      ¬ SoundHistory {} ((RequestRun.start freshWorld).run {} 1000
        [timeoutCall, timeoutCall]).history := by
  refine ⟨emptyCache_freshWorld, by decide +kernel, ?_⟩
  intro hhistory
  rcases hhistory with ⟨hsound, _⟩
  rcases hsound.negative (by decide +kernel) (by decide +kernel) with
    ⟨source, hlatest, hresult, _⟩
  have htimeout : (latestContact (literal "users")
      ((RequestRun.start freshWorld).run {} 1000 [timeoutCall]).history).map
        (fun e => e.answer.result) = some 28 := by decide +kernel
  have hsame : some source.answer.result = some 28 :=
    (congrArg (Option.map (fun e : RequestRecord => e.answer.result))
      hlatest).symm.trans htimeout
  rw [hresult] at hsame
  exact absurd hsame (by decide)

/-!
## When a request does not spare the cache
-/

section Unsound

variable [CurlEscape] {c : StnsConf} {euid : Nat} {s : RequestRun}

/-- A file that holds what may not be stored, and was written just now, makes
the next request for its path unsound. -/
theorem FileOf.unsound_next {path : CString} {i : Inode}
    {source : RequestRecord} (h : FileOf c euid s path i source)
    (hcache : c.cache ≠ 0) (hcached : c.cachedEnable = 0)
    (httl : 0 <= c.cacheTtl.toInt) (hnegative : 0 <= c.negativeCacheTtl.toInt)
    (htracked : CacheTracked c euid s) (hclock : s.world.now < 2 ^ 63)
    (hpath : HasFile path)
    (hi : s.world.fs.nodes.lookup (cacheKey (cacheDirPath c euid) path) =
      some (.inode i))
    (hcoherent : source.answer.res.body = [] ∨
      source.answer.res.body = source.answer.res.data.cstring.chars)
    (hnow : source.ended = s.world.now) (hnot : ¬ Stored c source)
    {next : RequestCall} (hnext : next.path = path)
    (hadvance : next.advance = 0) :
    ¬ SoundHistory c (s.step c euid next).history := by
  have hstat : s.world.fs.stat
      (cacheFilePath (cacheDirPath c euid) path) = some i := by
    rw [cacheFilePath_of_hasFile (cacheDirPath_length c euid) hpath]
    apply FileSystem.stat_of_lstat
    rw [lstat_cacheKey _ _ hpath, hi]
  have hfresh := h.isFresh_of_not_stored hclock httl hnegative hnow hnot
  have hhit : Hit c euid s.world next.path i := by
    rw [hnext]
    exact ⟨hstat, h.uid, hfresh, .inr h.readable⟩
  rcases htracked.safe with ⟨node, hnode, hsafe⟩
  have hstep := stepped hcache hcached s next hnode hsafe
  have hwait : s.world.advance next.advance = s.world := by
    rw [hadvance]
    rfl
  rw [hwait] at hstep
  generalize s.step c euid next = after at hstep ⊢
  cases hstep with
  | fromFile hhit' =>
      intro hsound
      have hsame := hhit.left.symm.trans hhit'.left
      cases hsame
      rw [hnext] at hsound
      exact hnot (h.stored hcoherent hsound.left)
  | backOff hmiss havailable hevicted lock => exact absurd hhit (hmiss i)
  | contact hmiss havailable hevicted lock hhow hshows hnotFound =>
      exact absurd hhit (hmiss i)

/-- A request that can write its cache file, and leaves in it what may not
stand there, makes the next request for the path unsound. -/
theorem unsound_of_not_storable (hcache : c.cache ≠ 0)
    (hcached : c.cachedEnable = 0) (httl : 0 <= c.cacheTtl.toInt)
    (hnegative : 0 <= c.negativeCacheTtl.toInt)
    (h : CacheTracked c euid s) {call next : RequestCall}
    (hmiss : forall i,
      ¬ Hit c euid (s.world.advance call.advance) call.path i)
    (havailable : (stnsRequestAvailable c
      (s.world.advance call.advance).now s.world.lock).1 = true)
    (hpath : HasFile call.path)
    (hmay : s.world.fs.mayChange
      (cacheKey (cacheDirPath c euid) call.path) = true)
    (hnot : ¬ (call.outcome c).Storable c) (hnext : next.path = call.path)
    (hadvance : next.advance = 0)
    (hclock : (s.step c euid call).world.now < 2 ^ 63) :
    ¬ SoundHistory c
      ((s.step c euid call).step c euid next).history := by
  rcases h.safe with ⟨node, hnode, hsafe⟩
  have hstep := stepped hcache hcached s call hnode hsafe
  have htracked := hstep.tracked (h.wait call.advance)
  generalize s.step c euid call = s' at hstep htracked hclock ⊢
  cases hstep with
  | fromFile hhit => exact absurd hhit (hmiss _)
  | backOff hmiss' havailable' hevicted lock =>
      rw [show (s.world.advance call.advance).lock = s.world.lock from rfl,
        havailable] at havailable'
      cases havailable'
  | @contact hmiss' _ fs hevicted lock res how hhow hshows hnotFound =>
      have hmid : CacheTracked c euid
          ⟨⟨(s.world.advance call.advance).now, fs, lock⟩, s.history⟩ :=
        (h.wait call.advance).evict (Nat.le_refl _) hevicted (fun _ => rfl)
      rcases hmid.export_own hpath
        ((s.world.advance call.advance).now + call.backend.elapsed)
          res.data.cstring with ⟨hnone, _⟩ | ⟨_, hown⟩
      · rw [openWrite_none_iff (hmid.rewritable hpath)
          (proper_baseName_cacheKey _ hpath)] at hnone
        have hkeeps := hevicted.directory.mayChange_cacheKey
          ⟨node, hnode, hsafe⟩ call.path
        have hwritable := hkeeps.trans hmay
        rw [hnone.right] at hwritable
        cases hwritable
      · rcases htracked.files call.path hpath with
          hnone | ⟨i, source, hi, hfile⟩
        · rw [hnone] at hown
          cases hown
        · have hlatest := hfile.latest
          rw [latestContact_cons, if_pos ⟨rfl, hhow⟩] at hlatest
          cases hlatest
          refine hfile.unsound_next hcache hcached httl hnegative htracked
            hclock hpath hi ?_ rfl ?_ hnext hadvance
          · rw [hshows.body, hshows.text]
            exact call.coherent c
          · rw [stored_iff_storable hshows hnotFound]
            exact hnot

end Unsound

end Stns
