import Stns.Document.JsonParse
import Stns.Nss.SingleValue
import Stns.Request.CacheSoundness

/-!
# How old an answer can be

A server changes while a process asks it and answers from its cache files.
Every answer is the one that the server itself would have given at a moment not
longer ago than an answer is kept, and a transfer takes.
-/

namespace Stns

open Parson

/-!
## A server that changes
-/

/-- What the server has for a request path at a moment. -/
abbrev Timeline := Nat -> CString -> Option CString

/-- What a call makes of an answer: it parses the body if the request
succeeded. -/
def Answer.fetch (c : StnsConf) (a : Answer) : Fetch where
  config := some c
  result := a.result
  statusCode := a.res.statusCode
  document :=
    if a.result = CurlCode.ok then jsonParseString a.res.data.cstring.chars
    else none

/-- What a call fetches if the server answers it directly. -/
def directFetch (c : StnsConf) : Option CString -> Fetch
  | some body =>
      ⟨some c, CurlCode.ok, 200, jsonParseString body.chars⟩
  | none => ⟨some c, CurlCode.httpReturnedError, stnsHttpNotfound, none⟩

/-- The transfer brings what the server has: a body in some chunks, or the code
of a missing entry without one. -/
def Attempt.Brings (a : Attempt) : Option CString -> Prop
  | some body =>
      ¬ a.Failed ∧ a.result = CurlCode.ok ∧
        deliveredBody a.chunks = body.chars ∧ body.chars ≠ []
  | none => a.code = stnsHttpNotfound ∧ a.chunks = []

/-- A request whose transfer, if it is made, takes at most the given time and
brings what the server has meanwhile.  For a missing entry the buffer of the
caller starts with an empty string. -/
structure Faithful [CurlEscape] (timeline : Timeline) (delay now : Nat)
    (call : RequestCall) : Prop where
  path : HasFile call.path
  elapsed : call.backend.elapsed <= delay
  moment : exists t, now <= t ∧ t <= now + call.backend.elapsed ∧
    (call.backend.transfers 0).Brings (timeline t call.path) ∧
    (timeline t call.path = none -> call.data.cstring.chars = [])

def AllFaithful [CurlEscape] (timeline : Timeline) (delay : Nat) (c : StnsConf)
    (euid : Nat) : RequestRun -> List RequestCall -> Prop
  | _, [] => True
  | s, call :: rest =>
      Faithful timeline delay (s.world.advance call.advance).now call ∧
        AllFaithful timeline delay c euid (s.step c euid call) rest

/-- How long an answer is kept. -/
def keptFor (c : StnsConf) : Option CString -> Int
  | some _ => c.cacheTtl.toInt
  | none => c.negativeCacheTtl.toInt

/-- A request ended as if the server had been asked directly, at a moment not
too long ago. -/
def Recent (timeline : Timeline) (delay : Nat) (c : StnsConf)
    (e : RequestRecord) : Prop :=
  exists t, t <= e.ended ∧
    (e.ended : Int) <= t + delay + keptFor c (timeline t e.path) ∧
    e.answer.fetch c = directFetch c (timeline t e.path)

def AllRecent (timeline : Timeline) (delay : Nat) (c : StnsConf)
    (history : List RequestRecord) : Prop :=
  forall e, e ∈ history -> Recent timeline delay c e

/-!
## What a transfer brings
-/

section Transfer

variable {c : StnsConf} {a : Attempt} {entry : Option CString} {data : Block}

/-- The response and its buffer hold the entry. -/
def Shown (result : CurlCode) (res : Response) : Option CString -> Prop
  | some body =>
      result = CurlCode.ok ∧ res.statusCode = 200 ∧
        res.data.cstring.chars = body.chars ∧ body.chars ≠ []
  | none =>
      result = CurlCode.httpReturnedError ∧
        res.statusCode = stnsHttpNotfound ∧ res.data.cstring.chars = []

theorem Shown.fetch {result : CurlCode} {res : Response}
    (h : Shown result res entry) (fromCache : Bool) (contact : Contact) :
    (Answer.mk result res fromCache contact).fetch c =
      directFetch c entry := by
  cases entry with
  | some body =>
      rcases h with ⟨hresult, hstatus, htext, _⟩
      unfold Answer.fetch directFetch
      dsimp only
      rw [hresult, hstatus, htext, if_pos rfl]
  | none =>
      rcases h with ⟨hresult, hstatus, _⟩
      unfold Answer.fetch directFetch
      dsimp only
      rw [hresult, hstatus, if_neg httpReturnedError_ne_ok]

theorem Received.deliver_body (r : Received) (chunks : List Bytes) :
    (r.deliver chunks).body = r.body ++ deliveredBody chunks := by
  induction chunks generalizing r with
  | nil => exact (List.append_nil _).symm
  | cons chunk rest ih =>
      unfold deliver deliveredBody
      split
      · exact (List.append_nil _).symm
      · rw [ih]
        exact List.append_assoc _ _ _

/-- A body that arrives is the string that the buffer starts with. -/
theorem Received.deliver_text {text body : Bytes} {chunks : List Bytes}
    (hbody : deliveredBody chunks = body) (hne : body ≠ []) :
    ((⟨[], text⟩ : Received).deliver chunks).text = body := by
  have hdelivered := Received.deliver_body ⟨[], text⟩ chunks
  rw [List.nil_append, hbody] at hdelivered
  rcases Received.coherent_deliver (r := ⟨[], text⟩) (.inl rfl) chunks with
    hnil | hsame
  · exact absurd (hdelivered.symm.trans hnil) hne
  · rw [← hsame, hdelivered]

theorem Attempt.Brings.final (h : a.Brings entry) :
    a.Final ∧ a.finalResult ≠ CurlCode.couldntConnect := by
  unfold Attempt.Final Attempt.finalResult
  cases entry with
  | some body =>
      rcases h with ⟨hserved, hresult, _⟩
      rw [if_neg (fun hboth => hserved hboth.left), hresult]
      exact ⟨.inl rfl, by decide⟩
  | none =>
      have hfailed : a.Failed ∧ a.code ≠ 0 := by
        have hcode := h.left
        unfold Attempt.Failed
        unfold stnsHttpNotfound at hcode
        omega
      rw [if_pos hfailed]
      exact ⟨.inr rfl, by decide⟩

/-- One transfer fills the response with what the server has. -/
theorem innerHttpRequest_brings (h : a.Brings entry)
    (hdata : defaultBufferSize <= data.capacity)
    (hfree : forall chunk, chunk ∈ a.chunks -> 0 ∉ chunk)
    (hblank : entry = none -> data.cstring.chars = []) :
    Shown (innerHttpRequest a (Response.start data)).1
      (innerHttpRequest a (Response.start data)).2 entry := by
  have hshows := (shows_start hdata).attempt hfree
  cases entry with
  | some body =>
      rcases h with ⟨hserved, hresult, hbody, hne⟩
      have hfinal : a.finalResult = CurlCode.ok :=
        (if_neg (fun hboth => hserved hboth.left)).trans hresult
      have htext := hshows.text
      unfold Received.attempt at htext
      rw [if_neg hserved, Received.deliver_text hbody hne] at htext
      exact ⟨(innerHttpRequest_result a _).trans hfinal,
        (innerHttpRequest_served hserved _).right.left, htext, hne⟩
  | none =>
      rcases h with ⟨hcode, hchunks⟩
      have hfailed : a.Failed ∧ a.code ≠ 0 := by
        unfold Attempt.Failed
        unfold stnsHttpNotfound at hcode
        omega
      have hfinal : a.finalResult = CurlCode.httpReturnedError :=
        if_pos hfailed
      refine ⟨(innerHttpRequest_result a _).trans hfinal, ?_, ?_⟩
      · exact ((innerHttpRequest_failed hfailed.left _).right).trans hcode
      · have htext := hshows.text
        unfold Received.attempt at htext
        rw [if_pos hfailed.left, hchunks] at htext
        exact htext.trans (hblank rfl)

/-- A backend whose first transfer brings what the server has is contacted
once. -/
theorem contactBackend_brings (hwrapper : c.queryWrapper = none)
    (path : CString) {backend : Backend}
    (h : (backend.transfers 0).Brings entry)
    (hdata : defaultBufferSize <= data.capacity)
    (hfree : forall chunk, chunk ∈ (backend.transfers 0).chunks -> 0 ∉ chunk)
    (hblank : entry = none -> data.cstring.chars = []) :
    exists result res,
      contactBackend c path backend (Response.start data) =
          (result, res, .http 1) ∧
        Shown result res entry ∧ result ≠ CurlCode.couldntConnect := by
  have hlast : lastAttempt backend.transfers c.retries 0 = 0 := by
    cases c.retries with
    | zero => rfl
    | succ retries => exact if_pos h.final.left
  have hshown := innerHttpRequest_brings h hdata hfree hblank
  rw [innerHttpRequest_result] at hshown
  unfold contactBackend contactBackendBy
  rw [hwrapper]
  dsimp only
  rw [httpBranch_eq, hlast]
  exact ⟨_, _, rfl, hshown, h.final.right⟩

end Transfer

/-!
## What a file brings
-/

section File

variable {c : StnsConf} {euid : Nat} {s : RequestRun} {path : CString}
  {i : Inode} {source : RequestRecord} {entry : Option CString}

/-- A file answers as its source did. -/
theorem FileOf.fetch (h : FileOf c euid s path i source)
    (hshown : Shown source.answer.result source.answer.res entry)
    (data : Block) :
    (answerFromFile data i).fetch c = directFetch c entry := by
  unfold answerFromFile
  rw [h.size, h.content]
  cases entry with
  | some body =>
      rcases hshown with ⟨_, _, htext, hne⟩
      have hsize : ¬ source.answer.res.data.cstring.chars.length = 0 := by
        rw [htext]
        exact fun hzero => hne (List.length_eq_zero_iff.mp hzero)
      have hpieces : Stdio.fgets maxbuf body.chars ≠ [] :=
        fun hnil => hne (Stdio.fgets_eq_nil_iff.mp hnil)
      have hcstring := Stdio.appendPieces_cstring grows_growAlways hpieces
        (Nat.zero_le data.capacity)
      rw [Stdio.text_fgets maxbuf body.nulFree] at hcstring
      rw [if_neg hsize, htext]
      exact @Shown.fetch c (some body) _ _ ⟨rfl, rfl, hcstring, hne⟩ _ _
  | none =>
      rcases hshown with ⟨_, _, htext⟩
      rw [htext]
      rfl

theorem FileOf.kept (h : FileOf c euid s path i source)
    (hshown : Shown source.answer.result source.answer.res entry)
    (hclock : s.world.now < 2 ^ 63) (httl : 0 <= c.cacheTtl.toInt)
    (hnegative : 0 <= c.negativeCacheTtl.toInt)
    (hfresh : isFresh c s.world.now i = true) :
    (s.world.now : Int) - source.ended < keptFor c entry := by
  have hyoung := (h.isFresh_iff hclock httl hnegative).mp hfresh
  cases entry with
  | some body =>
      rcases hshown with ⟨_, _, htext, hne⟩
      rwa [if_neg (by rw [htext]; exact hne)] at hyoung
  | none =>
      rcases hshown with ⟨_, _, htext⟩
      rwa [if_pos htext] at hyoung

end File

/-!
## Runs
-/

/-- What holds after every faithful request. -/
structure StalenessInvariant [CurlEscape] (timeline : Timeline) (delay : Nat)
    (c : StnsConf) (euid : Nat) (s : RequestRun) : Prop where
  tracked : CacheTracked c euid s
  unlocked : s.world.lock = none
  recent : forall e, e ∈ s.history -> Recent timeline delay c e
  contacted : forall e, e ∈ s.history -> e.answer.contact ≠ .none ->
    exists t, t <= e.ended ∧ e.ended <= t + delay ∧
      Shown e.answer.result e.answer.res (timeline t e.path)

section Runs

variable {timeline : Timeline} {delay : Nat} {c : StnsConf} {euid : Nat}
  {s : RequestRun} {call : RequestCall}

theorem mem_of_latestContact {path : CString} {history : List RequestRecord}
    {source : RequestRecord} (h : latestContact path history = some source) :
    source ∈ history ∧ source.path = path ∧
      source.answer.contact ≠ .none := by
  have hfound := List.find?_some h
  rw [decide_eq_true_eq] at hfound
  exact ⟨List.mem_of_find?_eq_some h, hfound⟩

variable [CurlEscape]

/-- The step of a request that its cache file answers. -/
theorem step_of_hit {i : Inode}
    (hused : CacheUsed c euid (s.world.advance call.advance).fs)
    (hhit : Hit c euid (s.world.advance call.advance) call.path i) :
    s.step c euid call =
      ⟨s.world.advance call.advance,
        ⟨call.path, answerFromFile call.data i,
          (s.world.advance call.advance).now⟩ :: s.history⟩ := by
  unfold RequestRun.step
  rw [stnsRequest_of_hit hused hhit]

/-- The step of a request that contacts the server. -/
theorem step_of_miss
    (hmiss : CacheUsed c euid (s.world.advance call.advance).fs ->
      forall i, ¬ Hit c euid (s.world.advance call.advance) call.path i)
    (hlock : s.world.lock = none) {result : CurlCode} {res : Response}
    {contact : Contact}
    (hrun : contactBackend c call.path call.backend
      (Response.start call.data) = (result, res, contact))
    (hresult : result ≠ CurlCode.couldntConnect) :
    exists fs,
      s.step c euid call =
        ⟨⟨(s.world.advance call.advance).now + call.backend.elapsed, fs, none⟩,
          ⟨call.path, ⟨result, res, false, contact⟩,
            (s.world.advance call.advance).now + call.backend.elapsed⟩ ::
            s.history⟩ := by
  rcases stnsRequest_of_miss hmiss call.data call.backend with
    ⟨fs, _, hrequest⟩
  have havailable : stnsRequestAvailable c
      (s.world.advance call.advance).now s.world.lock = (true, none) := by
    rw [hlock]
    rfl
  unfold RequestRun.step
  rw [hrequest]
  unfold requestBackend requestBackendBy
  dsimp only [World.advance] at havailable ⊢
  rw [havailable]
  dsimp only
  rw [if_neg (by decide), ← contactBackend, hrun]
  dsimp only
  rw [if_neg hresult]
  exact ⟨_, rfl⟩

theorem StalenessInvariant.step
    (h : StalenessInvariant timeline delay c euid s) (hcache : c.cache ≠ 0)
    (hcached : c.cachedEnable = 0) (hwrapper : c.queryWrapper = none)
    (httl : 0 <= c.cacheTtl.toInt) (hnegative : 0 <= c.negativeCacheTtl.toInt)
    (hclock : (s.world.advance call.advance).now < 2 ^ 63)
    (hfaithful : Faithful timeline delay
      (s.world.advance call.advance).now call) :
    StalenessInvariant timeline delay c euid (s.step c euid call) := by
  have htracked := cacheTracked_step hcache hcached h.tracked call
  by_cases hhit : CacheUsed c euid (s.world.advance call.advance).fs ∧
      exists i, Hit c euid (s.world.advance call.advance) call.path i
  · rcases hhit with ⟨hused, i, hhit⟩
    have hstep := step_of_hit hused hhit
    rw [hstep] at htracked ⊢
    refine ⟨htracked, h.unlocked, ?_, ?_⟩
    · intro e he
      rcases List.mem_cons.mp he with rfl | hmem
      · rcases (h.tracked.wait call.advance).file_of_hit hfaithful.path hhit
          with ⟨_, source, hfile⟩
        rcases mem_of_latestContact hfile.latest with
          ⟨hmem, hpath, hcontact⟩
        rcases h.contacted source hmem hcontact with ⟨t, hle, hlong, hshown⟩
        rw [hpath] at hshown
        have hkept := hfile.kept hshown hclock httl hnegative
          hhit.right.right.left
        have hpast := hfile.past
        refine ⟨t, Nat.le_trans hle hpast, ?_, hfile.fetch hshown call.data⟩
        dsimp only at hkept ⊢
        omega
      · exact h.recent e hmem
    · intro e he hcontact
      rcases List.mem_cons.mp he with rfl | hmem
      · refine absurd ?_ hcontact
        unfold answerFromFile
        split <;> rfl
      · exact h.contacted e hmem hcontact
  · have hmiss : CacheUsed c euid (s.world.advance call.advance).fs ->
        forall i, ¬ Hit c euid (s.world.advance call.advance) call.path i :=
      fun hused i hi => hhit ⟨hused, i, hi⟩
    rcases hfaithful.moment with ⟨t, hfrom, hto, hbrings, hblank⟩
    rcases contactBackend_brings hwrapper call.path hbrings
      (Nat.le_of_eq call.capacity.symm) (call.nulFree 0) hblank with
      ⟨result, res, hrun, hshown, hresult⟩
    rcases step_of_miss hmiss h.unlocked hrun hresult with ⟨fs, hstep⟩
    have helapsed := hfaithful.elapsed
    rw [hstep] at htracked ⊢
    refine ⟨htracked, rfl, ?_, ?_⟩
    · intro e he
      rcases List.mem_cons.mp he with rfl | hmem
      · refine ⟨t, hto, ?_, hshown.fetch _ _⟩
        have hkept : 0 <= keptFor c (timeline t call.path) := by
          unfold keptFor
          split
          · exact httl
          · exact hnegative
        dsimp only
        omega
      · exact h.recent e hmem
    · intro e he hcontact
      rcases List.mem_cons.mp he with rfl | hmem
      · exact ⟨t, hto, by dsimp only; omega, hshown⟩
      · exact h.contacted e hmem hcontact

theorem stalenessInvariant_run (hcache : c.cache ≠ 0)
    (hcached : c.cachedEnable = 0) (hwrapper : c.queryWrapper = none)
    (httl : 0 <= c.cacheTtl.toInt) (hnegative : 0 <= c.negativeCacheTtl.toInt)
    (h : StalenessInvariant timeline delay c euid s)
    (calls : List RequestCall)
    (hfaithful : AllFaithful timeline delay c euid s calls)
    (hclock : (s.run c euid calls).world.now < 2 ^ 63) :
    StalenessInvariant timeline delay c euid (s.run c euid calls) := by
  induction calls generalizing s with
  | nil => exact h
  | cons call rest ih =>
      have hnow := step_now_le hcache hcached h.tracked call
      have hlater := run_now_le hcache hcached
        (cacheTracked_step hcache hcached h.tracked call) rest
      have hclock' : (s.world.advance call.advance).now < 2 ^ 63 :=
        Nat.lt_of_le_of_lt (Nat.le_trans hnow hlater) hclock
      exact ih (h.step hcache hcached hwrapper httl hnegative hclock'
        hfaithful.left) hfaithful.right hclock

/-- Starting from an empty cache, whatever the calls then do with it, each
request ends as if the server had been asked directly a moment ago. -/
theorem answers_recent (timeline : Timeline) (delay : Nat) (c : StnsConf)
    (euid : Nat) (w : World) (calls : List RequestCall)
    (hcache : c.cache ≠ 0) (hcached : c.cachedEnable = 0)
    (hwrapper : c.queryWrapper = none) (httl : 0 <= c.cacheTtl.toInt)
    (hnegative : 0 <= c.negativeCacheTtl.toInt)
    (hempty : EmptyCache c euid w.fs) (hlock : w.lock = none)
    (hclock : ((RequestRun.start w).run c euid calls).world.now < 2 ^ 63)
    (hfaithful : AllFaithful timeline delay c euid (RequestRun.start w)
      calls) :
    AllRecent timeline delay c
      ((RequestRun.start w).run c euid calls).history :=
  (stalenessInvariant_run hcache hcached hwrapper httl hnegative
    ⟨hempty.tracked, hlock, nofun, nofun⟩ calls hfaithful hclock).recent

end Runs

theorem servedCall_faithful (now : Nat) :
    Faithful (fun _ _ => some (literal "[]")) 1 now servedCall where
  path := by decide
  elapsed := Nat.le_refl 1
  moment := by
    refine ⟨now, Nat.le_refl now, Nat.le_succ now, ?_, nofun⟩
    exact ⟨by decide, rfl, rfl, by decide⟩

/-- The second of two requests is answered from the cache. -/
theorem answers_recent_served :
    AllRecent (fun _ _ => some (literal "[]")) 1 {}
      ((RequestRun.start freshWorld).run {} 1000
        [servedCall, servedCall]).history :=
  answers_recent _ 1 {} 1000 freshWorld [servedCall, servedCall] (by decide)
    (by decide) rfl (by decide) (by decide) emptyCache_freshWorld rfl
    (by decide +kernel)
    ⟨servedCall_faithful _, servedCall_faithful _, trivial⟩

end Stns
