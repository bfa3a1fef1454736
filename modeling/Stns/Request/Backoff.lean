import Stns.Request.CacheRun

/-!
# Back-off

A request that cannot connect to the backend leaves a lock file.  While the
lock is young, every request answers from the cache or is refused, and no
refusal renews the lock.
-/

namespace Stns

open MachineInt

/-- One request of a run: the time that passes before it, its path, the buffer
of its caller and what the backend would do. -/
structure TimedCall where
  advance : Nat
  path : CString
  data : Block
  backend : Backend

/-- The request, made when its time has passed. -/
def TimedCall.request [CurlEscape] (c : StnsConf) (euid : Nat) (w : World)
    (call : TimedCall) : Answer × World :=
  stnsRequest c euid call.path call.data call.backend
    (w.advance call.advance)

/-- The world after a sequence of requests. -/
def worldAfter [CurlEscape] (c : StnsConf) (euid : Nat) :
    World -> List TimedCall -> World
  | w, [] => w
  | w, call :: rest => worldAfter c euid (call.request c euid w).2 rest

/-- The requests that leave the backend alone: they answer from a fresh file
and change nothing, or refuse and evict at most. -/
inductive BacksOff [CurlEscape] (c : StnsConf) (euid : Nat) (w : World)
    (call : TimedCall) : Answer × World -> Prop where
  | fromFile {i : Inode} (hhit : Hit c euid w call.path i) :
      BacksOff c euid w call (answerFromFile call.data i, w)
  | refused {fs : FileSystem} (hevicts : OnlyEvicts c euid w.now w.fs fs) :
      BacksOff c euid w call
        (⟨CurlCode.couldntConnect, Response.start call.data, false, .none⟩,
          { w with fs := fs })

/-- Each request of the sequence is made up to the deadline, or
served from the cache. -/
def Waits [CurlEscape] (c : StnsConf) (euid : Nat) (deadline : Int) :
    World -> List TimedCall -> Prop
  | _, [] => True
  | w, call :: rest =>
      (((w.advance call.advance).now : Int) <= deadline ∨
        (call.request c euid w).1.fromCache = true) ∧
      Waits c euid deadline (call.request c euid w).2 rest

/-!
## What a request does
-/

section Step

variable {c : StnsConf} {euid : Nat}

theorem answerFromFile_fromCache (data : Block) (i : Inode) :
    (answerFromFile data i).fromCache = true ∧
      (answerFromFile data i).contact = .none := by
  unfold answerFromFile
  split <;> exact ⟨rfl, rfl⟩

/-- Contacting the backend is an attempt at least, or a look at the argument
of the query wrapper. -/
theorem contactBackend_contact (c : StnsConf) (path : CString)
    (backend : Backend) (res : Response) :
    (c.queryWrapper = none ->
        exists n, (contactBackend c path backend res).2.2 = .http (n + 1)) ∧
      (c.queryWrapper ≠ none ->
        (contactBackend c path backend res).1 ≠ CurlCode.couldntConnect) := by
  unfold contactBackend contactBackendBy
  cases c.queryWrapper with
  | none =>
      dsimp only
      rw [httpBranch_eq]
      exact ⟨fun _ => ⟨_, rfl⟩, fun h => absurd rfl h⟩
  | some wrapper =>
      constructor
      · intro h
        cases h
      · intro _
        dsimp only
        rcases stnsExecCmd_result path backend.output res with hfailed | hok
        · rw [hfailed]
          decide
        · rw [hok]
          decide

/-- The lock file stays while it refuses, and is gone when it does not. -/
theorem stnsRequestAvailable_lock (c : StnsConf) (now : Nat)
    (lock : Option Nat) :
    (stnsRequestAvailable c now lock).2 =
      if (stnsRequestAvailable c now lock).1 = true then none else lock := by
  unfold stnsRequestAvailable
  cases lock with
  | none => rfl
  | some ctime =>
      dsimp only
      split
      · rfl
      · rfl

/-- All that a request can do. -/
inductive Requested [CurlEscape] (c : StnsConf) (euid : Nat) (w : World)
    (call : TimedCall) : Answer × World -> Prop where
  | fromFile {i : Inode} (hhit : Hit c euid w call.path i) :
      Requested c euid w call (answerFromFile call.data i, w)
  | refused {fs : FileSystem} (hevicts : OnlyEvicts c euid w.now w.fs fs)
      (hheld : (stnsRequestAvailable c w.now w.lock).1 = false) :
      Requested c euid w call
        (⟨CurlCode.couldntConnect, Response.start call.data, false, .none⟩,
          { w with fs := fs })
  | contacted (hfree : (stnsRequestAvailable c w.now w.lock).1 = true)
      (fs : FileSystem) {result : CurlCode} {res : Response}
      {contact : Contact}
      (hrun : contactBackend c call.path call.backend
        (Response.start call.data) = (result, res, contact)) :
      Requested c euid w call
        (⟨result, res, false, contact⟩,
          ⟨w.now + call.backend.elapsed, fs,
            if result = CurlCode.couldntConnect then
              some (w.now + call.backend.elapsed)
            else none⟩)

theorem requested [CurlEscape] (c : StnsConf) (euid : Nat) (w : World)
    (call : TimedCall) :
    Requested c euid (w.advance call.advance) call
      (call.request c euid w) := by
  unfold TimedCall.request
  generalize w.advance call.advance = w
  by_cases hhit : CacheUsed c euid w.fs ∧ exists i, Hit c euid w call.path i
  · rcases hhit with ⟨hused, i, hhit⟩
    rw [stnsRequest_of_hit hused hhit]
    exact .fromFile hhit
  · have hmiss : CacheUsed c euid w.fs ->
        forall i, ¬ Hit c euid w call.path i :=
      fun hused i hfile => hhit ⟨hused, i, hfile⟩
    rcases stnsRequest_of_miss hmiss call.data call.backend with
      ⟨fs, hevicts, hrequest⟩
    have hlock := stnsRequestAvailable_lock c w.now w.lock
    rw [hrequest]
    unfold requestBackend requestBackendBy
    dsimp only
    cases hheld : (stnsRequestAvailable c w.now w.lock).1 with
    | false =>
        rw [hheld, if_neg Bool.noConfusion] at hlock
        rw [if_pos rfl, hlock]
        exact .refused hevicts hheld
    | true =>
        rw [hheld, if_pos rfl] at hlock
        rw [if_neg Bool.noConfusion, hlock]
        exact .contacted hheld _ rfl

/-- A request that contacts the backend in vain leaves a lock of its last
second. -/
theorem lock_of_couldntConnect [CurlEscape] {w : World} {call : TimedCall}
    (hresult : (call.request c euid w).1.result = CurlCode.couldntConnect)
    (hcontact : (call.request c euid w).1.contact ≠ .none) :
    (call.request c euid w).2.lock = some (call.request c euid w).2.now ∧
      c.queryWrapper = none := by
  have hstep := requested c euid w call
  generalize call.request c euid w = next at hresult hcontact hstep ⊢
  cases hstep with
  | fromFile hhit =>
      exact absurd (answerFromFile_fromCache _ _).right hcontact
  | refused hevicts hheld => exact absurd rfl hcontact
  | contacted hfree fs hrun =>
      refine ⟨if_pos hresult, ?_⟩
      by_contra hwrapper
      have hne := (contactBackend_contact c call.path call.backend
        (Response.start call.data)).right hwrapper
      rw [hrun] at hne
      exact hne hresult

end Step

/-!
## The lock
-/

/-- The lock file of the second {lit}`t` is there. -/
structure Locked (t : Nat) (w : World) : Prop where
  lock : w.lock = some t
  past : t <= w.now

section Lock

variable {c : StnsConf} {euid t : Nat} {w : World}

/-- A lock is in force up to its last second, and removed after it. -/
theorem Locked.available (h : Locked t w)
    (hlocktime : 0 <= c.requestLocktime.toInt) (hclock : w.now < 2 ^ 63) :
    stnsRequestAvailable c w.now w.lock =
      if (w.now : Int) <= t + c.requestLocktime.toInt then (false, some t)
      else (true, none) := by
  have hage : ageOf w.now t = w.now - t :=
    sizeSub_of_le h.past (Nat.lt_trans hclock (by decide))
  have hlimit := sizeOfInt_of_nonneg hlocktime
  have hpast := h.past
  unfold stnsRequestAvailable
  rw [h.lock]
  dsimp only
  rw [hage]
  by_cases hyoung : (w.now : Int) <= t + c.requestLocktime.toInt
  · rw [if_pos hyoung, if_neg (by omega)]
  · rw [if_neg hyoung, if_pos (by omega)]

theorem Locked.advance (h : Locked t w) (seconds : Nat) :
    Locked t (w.advance seconds) :=
  ⟨h.lock, Nat.le_trans h.past (Nat.le_add_right _ _)⟩

/-- Up to the last second of the lock, every request backs off. -/
theorem Locked.backsOff [CurlEscape] (h : Locked t w) (euid : Nat)
    (hlocktime : 0 <= c.requestLocktime.toInt) {call : TimedCall}
    (hclock : (w.advance call.advance).now < 2 ^ 63)
    (hyoung : ((w.advance call.advance).now : Int) <=
      t + c.requestLocktime.toInt) :
    BacksOff c euid (w.advance call.advance) call
      (call.request c euid w) := by
  have hlocked := (h.advance call.advance).available hlocktime hclock
  rw [if_pos hyoung] at hlocked
  have hstep := requested c euid w call
  generalize call.request c euid w = next at hstep ⊢
  cases hstep with
  | fromFile hhit => exact .fromFile hhit
  | refused hevicts hheld => exact .refused hevicts
  | contacted hfree fs hrun =>
      rw [hlocked] at hfree
      cases hfree

/-- After the last second of the lock, a request that is not served from the
cache contacts the backend. -/
theorem Locked.contacts [CurlEscape] (h : Locked t w)
    (hlocktime : 0 <= c.requestLocktime.toInt)
    (hwrapper : c.queryWrapper = none) {call : TimedCall}
    (hclock : (w.advance call.advance).now < 2 ^ 63)
    (hold : t + c.requestLocktime.toInt < (w.advance call.advance).now)
    (hmiss : (call.request c euid w).1.fromCache = false) :
    exists n, (call.request c euid w).1.contact = .http (n + 1) := by
  have hremoved := (h.advance call.advance).available hlocktime hclock
  rw [if_neg (Int.not_le.mpr hold)] at hremoved
  have hstep := requested c euid w call
  generalize call.request c euid w = next at hmiss hstep ⊢
  cases hstep with
  | fromFile hhit =>
      rw [(answerFromFile_fromCache _ _).left] at hmiss
      cases hmiss
  | refused hevicts hheld =>
      rw [hremoved] at hheld
      cases hheld
  | contacted hfree fs hrun =>
      rcases (contactBackend_contact c call.path call.backend
        (Response.start call.data)).left hwrapper with ⟨n, hcontact⟩
      rw [hrun] at hcontact
      exact ⟨n, hcontact⟩

theorem BacksOff.contact [CurlEscape] {call : TimedCall} {next : Answer × World}
    (h : BacksOff c euid w call next) :
    next.1.contact = .none ∧ next.2.lock = w.lock ∧ next.2.now = w.now := by
  cases h with
  | fromFile hhit => exact ⟨(answerFromFile_fromCache _ _).right, rfl, rfl⟩
  | refused hevicts => exact ⟨rfl, rfl, rfl⟩

theorem world_of_fromCache [CurlEscape] {call : TimedCall}
    (h : (call.request c euid w).1.fromCache = true) :
    (call.request c euid w).2 = w.advance call.advance := by
  have hstep := requested c euid w call
  generalize call.request c euid w = next at h hstep ⊢
  cases hstep with
  | fromFile hhit => rfl
  | refused hevicts hheld => cases h
  | contacted hfree fs hrun => cases h

end Lock

/-!
## Runs
-/

section Runs

variable [CurlEscape] {c : StnsConf} {euid t : Nat}

theorem now_le_request (c : StnsConf) (euid : Nat) (w : World)
    (call : TimedCall) :
    (w.advance call.advance).now <= (call.request c euid w).2.now := by
  have hstep := requested c euid w call
  generalize call.request c euid w = next at hstep ⊢
  cases hstep with
  | fromFile hhit => exact Nat.le_refl _
  | refused hevicts hheld => exact Nat.le_refl _
  | contacted hfree fs hrun => exact Nat.le_add_right _ _

theorem now_le_worldAfter (c : StnsConf) (euid : Nat) (w : World)
    (calls : List TimedCall) :
    w.now <= (worldAfter c euid w calls).now := by
  induction calls generalizing w with
  | nil => exact Nat.le_refl _
  | cons call rest ih =>
      have hwait : w.now <= (w.advance call.advance).now :=
        Nat.le_add_right _ _
      exact Nat.le_trans (Nat.le_trans hwait (now_le_request c euid w call))
        (ih _)

theorem waits_of_le {deadline : Int} {w : World} {calls : List TimedCall}
    (h : ((worldAfter c euid w calls).now : Int) <= deadline) :
    Waits c euid deadline w calls := by
  induction calls generalizing w with
  | nil => trivial
  | cons call rest ih =>
      refine ⟨.inl ?_, ih h⟩
      have hstep := now_le_request c euid w call
      have hrest := now_le_worldAfter c euid (call.request c euid w).2 rest
      have hlater : ((worldAfter c euid (call.request c euid w).2 rest).now :
        Int) <= deadline := h
      omega

theorem Locked.step {w : World} (h : Locked t w)
    (hlocktime : 0 <= c.requestLocktime.toInt) {call : TimedCall}
    (hclock : (w.advance call.advance).now < 2 ^ 63)
    (hwaits : ((w.advance call.advance).now : Int) <=
        t + c.requestLocktime.toInt ∨
      (call.request c euid w).1.fromCache = true) :
    Locked t (call.request c euid w).2 := by
  have hadvanced := h.advance call.advance
  rcases hwaits with hyoung | hcached
  · rcases (h.backsOff euid hlocktime hclock hyoung).contact with
      ⟨_, hlock, hnow⟩
    constructor
    · rw [hlock]
      exact hadvanced.lock
    · rw [hnow]
      exact hadvanced.past
  · rw [world_of_fromCache hcached]
    exact hadvanced

/-- Requests that wait do not renew the lock. -/
theorem Locked.after {w : World} (h : Locked t w)
    (hlocktime : 0 <= c.requestLocktime.toInt) {calls : List TimedCall}
    (hclock : (worldAfter c euid w calls).now < 2 ^ 63)
    (hwaits : Waits c euid (t + c.requestLocktime.toInt) w calls) :
    Locked t (worldAfter c euid w calls) := by
  induction calls generalizing w with
  | nil => exact h
  | cons call rest ih =>
      have hstep := now_le_request c euid w call
      have hrest := now_le_worldAfter c euid (call.request c euid w).2 rest
      have hnow : (w.advance call.advance).now < 2 ^ 63 :=
        Nat.lt_of_le_of_lt (Nat.le_trans hstep hrest) hclock
      exact ih (h.step hlocktime hnow hwaits.left) hclock hwaits.right

end Runs

/-- After a request that cannot connect, no request of the lock time contacts
the backend, and the first one after it that is not served from the cache
does. -/
theorem back_off [CurlEscape] (c : StnsConf) (euid : Nat) (w : World)
    (refused : TimedCall) (later : List TimedCall) (next : TimedCall)
    (hlocktime : 0 <= c.requestLocktime.toInt)
    (hresult : (refused.request c euid w).1.result = CurlCode.couldntConnect)
    (hcontact : (refused.request c euid w).1.contact ≠ .none)
    (hclock : ((worldAfter c euid (refused.request c euid w).2 later).advance
      next.advance).now < 2 ^ 63) :
    let locked := (refused.request c euid w).2
    let w' := worldAfter c euid locked later
    let asked := w'.advance next.advance
    let deadline := (locked.now : Int) + c.requestLocktime.toInt
    ((asked.now : Int) <= deadline ->
        (next.request c euid w').1.contact = .none ∧
          BacksOff c euid asked next (next.request c euid w')) ∧
      (Waits c euid deadline locked later -> deadline < asked.now ->
        (next.request c euid w').1.fromCache = false ->
          exists n, (next.request c euid w').1.contact = .http (n + 1)) := by
  dsimp only
  rcases lock_of_couldntConnect hresult hcontact with ⟨hlock, hwrapper⟩
  generalize (refused.request c euid w).2 = locked at hclock hlock ⊢
  have hlocked : Locked locked.now locked := ⟨hlock, Nat.le_refl _⟩
  have hlater : (worldAfter c euid locked later).now <=
      ((worldAfter c euid locked later).advance next.advance).now :=
    Nat.le_add_right _ _
  have hclock' := Nat.lt_of_le_of_lt hlater hclock
  constructor
  · intro hyoung
    have hwaits : Waits c euid (locked.now + c.requestLocktime.toInt) locked
        later := by
      apply waits_of_le
      omega
    have hbacks := (hlocked.after hlocktime hclock' hwaits).backsOff euid
      hlocktime hclock hyoung
    exact ⟨hbacks.contact.left, hbacks⟩
  · intro hwaits hold hmiss
    exact (hlocked.after hlocktime hclock' hwaits).contacts hlocktime hwrapper
      hclock hold hmiss

/-- A request to a server that takes no connection. -/
def unreachableCall (advance : Nat) : TimedCall :=
  ⟨advance, literal "users", ⟨defaultBufferSize, fun _ => 0, true⟩,
    ⟨fun _ => ⟨[], 0, CurlCode.couldntConnect⟩, none, 3⟩⟩

/-- A user's cache directory, without a lock. -/
def unlockedWorld : World :=
  ⟨0, ⟨AList.singleton (ascii "/var/cache/stns/1000")
    (.inode ⟨.directory 4096, 1000, dirMode, true, true, 0⟩)⟩, none⟩

/-- Refused 20 and 60 seconds after the lock, and contacted again after 61. -/
theorem back_off_unreachable :
    let locked := ((unreachableCall 5).request {} 1000 unlockedWorld).2
    let w := worldAfter {} 1000 locked [unreachableCall 20]
    locked.lock = some 8 ∧
      ((unreachableCall 40).request {} 1000 w).1.contact = .none ∧
      exists n, ((unreachableCall 41).request {} 1000 w).1.contact =
        .http (n + 1) := by
  dsimp only
  have hresult : ((unreachableCall 5).request {} 1000
      unlockedWorld).1.result = CurlCode.couldntConnect := by decide +kernel
  have hcontact : ((unreachableCall 5).request {} 1000
      unlockedWorld).1.contact ≠ .none := by decide +kernel
  have hrefused := back_off {} 1000 unlockedWorld (unreachableCall 5)
    [unreachableCall 20] (unreachableCall 40) (by decide) hresult hcontact
    (by decide +kernel)
  have hcontacts := back_off {} 1000 unlockedWorld (unreachableCall 5)
    [unreachableCall 20] (unreachableCall 41) (by decide) hresult hcontact
    (by decide +kernel)
  refine ⟨by decide +kernel, ?_, ?_⟩
  · exact (hrefused.left (by decide +kernel)).left
  · exact hcontacts.right ⟨.inl (by decide +kernel), trivial⟩
      (by decide +kernel) (by decide +kernel)

end Stns
