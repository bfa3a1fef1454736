import Mathlib.Data.Set.Insert
import Mathlib.Data.Set.Lattice
import Mathlib.Logic.Function.Basic
import Mathlib.Tactic.Common

/-!
# Threads that acquire and release mutexes

A call is the program of its lock steps: it tries a mutex and goes on one way
or the other, releases a mutex, or computes on the shared data and goes on with
what it found.  Any number of threads run such calls, one after another, and
their steps interleave.  A release frees the mutex whoever executes it.
-/

namespace Stns

/-- The lock steps of a call, over the mutexes {lit}`mutex` and the shared data
{lit}`data`. -/
inductive LockProgram (mutex data : Type) where
  | done
  | acquire (m : mutex) (onSuccess onFailure : LockProgram mutex data)
  | release (m : mutex) (next : LockProgram mutex data)
  | compute (update : data -> data) (next : data -> LockProgram mutex data)

/-- What a thread is doing: the call it runs, the rest of its program, and how
often the call has acquired and released each mutex. -/
structure LockThread (call mutex data : Type) where
  running : Option call
  program : LockProgram mutex data
  acquired : mutex -> Nat
  released : mutex -> Nat

structure LockState (thread call mutex data : Type) where
  owner : mutex -> Option thread
  shared : data
  threads : thread -> LockThread call mutex data

inductive LockAction (thread call : Type) where
  | start (t : thread) (k : call)
  | acquire (t : thread)
  | fail (t : thread)
  | release (t : thread)
  | compute (t : thread)

section Mutex

variable {thread call mutex data : Type} [DecidableEq thread]
  [DecidableEq mutex]

namespace LockThread

def idle : LockThread call mutex data :=
  ⟨none, .done, fun _ => 0, fun _ => 0⟩

/-- The thread is between an acquire of the mutex and its release. -/
def Inside (th : LockThread call mutex data) (m : mutex) : Prop :=
  th.released m < th.acquired m

/-- The data fits what the thread is running. -/
def Fits (fits : call -> data -> Prop) (th : LockThread call mutex data)
    (shared : data) : Prop :=
  forall k, th.running = some k -> fits k shared

end LockThread

namespace LockState

def initial (shared : data) : LockState thread call mutex data :=
  ⟨fun _ => none, shared, fun _ => LockThread.idle⟩

variable (s : LockState thread call mutex data)

def setThread (t : thread) (th : LockThread call mutex data) :
    LockState thread call mutex data :=
  { s with threads := Function.update s.threads t th }

def setOwner (m : mutex) (o : Option thread) :
    LockState thread call mutex data :=
  { s with owner := Function.update s.owner m o }

/-- One step of a thread; NULL where the thread cannot make it. -/
def step (code : call -> LockProgram mutex data) :
    LockAction thread call -> Option (LockState thread call mutex data)
  | .start t k =>
      match (s.threads t).program with
      | .done =>
          some (s.setThread t ⟨some k, code k, fun _ => 0, fun _ => 0⟩)
      | _ => none
  | .acquire t =>
      let th := s.threads t
      match th.program with
      | .acquire m onSuccess _ =>
          match s.owner m with
          | none =>
              some ((s.setOwner m (some t)).setThread t
                { th with
                  program := onSuccess
                  acquired :=
                    Function.update th.acquired m (th.acquired m + 1) })
          | some _ => none
      | _ => none
  | .fail t =>
      let th := s.threads t
      match th.program with
      | .acquire m _ onFailure =>
          match s.owner m with
          | none => none
          | some _ => some (s.setThread t { th with program := onFailure })
      | _ => none
  | .release t =>
      let th := s.threads t
      match th.program with
      | .release m next =>
          some ((s.setOwner m none).setThread t
            { th with
              program := next
              released :=
                Function.update th.released m (th.released m + 1) })
      | _ => none
  | .compute t =>
      let th := s.threads t
      match th.program with
      | .compute update next =>
          some { s.setThread t { th with program := next s.shared } with
            shared := update s.shared }
      | _ => none

/-- A run of steps from a state. -/
def run (code : call -> LockProgram mutex data) :
    LockState thread call mutex data -> List (LockAction thread call) ->
      Option (LockState thread call mutex data)
  | s, [] => some s
  | s, a :: rest => (s.step code a).bind (fun s => run code s rest)

/-- The step computes only on shared data that fits the call that computes. -/
def Fitting (fits : call -> data -> Prop) : LockAction thread call -> Prop
  | .compute t => (s.threads t).Fits fits s.shared
  | _ => True

/-- The states of the runs from a state all of whose steps fit. -/
inductive ReachedFitting (code : call -> LockProgram mutex data)
    (fits : call -> data -> Prop) :
    LockState thread call mutex data -> Prop where
  | refl : ReachedFitting code fits s
  | tail {s' s'' : LockState thread call mutex data}
      (a : LockAction thread call) :
      ReachedFitting code fits s' -> s'.Fitting fits a ->
        s'.step code a = some s'' -> ReachedFitting code fits s''

/-- What a lock discipline promises in a state. -/
structure LockDiscipline : Prop where
  releasedByOwner : forall t m next,
    (s.threads t).program = .release m next -> s.owner m = some t
  matchedAtReturn : forall t m, (s.threads t).program = .done ->
    (s.threads t).acquired m = (s.threads t).released m
  acquiredFirst : forall t m,
    (s.threads t).released m <= (s.threads t).acquired m
  exclusive : forall t t' m, (s.threads t).Inside m ->
    (s.threads t').Inside m -> t = t'

end LockState

/-!
## Balanced programs

A program is balanced for a set of held mutexes when it releases only what it
holds and holds nothing at its end, on every branch and for all data that fits.
Trying a mutex that the call itself holds can only fail.
-/

namespace LockProgram

def Balanced (fits : data -> Prop) :
    Set mutex -> LockProgram mutex data -> Prop
  | held, .done => held = ∅
  | held, .acquire m onSuccess onFailure =>
      (m ∉ held -> Balanced fits (insert m held) onSuccess) ∧
        Balanced fits held onFailure
  | held, .release m next => m ∈ held ∧ Balanced fits (held \ {m}) next
  | held, .compute _ next =>
      forall shared, fits shared -> Balanced fits held (next shared)

/-- Trying a mutex up to {lit}`retries` times more. -/
def tryAcquire (m : mutex) (onSuccess onFailure : LockProgram mutex data) :
    Nat -> LockProgram mutex data
  | 0 => .acquire m onSuccess onFailure
  | retries + 1 =>
      .acquire m onSuccess (tryAcquire m onSuccess onFailure retries)

omit [DecidableEq mutex] in
theorem balanced_tryAcquire {fits : data -> Prop} {held : Set mutex}
    {m : mutex} {onSuccess onFailure : LockProgram mutex data}
    (hsuccess : m ∉ held -> Balanced fits (insert m held) onSuccess)
    (hfailure : Balanced fits held onFailure) (retries : Nat) :
    Balanced fits held (tryAcquire m onSuccess onFailure retries) := by
  induction retries with
  | zero => exact ⟨hsuccess, hfailure⟩
  | succ retries ih => exact ⟨hsuccess, ih⟩

omit [DecidableEq mutex] in
theorem balanced_release {fits : data -> Prop} {held : Set mutex} {m : mutex}
    {next : LockProgram mutex data} (hm : m ∉ held)
    (hnext : Balanced fits held next) :
    Balanced fits (insert m held) (.release m next) := by
  refine ⟨Set.mem_insert m held, ?_⟩
  rw [Set.insert_sdiff_self_of_notMem hm]
  exact hnext

end LockProgram

/-!
## The invariant of balanced calls
-/

namespace LockState

/-- The mutexes that a thread owns. -/
def held (s : LockState thread call mutex data) (t : thread) : Set mutex :=
  {m | s.owner m = some t}

/-- Every thread can finish its call balanced, and has acquired once more than
it has released exactly the mutexes it owns. -/
structure LockInvariant (fits : call -> data -> Prop)
    (s : LockState thread call mutex data) : Prop where
  balanced : forall t, LockProgram.Balanced ((s.threads t).Fits fits)
    (s.held t) (s.threads t).program
  owned : forall t m, s.owner m = some t ->
    (s.threads t).acquired m = (s.threads t).released m + 1
  unowned : forall t m, s.owner m ≠ some t ->
    (s.threads t).acquired m = (s.threads t).released m

variable {s s' : LockState thread call mutex data}
  {code : call -> LockProgram mutex data} {fits : call -> data -> Prop}

omit [DecidableEq thread] [DecidableEq mutex] in
theorem lockInvariant_initial (shared : data) :
    LockInvariant fits
      (initial shared : LockState thread call mutex data) where
  balanced t := by
    show (initial shared : LockState thread call mutex data).held t = ∅
    ext m
    simp [held, initial]
  owned t m h := by simp [initial] at h
  unowned t m _ := rfl

omit [DecidableEq mutex] in
/-- A step of one thread keeps the invariant when it keeps the other threads'
mutexes theirs and the thread's own part of the invariant. -/
theorem LockInvariant.setThread (hinv : LockInvariant fits s) {t : thread}
    {th : LockThread call mutex data} {owner : mutex -> Option thread}
    {shared : data}
    (hothers : forall u, u ≠ t -> forall m,
      owner m = some u <-> s.owner m = some u)
    (hbalanced : LockProgram.Balanced (th.Fits fits)
      {m | owner m = some t} th.program)
    (howned : forall m, owner m = some t ->
      th.acquired m = th.released m + 1)
    (hunowned : forall m, owner m ≠ some t ->
      th.acquired m = th.released m) :
    LockInvariant fits
      (⟨owner, shared, Function.update s.threads t th⟩ :
        LockState thread call mutex data) := by
  constructor
  · intro u
    by_cases hu : u = t
    · subst hu
      simpa [held] using hbalanced
    · have hheld : held (⟨owner, shared, Function.update s.threads t th⟩ :
          LockState thread call mutex data) u = s.held u := by
        ext m
        exact hothers u hu m
      rw [hheld]
      simpa [hu] using hinv.balanced u
  · intro u m hm
    by_cases hu : u = t
    · subst hu
      simpa using howned m hm
    · simpa [hu] using hinv.owned u m ((hothers u hu m).mp hm)
  · intro u m hm
    by_cases hu : u = t
    · subst hu
      simpa using hunowned m hm
    · simpa [hu] using
        hinv.unowned u m (fun h => hm ((hothers u hu m).mpr h))

theorem step_cases {a : LockAction thread call}
    (h : s.step code a = some s') :
    (exists t k, a = .start t k ∧ (s.threads t).program = .done ∧
      s' = s.setThread t ⟨some k, code k, fun _ => 0, fun _ => 0⟩) ∨
    (exists t m onSuccess onFailure, a = .acquire t ∧
      (s.threads t).program = .acquire m onSuccess onFailure ∧
      s.owner m = none ∧
      s' = (s.setOwner m (some t)).setThread t
        { s.threads t with
          program := onSuccess
          acquired := Function.update (s.threads t).acquired m
            ((s.threads t).acquired m + 1) }) ∨
    (exists t m onSuccess onFailure, a = .fail t ∧
      (s.threads t).program = .acquire m onSuccess onFailure ∧
      s.owner m ≠ none ∧
      s' = s.setThread t { s.threads t with program := onFailure }) ∨
    (exists t m next, a = .release t ∧
      (s.threads t).program = .release m next ∧
      s' = (s.setOwner m none).setThread t
        { s.threads t with
          program := next
          released := Function.update (s.threads t).released m
            ((s.threads t).released m + 1) }) ∨
    (exists t update next, a = .compute t ∧
      (s.threads t).program = .compute update next ∧
      s' = { s.setThread t { s.threads t with program := next s.shared } with
        shared := update s.shared }) := by
  cases a with
  | start t k =>
      cases hp : (s.threads t).program with
      | done =>
          simp only [step, hp, Option.some.injEq] at h
          exact .inl ⟨t, k, rfl, hp, h.symm⟩
      | acquire => simp [step, hp] at h
      | release => simp [step, hp] at h
      | compute => simp [step, hp] at h
  | acquire t =>
      cases hp : (s.threads t).program with
      | acquire m onSuccess onFailure =>
          cases ho : s.owner m with
          | none =>
              simp only [step, hp, ho, Option.some.injEq] at h
              exact .inr (.inl ⟨t, m, onSuccess, onFailure, rfl, hp, ho,
                h.symm⟩)
          | some u => simp [step, hp, ho] at h
      | done => simp [step, hp] at h
      | release => simp [step, hp] at h
      | compute => simp [step, hp] at h
  | fail t =>
      cases hp : (s.threads t).program with
      | acquire m onSuccess onFailure =>
          cases ho : s.owner m with
          | none => simp [step, hp, ho] at h
          | some u =>
              simp only [step, hp, ho, Option.some.injEq] at h
              exact .inr (.inr (.inl ⟨t, m, onSuccess, onFailure, rfl, hp,
                by simp [ho], h.symm⟩))
      | done => simp [step, hp] at h
      | release => simp [step, hp] at h
      | compute => simp [step, hp] at h
  | release t =>
      cases hp : (s.threads t).program with
      | release m next =>
          simp only [step, hp, Option.some.injEq] at h
          exact .inr (.inr (.inr (.inl ⟨t, m, next, rfl, hp, h.symm⟩)))
      | done => simp [step, hp] at h
      | acquire => simp [step, hp] at h
      | compute => simp [step, hp] at h
  | compute t =>
      cases hp : (s.threads t).program with
      | compute update next =>
          simp only [step, hp, Option.some.injEq] at h
          exact .inr (.inr (.inr (.inr ⟨t, update, next, rfl, hp, h.symm⟩)))
      | done => simp [step, hp] at h
      | acquire => simp [step, hp] at h
      | release => simp [step, hp] at h

omit [DecidableEq mutex] in
theorem LockInvariant.start (hinv : LockInvariant fits s) {t : thread}
    {k : call} (hcode : LockProgram.Balanced (fits k) ∅ (code k))
    (hp : (s.threads t).program = .done) :
    LockInvariant fits
      (s.setThread t ⟨some k, code k, fun _ => 0, fun _ => 0⟩) := by
  have hbal := hinv.balanced t
  rw [hp] at hbal
  have hempty : s.held t = ∅ := hbal
  apply hinv.setThread
  · exact fun u _ m => Iff.rfl
  · have hfits : LockThread.Fits fits
        (⟨some k, code k, fun _ => 0, fun _ => 0⟩ :
          LockThread call mutex data) = fits k := by
      funext shared
      simp [LockThread.Fits]
    rw [hfits]
    rw [show {m | s.owner m = some t} = (∅ : Set mutex) from hempty]
    exact hcode
  · intro m hm
    have hmem : m ∈ s.held t := hm
    rw [hempty] at hmem
    exact absurd hmem (Set.notMem_empty m)
  · exact fun m _ => rfl

/-- The mutex was free, so the acquire takes it from nobody. -/
theorem LockInvariant.acquire (hinv : LockInvariant fits s) {t : thread}
    {m : mutex} {onSuccess onFailure : LockProgram mutex data}
    (hp : (s.threads t).program = .acquire m onSuccess onFailure)
    (ho : s.owner m = none) :
    LockInvariant fits
      ((s.setOwner m (some t)).setThread t
        { s.threads t with
          program := onSuccess
          acquired := Function.update (s.threads t).acquired m
            ((s.threads t).acquired m + 1) }) := by
  have hbal := hinv.balanced t
  rw [hp] at hbal
  have hfree : m ∉ s.held t := by simp [held, ho]
  apply hinv.setThread
  · intro u hu m'
    by_cases hm : m' = m
    · subst hm
      simp [setOwner, ho, Ne.symm hu]
    · simp [setOwner, hm]
  · have hheld : {m' | (s.setOwner m (some t)).owner m' = some t} =
        insert m (s.held t) := by
      ext m'
      by_cases hm : m' = m
      · subst hm
        simp [setOwner]
      · simp [setOwner, held, hm]
    rw [hheld]
    exact hbal.1 hfree
  · intro m' hm'
    by_cases hm : m' = m
    · subst hm
      simpa using hinv.unowned t m' (by simp [ho])
    · simpa [hm] using hinv.owned t m' (by simpa [setOwner, hm] using hm')
  · intro m' hm'
    by_cases hm : m' = m
    · subst hm
      simp [setOwner] at hm'
    · simpa [hm] using
        hinv.unowned t m' (by simpa [setOwner, hm] using hm')

theorem LockInvariant.release (hinv : LockInvariant fits s) {t : thread}
    {m : mutex} {next : LockProgram mutex data}
    (hp : (s.threads t).program = .release m next) :
    LockInvariant fits
      ((s.setOwner m none).setThread t
        { s.threads t with
          program := next
          released := Function.update (s.threads t).released m
            ((s.threads t).released m + 1) }) := by
  have hbal := hinv.balanced t
  rw [hp] at hbal
  have howner : s.owner m = some t := hbal.1
  apply hinv.setThread
  · intro u hu m'
    by_cases hm : m' = m
    · subst hm
      simp [setOwner, howner, Ne.symm hu]
    · simp [setOwner, hm]
  · have hheld : {m' | (s.setOwner m none).owner m' = some t} =
        s.held t \ {m} := by
      ext m'
      by_cases hm : m' = m
      · subst hm
        simp [setOwner]
      · simp [setOwner, held, hm]
    rw [hheld]
    exact hbal.2
  · intro m' hm'
    by_cases hm : m' = m
    · subst hm
      simp [setOwner] at hm'
    · simpa [hm] using hinv.owned t m' (by simpa [setOwner, hm] using hm')
  · intro m' hm'
    by_cases hm : m' = m
    · subst hm
      simpa using hinv.owned t m' howner
    · simpa [hm] using
        hinv.unowned t m' (by simpa [setOwner, hm] using hm')

theorem lockInvariant_step {a : LockAction thread call}
    (hcode : forall k, LockProgram.Balanced (fits k) ∅ (code k))
    (hinv : LockInvariant fits s) (hfit : s.Fitting fits a)
    (hstep : s.step code a = some s') :
    LockInvariant fits s' := by
  rcases step_cases hstep with
    ⟨t, k, -, hp, rfl⟩ | ⟨t, m, onSuccess, onFailure, -, hp, ho, rfl⟩ |
    ⟨t, m, onSuccess, onFailure, -, hp, -, rfl⟩ | ⟨t, m, next, -, hp, rfl⟩ |
    ⟨t, update, next, rfl, hp, rfl⟩
  · exact hinv.start (hcode k) hp
  · exact hinv.acquire hp ho
  · have hbal := hinv.balanced t
    rw [hp] at hbal
    exact hinv.setThread (fun u _ m => Iff.rfl) hbal.2 (hinv.owned t)
      (hinv.unowned t)
  · exact hinv.release hp
  · have hbal := hinv.balanced t
    rw [hp] at hbal
    exact hinv.setThread (fun u _ m => Iff.rfl) (hbal s.shared hfit)
      (hinv.owned t) (hinv.unowned t)

theorem lockInvariant_reached {shared : data}
    (hcode : forall k, LockProgram.Balanced (fits k) ∅ (code k))
    (h : ReachedFitting (initial shared) code fits s) :
    LockInvariant fits s := by
  induction h with
  | refl => exact lockInvariant_initial shared
  | tail a _ hfit hstep ih => exact lockInvariant_step hcode ih hfit hstep

omit [DecidableEq thread] [DecidableEq mutex] in
theorem LockInvariant.inside_iff (hinv : LockInvariant fits s) (t : thread)
    (m : mutex) :
    (s.threads t).Inside m <-> s.owner m = some t := by
  unfold LockThread.Inside
  constructor
  · intro hinside
    by_contra hne
    have hequal := hinv.unowned t m hne
    omega
  · intro howner
    have hmore := hinv.owned t m howner
    omega

omit [DecidableEq thread] [DecidableEq mutex] in
theorem LockInvariant.discipline (hinv : LockInvariant fits s) :
    s.LockDiscipline where
  releasedByOwner t m next hp := by
    have hbal := hinv.balanced t
    rw [hp] at hbal
    exact hbal.1
  matchedAtReturn t m hp := by
    have hbal := hinv.balanced t
    rw [hp] at hbal
    have hempty : s.held t = ∅ := hbal
    apply hinv.unowned t m
    intro howner
    have hmem : m ∈ s.held t := howner
    rw [hempty] at hmem
    exact hmem
  acquiredFirst t m := by
    by_cases howner : s.owner m = some t
    · have hmore := hinv.owned t m howner
      omega
    · exact Nat.le_of_eq (hinv.unowned t m howner).symm
  exclusive t t' m hin hin' := by
    have howner := (hinv.inside_iff t m).mp hin
    have howner' := (hinv.inside_iff t' m).mp hin'
    rw [howner] at howner'
    exact Option.some.inj howner'

/-!
## Runs that break the discipline
-/

/-- Some run from the state breaks the discipline. -/
def Breakable (code : call -> LockProgram mutex data)
    (s : LockState thread call mutex data) : Prop :=
  exists actions s', s.run code actions = some s' ∧ ¬ s'.LockDiscipline

theorem Breakable.of_step {a : LockAction thread call}
    (hstep : s.step code a = some s') (h : Breakable code s') :
    Breakable code s := by
  rcases h with ⟨actions, s'', hrun, hbroken⟩
  refine ⟨a :: actions, s'', ?_, hbroken⟩
  simp [run, hstep, hrun]

/-- A thread is about to release a mutex that it does not own. -/
theorem Breakable.of_release {t : thread} {m : mutex}
    {next : LockProgram mutex data}
    (hp : (s.threads t).program = .release m next)
    (howner : s.owner m ≠ some t) :
    Breakable code s :=
  ⟨[], s, rfl, fun h => howner (h.releasedByOwner t m next hp)⟩

theorem exists_start (code : call -> LockProgram mutex data) {t : thread}
    (k : call) (hp : (s.threads t).program = .done) :
    exists s', s.step code (.start t k) = some s' ∧
      (s'.threads t).program = code k ∧ s'.owner = s.owner ∧
      s'.shared = s.shared := by
  have hstep : s.step code (.start t k) = some (s.setThread t
      ⟨some k, code k, fun _ => 0, fun _ => 0⟩) := by
    simp only [step, hp]
  refine ⟨_, hstep, ?_, rfl, rfl⟩
  simp [setThread]

theorem exists_acquire (code : call -> LockProgram mutex data)
    {t : thread} {m : mutex} {onSuccess onFailure : LockProgram mutex data}
    (hp : (s.threads t).program = .acquire m onSuccess onFailure)
    (hfree : s.owner m = none) :
    exists s', s.step code (.acquire t) = some s' ∧
      (s'.threads t).program = onSuccess ∧ s'.owner m = some t ∧
      s'.shared = s.shared := by
  have hstep : s.step code (.acquire t) = some
      ((s.setOwner m (some t)).setThread t
        { s.threads t with
          program := onSuccess
          acquired := Function.update (s.threads t).acquired m
            ((s.threads t).acquired m + 1) }) := by
    simp only [step, hp, hfree]
  refine ⟨_, hstep, ?_, ?_, rfl⟩
  · simp [setThread]
  · simp [setThread, setOwner]

theorem exists_release (code : call -> LockProgram mutex data)
    {t : thread} {m : mutex} {next : LockProgram mutex data}
    (hp : (s.threads t).program = .release m next) :
    exists s', s.step code (.release t) = some s' ∧
      (s'.threads t).program = next ∧ s'.owner m = none ∧
      s'.shared = s.shared := by
  have hstep : s.step code (.release t) = some
      ((s.setOwner m none).setThread t
        { s.threads t with
          program := next
          released := Function.update (s.threads t).released m
            ((s.threads t).released m + 1) }) := by
    simp only [step, hp]
  refine ⟨_, hstep, ?_, ?_, rfl⟩
  · simp [setThread]
  · simp [setThread, setOwner]

theorem exists_compute (code : call -> LockProgram mutex data)
    {t : thread} {update : data -> data} {next : data -> LockProgram mutex data}
    (hp : (s.threads t).program = .compute update next) :
    exists s', s.step code (.compute t) = some s' ∧
      (s'.threads t).program = next s.shared ∧ s'.owner = s.owner ∧
      s'.shared = update s.shared := by
  have hstep : s.step code (.compute t) = some
      { s.setThread t { s.threads t with program := next s.shared } with
        shared := update s.shared } := by
    simp only [step, hp]
  refine ⟨_, hstep, ?_, rfl, rfl⟩
  simp [setThread]

end LockState

end Mutex

end Stns
