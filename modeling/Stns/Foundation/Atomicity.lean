import Stns.Foundation.Mutex

/-!
# Critical sections are atomic

Threads share data that one mutex protects: every call takes the mutex, computes
in any number of steps, and releases it at its end.  However the steps of the
threads interleave, the data is what the critical sections make of it one after
the other, in the order of their releases.
-/

namespace Stns

namespace LockProgram

variable {mutex data value : Type}

/-- A step that reads the data. -/
def read (f : data -> value) (next : value -> LockProgram mutex data) :
    LockProgram mutex data :=
  .compute id (fun d => next (f d))

/-- A step that changes the data. -/
def write (update : data -> data) (next : LockProgram mutex data) :
    LockProgram mutex data :=
  .compute update (fun _ => next)

/-- The steps behind an acquire up to the release that ends the call.  The held
mutex may be tried again, which fails, and the computations are allowed ones. -/
def Section (m : mutex) (allowed : (data -> data) -> Prop) :
    LockProgram mutex data -> Prop
  | .done => False
  | .acquire m' _ onFailure => m' = m ∧ Section m allowed onFailure
  | .release m' next => m' = m ∧ next = .done
  | .compute update next =>
      allowed update ∧ forall d, Section m allowed (next d)

/-- A call that tries the mutex until it has it, and then runs the section. -/
def Entering (m : mutex) (body : LockProgram mutex data) :
    LockProgram mutex data -> Prop
  | .done => True
  | .acquire m' onSuccess onFailure =>
      m' = m ∧ onSuccess = body ∧ Entering m body onFailure
  | .release _ _ => False
  | .compute _ _ => False

/-- What a section makes of the data if nobody else touches it. -/
def effect : LockProgram mutex data -> data -> data
  | .done, d => d
  | .acquire _ _ onFailure, d => effect onFailure d
  | .release _ _, d => d
  | .compute update next, d => effect (next d) (update d)

@[simp] theorem effect_read (f : data -> value)
    (next : value -> LockProgram mutex data) (d : data) :
    effect (read f next) d = effect (next (f d)) d :=
  rfl

@[simp] theorem effect_write (update : data -> data)
    (next : LockProgram mutex data) (d : data) :
    effect (write update next) d = effect next (update d) :=
  rfl

theorem section_read {m : mutex} {allowed : (data -> data) -> Prop}
    (hid : allowed id) (f : data -> value)
    {next : value -> LockProgram mutex data}
    (h : forall v, Section m allowed (next v)) :
    Section m allowed (read f next) :=
  ⟨hid, fun d => h (f d)⟩

theorem section_write {m : mutex} {allowed : (data -> data) -> Prop}
    {update : data -> data} (hupdate : allowed update)
    {next : LockProgram mutex data} (h : Section m allowed next) :
    Section m allowed (write update next) :=
  ⟨hupdate, fun _ => h⟩

theorem entering_tryAcquire (m : mutex) (body : LockProgram mutex data)
    (retries : Nat) : Entering m body (tryAcquire m body .done retries) := by
  induction retries with
  | zero => exact ⟨rfl, rfl, trivial⟩
  | succ retries ih => exact ⟨rfl, rfl, ih⟩

theorem section_tryAcquire {m : mutex} {allowed : (data -> data) -> Prop}
    (onSuccess : LockProgram mutex data) {onFailure : LockProgram mutex data}
    (h : Section m allowed onFailure) (retries : Nat) :
    Section m allowed (tryAcquire m onSuccess onFailure retries) := by
  induction retries with
  | zero => exact ⟨rfl, h⟩
  | succ retries ih => exact ⟨rfl, ih⟩

theorem effect_tryAcquire (m : mutex) (onSuccess onFailure :
    LockProgram mutex data) (retries : Nat) (d : data) :
    effect (tryAcquire m onSuccess onFailure retries) d =
      effect onFailure d := by
  induction retries with
  | zero => rfl
  | succ retries ih => exact ih

/-- What no computation repairs was in order before. -/
theorem Section.reflects {m : mutex} {allowed : (data -> data) -> Prop}
    {good : data -> Prop}
    (hgood : forall update d, allowed update -> good (update d) -> good d)
    {p : LockProgram mutex data} (h : p.Section m allowed) {d : data}
    (heffect : good (p.effect d)) : good d := by
  induction p generalizing d with
  | done => exact heffect
  | acquire m' onSuccess onFailure _ ih => exact ih h.right heffect
  | release => exact heffect
  | compute update next ih =>
      exact hgood update d h.left (ih d (h.right d) heffect)

end LockProgram

section Atomicity

open LockState

variable {thread call mutex data : Type} [DecidableEq thread]
  [DecidableEq mutex] {code : call -> LockProgram mutex data}
  {body : call -> LockProgram mutex data} {m : mutex}
  {allowed : (data -> data) -> Prop} {s s' : LockState thread call mutex data}

/-- The calls whose sections end in a run, in the order of their releases. -/
def commits (code : call -> LockProgram mutex data) :
    LockState thread call mutex data -> List (LockAction thread call) ->
      List call
  | _, [] => []
  | s, a :: rest =>
      match s.step code a with
      | none => []
      | some s' =>
          match a with
          | .release t => (s.threads t).running.toList ++ commits code s' rest
          | _ => commits code s' rest

/-- Every call that does anything tries the mutex first, and then runs its
section. -/
def Sectioned (code body : call -> LockProgram mutex data) (m : mutex)
    (allowed : (data -> data) -> Prop) : Prop :=
  forall k, LockProgram.Entering m (body k) (code k) ∧
    (code k ≠ .done -> (body k).Section m allowed)

/-- A thread that does not hold the mutex is done or still tries. -/
def Waiting (code body : call -> LockProgram mutex data) (m : mutex)
    (th : LockThread call mutex data) : Prop :=
  th.program = .done ∨
    exists k, th.running = some k ∧ code k ≠ .done ∧
      LockProgram.Entering m (body k) th.program

/-- The data is what the ended sections left, up to what the thread that holds
the mutex has done so far. -/
structure AtomicInvariant (code body : call -> LockProgram mutex data)
    (m : mutex) (allowed : (data -> data) -> Prop) (committed : data)
    (s : LockState thread call mutex data) : Prop where
  free : s.owner m = none -> s.shared = committed
  holding : forall t, s.owner m = some t -> exists k,
    (s.threads t).running = some k ∧ code k ≠ .done ∧
      (s.threads t).program.Section m allowed ∧
      (s.threads t).program.effect s.shared = (body k).effect committed
  waiting : forall t, s.owner m ≠ some t ->
    Waiting code body m (s.threads t)

omit [DecidableEq thread] [DecidableEq mutex] in
theorem atomicInvariant_initial (shared : data) :
    AtomicInvariant code body m allowed shared
      (initial shared : LockState thread call mutex data) where
  free _ := rfl
  holding := nofun
  waiting _ _ := .inl rfl

variable {committed : data}

omit [DecidableEq mutex] in
theorem AtomicInvariant.start (hcode : Sectioned code body m allowed)
    (h : AtomicInvariant code body m allowed committed s) {t : thread}
    {k : call} (hdone : (s.threads t).program = .done) :
    AtomicInvariant code body m allowed committed
      (s.setThread t ⟨some k, code k, fun _ => 0, fun _ => 0⟩) := by
  have hout : s.owner m ≠ some t := by
    intro howner
    rcases h.holding t howner with ⟨k', _, _, hsection, _⟩
    rw [hdone] at hsection
    exact hsection
  refine ⟨h.free, ?_, ?_⟩
  · intro u hu
    have hne : u ≠ t := fun heq => hout (heq ▸ hu)
    have hsame := h.holding u hu
    simpa [setThread, hne] using hsame
  · intro u hu
    by_cases heq : u = t
    · rw [heq]
      by_cases hnone : code k = .done
      · left
        simpa [setThread] using hnone
      · right
        refine ⟨k, ?_, hnone, ?_⟩
        · simp [setThread]
        · simpa [setThread] using (hcode k).left
    · simpa [setThread, heq] using h.waiting u hu

theorem AtomicInvariant.acquire (hcode : Sectioned code body m allowed)
    (h : AtomicInvariant code body m allowed committed s) {t : thread}
    {m' : mutex} {onSuccess onFailure : LockProgram mutex data}
    (hp : (s.threads t).program = .acquire m' onSuccess onFailure)
    (hfree : s.owner m' = none) {acquired : mutex -> Nat} :
    AtomicInvariant code body m allowed committed
      ((s.setOwner m' (some t)).setThread t
        { s.threads t with program := onSuccess, acquired := acquired }) := by
  have hout : s.owner m ≠ some t := by
    intro howner
    rcases h.holding t howner with ⟨k', _, _, hsection, _⟩
    rw [hp] at hsection
    rw [hsection.left, howner] at hfree
    cases hfree
  rcases h.waiting t hout with hdone | ⟨k, hrunning, hcalled, hentering⟩
  · rw [hdone] at hp
    cases hp
  · rw [hp] at hentering
    rcases hentering with ⟨rfl, rfl, _⟩
    refine ⟨?_, ?_, ?_⟩
    · intro hnone
      simp [setThread, setOwner] at hnone
    · intro u hu
      have heq : t = u := by simpa [setThread, setOwner] using hu
      subst heq
      refine ⟨k, ?_, hcalled, ?_, ?_⟩
      · simpa [setThread] using hrunning
      · simpa [setThread] using (hcode k).right hcalled
      · rw [← h.free hfree]
        simp [setThread, setOwner]
    · intro u hu
      have hne : u ≠ t := by
        intro heq
        apply hu
        simp [setThread, setOwner, heq]
      have hbefore : s.owner m' ≠ some u := by
        rw [hfree]
        exact Option.some_ne_none u |>.symm
      simpa [setThread, setOwner, hne] using h.waiting u hbefore

omit [DecidableEq mutex] in
theorem AtomicInvariant.fail (h : AtomicInvariant code body m allowed committed
    s) {t : thread} {m' : mutex} {onSuccess onFailure : LockProgram mutex data}
    (hp : (s.threads t).program = .acquire m' onSuccess onFailure) :
    AtomicInvariant code body m allowed committed
      (s.setThread t { s.threads t with program := onFailure }) := by
  refine ⟨h.free, ?_, ?_⟩
  · intro u hu
    rcases h.holding u hu with ⟨k, hrunning, hcalled, hsection, heffect⟩
    by_cases heq : u = t
    · subst heq
      rw [hp] at hsection heffect
      refine ⟨k, ?_, hcalled, ?_, ?_⟩
      · simpa [setThread] using hrunning
      · simpa [setThread] using hsection.right
      · simpa [setThread, LockProgram.effect] using heffect
    · exact ⟨k, by simpa [setThread, heq] using hrunning, hcalled,
        by simpa [setThread, heq] using hsection,
        by simpa [setThread, heq] using heffect⟩
  · intro u hu
    by_cases heq : u = t
    · subst heq
      rcases h.waiting u hu with hdone | ⟨k, hrunning, hcalled, hentering⟩
      · rw [hdone] at hp
        cases hp
      · rw [hp] at hentering
        right
        refine ⟨k, ?_, hcalled, ?_⟩
        · simpa [setThread] using hrunning
        · simpa [setThread] using hentering.right.right
    · simpa [setThread, heq] using h.waiting u hu

/-- A release ends a section, which then has had its whole effect. -/
theorem AtomicInvariant.release (h : AtomicInvariant code body m allowed
    committed s) {t : thread} {m' : mutex} {next : LockProgram mutex data}
    (hp : (s.threads t).program = .release m' next)
    {released : mutex -> Nat} :
    exists k, (s.threads t).running = some k ∧ code k ≠ .done ∧
      AtomicInvariant code body m allowed ((body k).effect committed)
        ((s.setOwner m' none).setThread t
          { s.threads t with program := next, released := released }) := by
  have howner : s.owner m = some t := by
    by_contra hout
    rcases h.waiting t hout with hdone | ⟨k, _, _, hentering⟩
    · rw [hdone] at hp
      cases hp
    · rw [hp] at hentering
      exact hentering
  rcases h.holding t howner with ⟨k, hrunning, hcalled, hsection, heffect⟩
  rw [hp] at hsection heffect
  rcases hsection with ⟨rfl, rfl⟩
  refine ⟨k, hrunning, hcalled, ?_, ?_, ?_⟩
  · intro _
    exact heffect
  · intro u hu
    simp [setThread, setOwner] at hu
  · intro u _
    by_cases heq : u = t
    · left
      simp [setThread, heq]
    · have hne : s.owner m' ≠ some u := by
        rw [howner]
        intro hsame
        exact heq (Option.some.inj hsame).symm
      simpa [setThread, setOwner, heq] using h.waiting u hne

omit [DecidableEq mutex] in
theorem AtomicInvariant.compute (h : AtomicInvariant code body m allowed
    committed s) {t : thread} {update : data -> data}
    {next : data -> LockProgram mutex data}
    (hp : (s.threads t).program = .compute update next) :
    AtomicInvariant code body m allowed committed
      { s.setThread t { s.threads t with program := next s.shared } with
        shared := update s.shared } := by
  have howner : s.owner m = some t := by
    by_contra hout
    rcases h.waiting t hout with hdone | ⟨k, _, _, hentering⟩
    · rw [hdone] at hp
      cases hp
    · rw [hp] at hentering
      exact hentering
  rcases h.holding t howner with ⟨k, hrunning, hcalled, hsection, heffect⟩
  rw [hp] at hsection heffect
  refine ⟨?_, ?_, ?_⟩
  · intro hnone
    change s.owner m = none at hnone
    rw [howner] at hnone
    cases hnone
  · intro u hu
    change s.owner m = some u at hu
    rw [howner] at hu
    cases hu
    refine ⟨k, ?_, hcalled, ?_, ?_⟩
    · simpa [setThread] using hrunning
    · simpa [setThread] using hsection.right s.shared
    · simpa [setThread, LockProgram.effect] using heffect
  · intro u hu
    change s.owner m ≠ some u at hu
    have hne : u ≠ t := by
      intro heq
      rw [heq] at hu
      exact hu howner
    simpa [setThread, hne] using h.waiting u hu

/-- What a run of steps leaves is what the sections that ended in it leave, one
after the other. -/
theorem atomicInvariant_run (hcode : Sectioned code body m allowed)
    (actions : List (LockAction thread call))
    (h : AtomicInvariant code body m allowed committed s)
    (hrun : s.run code actions = some s') :
    AtomicInvariant code body m allowed
        ((commits code s actions).foldl (fun d k => (body k).effect d)
          committed) s' ∧
      forall k, k ∈ commits code s actions -> code k ≠ .done := by
  induction actions generalizing s committed with
  | nil =>
      cases hrun
      exact ⟨h, nofun⟩
  | cons a rest ih =>
      rcases Option.bind_eq_some_iff.mp hrun with ⟨next, hstep, hrest⟩
      unfold commits
      rw [hstep]
      rcases step_cases hstep with
        ⟨t, k, rfl, hdone, rfl⟩ |
        ⟨t, m', onSuccess, onFailure, rfl, hp, hfree, rfl⟩ |
        ⟨t, m', onSuccess, onFailure, rfl, hp, _, rfl⟩ |
        ⟨t, m', rest', rfl, hp, rfl⟩ | ⟨t, update, rest', rfl, hp, rfl⟩
      · exact ih (h.start hcode hdone) hrest
      · exact ih (h.acquire hcode hp hfree) hrest
      · exact ih (h.fail hp) hrest
      · rcases h.release hp with ⟨k, hrunning, hcalled, hnext⟩
        rcases ih hnext hrest with ⟨hinv, hall⟩
        have hlist : (s.threads t).running.toList = [k] := by
          rw [hrunning]
          rfl
        change AtomicInvariant code body m allowed
            (((s.threads t).running.toList ++ commits code _ rest).foldl _ _) s'
          ∧ forall k', k' ∈ (s.threads t).running.toList ++ commits code _ rest
            -> code k' ≠ .done
        rw [hlist]
        refine ⟨hinv, ?_⟩
        intro k' hk'
        rcases List.mem_cons.mp hk' with rfl | hmem
        · exact hcalled
        · exact hall k' hmem
      · exact ih (h.compute hp) hrest

omit [DecidableEq thread] [DecidableEq mutex] in
/-- If no computation repairs the data, and the sections one after the other
leave it in order, it is in order in every state. -/
theorem AtomicInvariant.good
    (h : AtomicInvariant code body m allowed committed s) (good : data -> Prop)
    (hgood : forall update d, allowed update -> good (update d) -> good d)
    (hcommitted : good committed)
    (hnext : forall k, code k ≠ .done -> good ((body k).effect committed)) :
    good s.shared := by
  cases howner : s.owner m with
  | none =>
      rw [h.free howner]
      exact hcommitted
  | some t =>
      rcases h.holding t howner with ⟨k, _, hcalled, hsection, heffect⟩
      apply hsection.reflects hgood
      rw [heffect]
      exact hnext k hcalled

end Atomicity

end Stns
