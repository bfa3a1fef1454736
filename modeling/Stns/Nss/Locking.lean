import Stns.Foundation.Mutex
import Stns.Nss.Enumeration
import Stns.Nss.Lookup

/-!
# The enumeration mutexes

Each database has one mutex for its enumeration state.  A call is reduced to
its lock steps; what it does with the enumeration state in between is the
computation of the functions it models.  The group builder releases the mutex
of its database on three early exits, and a lookup runs it without the mutex.
-/

namespace Stns

/-- The enumeration states of the three databases. -/
abbrev Entries := Database -> EntryState

abbrev EntriesProgram := LockProgram Database Entries

/-- {lit}`STNS_LOCK_RETRY` -/
def stnsLockRetry : Nat := 3

def pthreadMutexRetrylock (db : Database)
    (onSuccess onFailure : EntriesProgram) : EntriesProgram :=
  LockProgram.tryAcquire db onSuccess onFailure stnsLockRetry

/-- The lock steps of {lit}`inner_nss_stns_setXent`. -/
def innerSetentProgram (db : Database) (data : Option Json)
    (next : EntriesProgram) : EntriesProgram :=
  pthreadMutexRetrylock db
    (.compute
      (fun entries => Function.update entries db
        (innerNssStnsSetent true data (entries db)).2)
      (fun _ => .release db next))
    next

/-- The lock steps of {lit}`_nss_stns_setXent`; it has none when the
configuration or the response is not there. -/
def setentProgram (db : Database) (fetched : Option (Option Json))
    (next : EntriesProgram) : EntriesProgram :=
  match fetched with
  | none => next
  | some data => innerSetentProgram db data next

/-- The lock steps of {lit}`_nss_stns_endXent`. -/
def endentProgram (db : Database) : EntriesProgram :=
  pthreadMutexRetrylock db
    (.compute
      (fun entries => Function.update entries db
        (nssStnsEndent true (entries db)).2)
      (fun _ => .release db .done))
    .done

/-- The release steps inside a record builder. -/
def builderProgram {record : Type} (db : Database) (r : Reply record)
    (next : EntriesProgram) : EntriesProgram :=
  if r.unlocked then .release db next else next

section Calls

variable (M : Machine)

/-- {lit}`inner_nss_stns_getXent_r` on the state its caller has locked, up to
the nested {lit}`_nss_stns_setXent`. -/
def lockedGetent (c : StnsConf) (db : Database) (p : Packing db.Record)
    (st : EntryState) : Reply db.Record × EntryState :=
  innerNssStnsGetentR M c db (fun st => (.unavail, st)) st p

/-- The lock steps of {lit}`_nss_stns_getXent_r`, with the configuration
loaded.  Without loaded entries it calls {lit}`_nss_stns_setXent` while it
holds the mutex. -/
def getentProgram (c : StnsConf) (db : Database)
    (fetched : Option (Option Json)) (p : Packing db.Record) :
    EntriesProgram :=
  pthreadMutexRetrylock db
    (.compute
      (fun entries =>
        Function.update entries db (lockedGetent M c db p (entries db)).2)
      (fun entries =>
        match jsonValueGetArray (entries db).entries with
        | none => setentProgram db fetched (.release db .done)
        | some _ =>
            builderProgram db (lockedGetent M c db p (entries db)).1
              (.release db .done)))
    .done

/-- The lock steps of a lookup: those of the record builder, if it gets that
far. -/
def lookupProgram (c : StnsConf) (db : Database) (key : LookupKey)
    (root : Option Json) (p : Packing db.Record) : EntriesProgram :=
  .compute id (fun _ =>
    match lookup M c db key root p with
    | none => .done
    | some r => builderProgram db r .done)

/-- A call of one of the functions.  A fetched document is the response of the
server, as far as it parses. -/
inductive LockCall where
  | setent (db : Database) (fetched : Option (Option Json))
  | endent (db : Database)
  | getent (c : StnsConf) (db : Database) (fetched : Option (Option Json))
      (p : Packing db.Record)
  | lookup (c : StnsConf) (db : Database) (key : LookupKey)
      (root : Option Json) (p : Packing db.Record)

namespace LockCall

def database : LockCall -> Database
  | setent db _ => db
  | endent db => db
  | getent _ db _ _ => db
  | lookup _ db _ _ _ => db

def program : LockCall -> EntriesProgram
  | setent db fetched => setentProgram db fetched .done
  | endent db => endentProgram db
  | getent c db fetched p => getentProgram M c db fetched p
  | lookup c db key root p => lookupProgram M c db key root p

end LockCall

/-!
## When a builder releases the mutex
-/

/-- The entries and buffers that end the group builder at one of its releasing
exits: no string name, or room for the two strings but not for the members. -/
def GroupExit (entry : Option JsonObject) (buflen : Nat) : Prop :=
  jsonObjectGetString entry Key.name = none ∨
    (attributesSize (groupAttributes entry) <= buflen ∧
      buflen < attributesSize (groupAttributes entry) + memberAreaSize entry)

def BuilderExit (db : Database) (entry : Option JsonObject)
    (buflen : Nat) : Prop :=
  db = .group ∧ GroupExit entry buflen

variable {M}

theorem groupEnsure_unlocked_iff {c : StnsConf} {entry : Option JsonObject}
    (p : Packing Group) :
    (groupEnsure M c entry p).unlocked = true <-> GroupExit entry p.buflen := by
  unfold GroupExit
  cases hname : jsonObjectGetString entry Key.name with
  | none => simp [groupEnsure_nameless hname]
  | some name =>
      rcases Nat.lt_or_ge p.buflen (attributesSize (groupAttributes entry))
        with hless | hattrs
      · have hunlocked :=
          (groupEnsure_short (M := M) (c := c) hname hless).right.right
        simp [hunlocked, Nat.not_le.mpr hless]
      · by_cases hroom : p.buflen <
            attributesSize (groupAttributes entry) + memberAreaSize entry
        · have hunlocked := (groupEnsure_shortMembers (M := M) (c := c)
            hname hattrs hroom).right.right
          simp [hunlocked, hattrs, hroom]
        · have hunlocked := (groupEnsure_ok (M := M) (c := c) hname
            (Nat.le_of_not_lt hroom)).right.right.left
          simp [hunlocked, hroom]

theorem ensure_unlocked_iff {c : StnsConf} {db : Database}
    (entry : Option JsonObject) (p : Packing db.Record) :
    (db.ensure M c entry p).unlocked = true <->
      BuilderExit db entry p.buflen := by
  unfold BuilderExit
  cases db with
  | passwd =>
      have hunlocked : (passwdEnsure M c entry p).unlocked = false :=
        passwdEnsure_unlocked p
      simp [Database.ensure, hunlocked]
  | group =>
      simpa [Database.ensure] using groupEnsure_unlocked_iff (M := M) p
  | spwd =>
      have hunlocked : (shadowEnsure entry p).unlocked = false :=
        shadowEnsure_unlocked p
      simp [Database.ensure, hunlocked]

variable (M)

/-- A call keeps away from the releasing exits: the object a lookup finds, or
the entry at the index of the enumeration, does not end the builder there. -/
def LockCall.Fits : LockCall -> Entries -> Prop
  | .setent _ _, _ => True
  | .endent _, _ => True
  | .getent _ db _ p, entries =>
      forall items, jsonValueGetArray (entries db).entries = some items ->
        (entries db).entryIdx < items.length ->
          ¬ BuilderExit db
            (jsonArrayGetObject (some items) (entries db).entryIdx) p.buflen
  | .lookup c db key root p, _ =>
      forall document leaf, root = some document ->
        scan (key.matchMethod M c db) (objectsOf (elementsOf document)) =
            .found leaf ->
          ¬ BuilderExit db (some leaf) p.buflen

variable {M}

theorem lookup_unlocked_iff {c : StnsConf} {db : Database} {key : LookupKey}
    {root : Option Json} {p : Packing db.Record} (entries : Entries) :
    (exists r, lookup M c db key root p = some r ∧ r.unlocked = true) <->
      ¬ (LockCall.lookup c db key root p).Fits M entries := by
  cases root with
  | none => simp [LockCall.Fits, lookup, stnsEnsureBy, Packing.reply]
  | some document =>
      rw [lookup_eq_scan]
      unfold LockCall.Fits
      cases hscan : scan (key.matchMethod M c db)
          (objectsOf (elementsOf document)) with
      | crash => simp [Scan.reply, hscan]
      | notFound => simp [Scan.reply, hscan, Packing.reply]
      | found leaf => simp [Scan.reply, hscan, ensure_unlocked_iff]

theorem getent_unlocked_iff {c : StnsConf} {db : Database}
    {fetched : Option (Option Json)} {p : Packing db.Record}
    {entries : Entries} {items : List Json}
    (hitems : jsonValueGetArray (entries db).entries = some items) :
    (lockedGetent M c db p (entries db)).1.unlocked = true <->
      ¬ (LockCall.getent c db fetched p).Fits M entries := by
  unfold LockCall.Fits lockedGetent innerNssStnsGetentR
  simp only [hitems, jsonArrayGetCount_some, ne_eq, not_true_eq_false,
    if_false]
  by_cases hidx : (entries db).entryIdx >= items.length
  · rw [if_pos hidx]
    simp [Packing.reply, Nat.not_lt.mpr hidx]
  · rw [if_neg hidx]
    have hlt : (entries db).entryIdx < items.length := Nat.lt_of_not_le hidx
    have hunlocked := ensure_unlocked_iff (M := M) (c := c)
      (jsonArrayGetObject (some items) (entries db).entryIdx) p
    split
    · simpa [hlt] using hunlocked
    · simpa [hlt] using hunlocked

/-!
## Every call is balanced
-/

theorem balanced_setentProgram {fits : Entries -> Prop} {held : Set Database}
    {db : Database} {fetched : Option (Option Json)} {next : EntriesProgram}
    (hnext : LockProgram.Balanced fits held next) :
    LockProgram.Balanced fits held (setentProgram db fetched next) := by
  cases fetched with
  | none => exact hnext
  | some data =>
      apply LockProgram.balanced_tryAcquire
      · intro hfree entries _
        exact LockProgram.balanced_release hfree hnext
      · exact hnext

theorem balanced_endentProgram {fits : Entries -> Prop} (db : Database) :
    LockProgram.Balanced fits ∅ (endentProgram db) := by
  apply LockProgram.balanced_tryAcquire
  · intro hfree entries _
    exact LockProgram.balanced_release hfree rfl
  · rfl

theorem balanced_getentProgram {c : StnsConf} {db : Database}
    {fetched : Option (Option Json)} {p : Packing db.Record} :
    LockProgram.Balanced ((LockCall.getent c db fetched p).Fits M) ∅
      (getentProgram M c db fetched p) := by
  apply LockProgram.balanced_tryAcquire
  · intro hfree entries hfits
    have hrelease : LockProgram.Balanced
        ((LockCall.getent c db fetched p).Fits M) (insert db ∅)
        (.release db .done) :=
      LockProgram.balanced_release hfree rfl
    cases hitems : jsonValueGetArray (entries db).entries with
    | none =>
        simp only [hitems]
        exact balanced_setentProgram hrelease
    | some items =>
        simp only [hitems]
        have hkept : ¬ (lockedGetent M c db p (entries db)).1.unlocked = true :=
          fun h => (getent_unlocked_iff hitems).mp h hfits
        unfold builderProgram
        rw [if_neg hkept]
        exact hrelease
  · rfl

theorem balanced_lookupProgram {c : StnsConf} {db : Database}
    {key : LookupKey} {root : Option Json} {p : Packing db.Record} :
    LockProgram.Balanced ((LockCall.lookup c db key root p).Fits M) ∅
      (lookupProgram M c db key root p) := by
  intro entries hfits
  cases hreply : lookup M c db key root p with
  | none =>
      rfl
  | some r =>
      have hkept : ¬ r.unlocked = true := fun h =>
        (lookup_unlocked_iff entries).mp ⟨r, hreply, h⟩ hfits
      simp only [builderProgram]
      rw [if_neg hkept]
      rfl

theorem balanced_program (k : LockCall) :
    LockProgram.Balanced (k.Fits M) ∅ (k.program M) := by
  cases k with
  | setent db fetched => exact balanced_setentProgram rfl
  | endent db => exact balanced_endentProgram db
  | getent c db fetched p => exact balanced_getentProgram
  | lookup c db key root p => exact balanced_lookupProgram

/-!
## The discipline, and what breaks it
-/

open LockState

variable {thread : Type} [DecidableEq thread]

/-- A lookup whose builder takes a releasing exit is about to release a mutex
that it never acquired. -/
theorem lookup_breakable
    {s : LockState thread LockCall Database Entries} {t : thread}
    {c : StnsConf} {db : Database} {key : LookupKey} {root : Option Json}
    {p : Packing db.Record} (hidle : (s.threads t).program = .done)
    (howner : s.owner db ≠ some t)
    (hunfit : ¬ (LockCall.lookup c db key root p).Fits M s.shared) :
    Breakable (LockCall.program M) s := by
  rcases (lookup_unlocked_iff s.shared).mpr hunfit with ⟨r, hreply, hunlocked⟩
  rcases exists_start (LockCall.program M)
    (LockCall.lookup c db key root p) hidle with
    ⟨s₁, hstart, hp₁, howner₁, _⟩
  rcases exists_compute (LockCall.program M) hp₁ with
    ⟨s₂, hcompute, hp₂, howner₂, _⟩
  simp only [hreply, builderProgram, hunlocked, if_true] at hp₂
  apply Breakable.of_step hstart
  apply Breakable.of_step hcompute
  apply Breakable.of_release hp₂
  rw [howner₂, howner₁]
  exact howner

/-- An enumeration step whose builder takes a releasing exit releases a second
time on its way out. -/
theorem getent_breakable
    {s : LockState thread LockCall Database Entries} {t : thread}
    {c : StnsConf} {db : Database} {fetched : Option (Option Json)}
    {p : Packing db.Record} (hidle : (s.threads t).program = .done)
    (hfree : s.owner db = none)
    (hunfit : ¬ (LockCall.getent c db fetched p).Fits M s.shared) :
    Breakable (LockCall.program M) s := by
  cases hitems : jsonValueGetArray (s.shared db).entries with
  | none =>
      exfalso
      apply hunfit
      intro items hsome
      rw [hitems] at hsome
      cases hsome
  | some items =>
      have hunlocked :
          (lockedGetent M c db p (s.shared db)).1.unlocked = true :=
        (getent_unlocked_iff hitems).mpr hunfit
      rcases exists_start (LockCall.program M)
        (LockCall.getent c db fetched p) hidle with
        ⟨s₁, hstart, hp₁, howner₁, hshared₁⟩
      have hfree₁ : s₁.owner db = none := by rw [howner₁, hfree]
      rcases exists_acquire (LockCall.program M) hp₁ hfree₁ with
        ⟨s₂, hacquire, hp₂, _, hshared₂⟩
      rcases exists_compute (LockCall.program M) hp₂ with
        ⟨s₃, hcompute, hp₃, _, _⟩
      rw [hshared₂, hshared₁] at hp₃
      simp only [hitems, builderProgram, hunlocked, if_true] at hp₃
      rcases exists_release (LockCall.program M) hp₃ with
        ⟨s₄, hrelease, hp₄, howner₄, _⟩
      apply Breakable.of_step hstart
      apply Breakable.of_step hacquire
      apply Breakable.of_step hcompute
      apply Breakable.of_step hrelease
      apply Breakable.of_release hp₄
      simp [howner₄]

/-- Threads keep the lock discipline in every run in which no builder takes a
releasing exit, and any call that would take one can break it. -/
theorem lockDiscipline_unless_exit (M : Machine) (shared : Entries)
    {s : LockState thread LockCall Database Entries}
    (hreached : ReachedFitting (initial shared) (LockCall.program M)
      (LockCall.Fits M) s) :
    s.LockDiscipline ∧
      forall (t : thread) (k : LockCall), (s.threads t).program = .done ->
        s.owner k.database = none -> ¬ k.Fits M s.shared ->
          Breakable (LockCall.program M) s := by
  have hinv := lockInvariant_reached balanced_program hreached
  refine ⟨hinv.discipline, ?_⟩
  intro t k hidle hfree hunfit
  cases k with
  | setent db fetched => exact absurd trivial hunfit
  | endent db => exact absurd trivial hunfit
  | getent c db fetched p => exact getent_breakable hidle hfree hunfit
  | lookup c db key root p =>
      have hfree' : s.owner db = none := hfree
      exact lookup_breakable hidle (by simp [hfree']) hunfit

/-- A named group in a large enough buffer stays away from the exits. -/
theorem named_group_fits (entries : Entries) :
    (LockCall.lookup {} .group (.id 1)
      (some (.array [.object
        [(Key.id, .number 1), (Key.name, .string (ascii "group1"))]]))
      (Database.group.blankPacking 1024)).Fits Machine.wrapping entries := by
  intro document leaf hdocument hscan
  cases hdocument
  cases hscan
  unfold BuilderExit GroupExit
  decide

theorem lockDiscipline_unless_exit_named_group :
    exists s, (initial (fun _ => EntryState.unloaded)).run
        (LockCall.program Machine.wrapping)
        [.start 0 (.lookup {} .group (.id 1)
          (some (.array [.object
            [(Key.id, .number 1), (Key.name, .string (ascii "group1"))]]))
          (Database.group.blankPacking 1024)), .compute 0] =
        some (s : LockState Nat LockCall Database Entries) ∧
      s.LockDiscipline := by
  have hstart : ReachedFitting
      (initial (fun _ => EntryState.unloaded) :
        LockState Nat LockCall Database Entries)
      (LockCall.program Machine.wrapping) (LockCall.Fits Machine.wrapping)
      (LockState.setThread (initial (fun _ => EntryState.unloaded)) 0
        ⟨some _, _, fun _ => 0, fun _ => 0⟩) :=
    .tail (.start 0 (.lookup {} .group (.id 1)
      (some (.array [.object
        [(Key.id, .number 1), (Key.name, .string (ascii "group1"))]]))
      (Database.group.blankPacking 1024))) .refl trivial rfl
  refine ⟨_, rfl, ?_⟩
  refine (lockDiscipline_unless_exit Machine.wrapping
    (fun _ => EntryState.unloaded) (.tail (.compute 0) hstart ?_ rfl)).left
  intro k hk
  cases hk
  exact named_group_fits _

/-- While one thread loads the groups, a lookup of a group without a name lets
a second one in. -/
theorem nameless_group_lets_second_thread_in :
    exists s, (initial (fun _ => EntryState.unloaded)).run
        (LockCall.program Machine.wrapping)
        [.start 0 (.setent .group (some none)), .acquire 0,
          .start 1 (.lookup {} .group (.id 1)
            (some (.array [.object [(Key.id, .number 1)]]))
            (Database.group.blankPacking 1024)), .compute 1, .release 1,
          .start 2 (.setent .group (some none)), .acquire 2] =
        some (s : LockState (Fin 3) LockCall Database Entries) ∧
      (s.threads 0).Inside .group ∧ (s.threads 2).Inside .group ∧
      ¬ s.LockDiscipline := by
  refine ⟨_, rfl, ?_, ?_, ?_⟩
  · exact Nat.zero_lt_one
  · exact Nat.zero_lt_one
  · intro h
    have hsame := h.exclusive 0 2 .group Nat.zero_lt_one Nat.zero_lt_one
    cases hsame

end Calls

end Stns
