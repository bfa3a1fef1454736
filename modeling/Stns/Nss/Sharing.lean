import Stns.Foundation.Atomicity
import Stns.Nss.Locking
import Stns.Nss.Rewind
import Stns.Nss.Session

/-!
# Threads that share an enumeration

The enumeration state of a database is a pointer to a parsed document and an
index, two static variables.  Every read and every write of one of them is a
step of its own here, and so is every access to the document, which a set or an
end call of another thread may have freed; only the reads that a builder makes
of one entry, with the mutex held, are a single step.
-/

namespace Stns

/-- The static variables {lit}`entries` and {lit}`entry_idx` (an {lit}`int`:
documents have fewer than 2^31 elements), the documents allocated so far, and
what the calls that held the mutex returned.  A document that was freed is NULL;
{lit}`intact` is lost when one is used or freed once more. -/
structure SharedEntries (record : Type) where
  entries : Option Nat
  entryIdx : Nat
  documents : List (Option Json)
  intact : Bool
  log : List (EnumReply record)

namespace SharedEntries

variable {record : Type}

def start : SharedEntries record :=
  ⟨none, 0, [], true, []⟩

def document (d : SharedEntries record) (i : Nat) : Option Json :=
  d.documents[i]?.join

def touch (i : Nat) (d : SharedEntries record) : SharedEntries record :=
  { d with intact := d.intact && (d.document i).isSome }

def free (i : Nat) (d : SharedEntries record) : SharedEntries record :=
  { d.touch i with documents := d.documents.set i none }

def allocate (root : Json) (d : SharedEntries record) : SharedEntries record :=
  { d with documents := d.documents ++ [some root] }

def setEntries (p : Option Nat) (d : SharedEntries record) :
    SharedEntries record :=
  { d with entries := p }

def setEntryIdx (idx : Nat) (d : SharedEntries record) :
    SharedEntries record :=
  { d with entryIdx := idx }

def answer (reply : EnumReply record) (d : SharedEntries record) :
    SharedEntries record :=
  { d with log := d.log ++ [reply] }

/-- The enumeration state that the variables stand for. -/
def state (d : SharedEntries record) : EntryState :=
  ⟨d.entries.bind d.document, d.entryIdx⟩

/-- Nothing freed was used, and the loaded document is the only one that is not
freed. -/
structure Sound (d : SharedEntries record) : Prop where
  intact : d.intact = true
  live : forall i, (d.document i).isSome = true <-> d.entries = some i

end SharedEntries

abbrev SharedProgram (record : Type) :=
  LockProgram Database (SharedEntries record)

section Programs

open LockProgram SharedEntries

variable {record : Type} (M : Machine)

/-!
## The calls, one access after the other
-/

/-- {lit}`json_value_free(entries)` -/
def freeEntries (next : SharedProgram record) : SharedProgram record :=
  read entries (fun
    | none => next
    | some i => write (free i) next)

/-- The document is freed unless the variables are as they started, and the
variables are reset. -/
def resetEntries (next : SharedProgram record) : SharedProgram record :=
  let reset := write (setEntryIdx 0) (write (setEntries none) next)
  read entries (fun
    | some _ => freeEntries reset
    | none =>
        read entryIdx (fun idx =>
          if idx ≠ 0 then freeEntries reset else reset))

/-- {lit}`inner_nss_stns_setXent` behind the lock; {lit}`leave` releases it. -/
def innerSetentSteps (data : Option Json)
    (leave : NssStatus -> SharedProgram record) : SharedProgram record :=
  resetEntries
    (match data with
    | none => leave .unavail
    | some root =>
        read (fun d => d.documents.length) (fun i =>
          write (allocate root)
            (write (setEntries (some i)) (leave .success))))

/-- The end of a call that holds the mutex. -/
def leaveWith (db : Database) (reply : EnumReply record) :
    SharedProgram record :=
  write (answer reply) (.release db .done)

/-- {lit}`_nss_stns_setXent` as {lit}`inner_nss_stns_getXent_r` calls it. -/
def nestedSetentSteps (db : Database) (f : Fetch)
    (next : NssStatus -> SharedProgram record) : SharedProgram record :=
  match f.config with
  | none => next .unavail
  | some _ =>
      if f.result ≠ CurlCode.ok then
        next (if f.statusCode = stnsHttpNotfound then .notFound else .unavail)
      else
        tryAcquire db
          (innerSetentSteps f.document
            (fun status => .release db (next status)))
          (next .unavail) stnsLockRetry

/-- An access to the array behind a pointer, which may be NULL. -/
def readArray (p : Option Nat)
    (next : Option JsonArray -> SharedProgram record) : SharedProgram record :=
  match p with
  | none => next none
  | some i =>
      .compute (touch i) (fun d => next (jsonValueGetArray (d.document i)))

/-- {lit}`inner_nss_stns_getXent_r` with the array it has read.  The builder
reads the entry under the mutex, so its reads of it are one step. -/
def serveSteps (c : StnsConf) (db : Database) (p : Packing db.Record)
    (arrayEntries : Option Nat) : SharedProgram db.Record :=
  read entryIdx (fun idx =>
    readArray arrayEntries (fun items =>
      if idx >= jsonArrayGetCount items then
        leaveWith db (.entry ({ p with errno := enoent }.reply .notFound))
      else
        read entryIdx (fun idx =>
          readArray arrayEntries (fun items =>
            let r := db.ensure M c (jsonArrayGetObject items idx) p
            let leave :=
              if r.status = .success then
                read entryIdx (fun idx =>
                  write (setEntryIdx (idx + 1)) (leaveWith db (.entry r)))
              else leaveWith db (.entry r)
            if r.unlocked then .release db leave else leave))))

/-- {lit}`inner_nss_stns_getXent_r` -/
def innerGetentSteps (c : StnsConf) (db : Database) (f : Fetch)
    (p : Packing db.Record) : SharedProgram db.Record :=
  read entries (fun pointer =>
    readArray pointer (fun items =>
      match items with
      | none =>
          nestedSetentSteps db f (fun status =>
            if status ≠ .success then
              leaveWith db (.entry (p.reply status))
            else serveSteps M c db p none)
      | some _ => serveSteps M c db p pointer))

/-- The steps of a call behind its lock. -/
def heldSteps (db : Database) :
    SessionCall db.Record -> SharedProgram db.Record
  | .set f =>
      innerSetentSteps f.document
        (fun status => leaveWith db (.status status))
  | .get f p =>
      match f.config with
      | none => .done
      | some c => innerGetentSteps M c db f p
  | .endent => resetEntries (leaveWith db (.status .success))

/-- Whether the call comes to its lock: a set call needs the response, a get
call the configuration. -/
def Locks {record : Type} : SessionCall record -> Prop
  | .set f => f.Served
  | .get f _ => f.config.isSome = true
  | .endent => True

instance {record : Type} (k : SessionCall record) : Decidable (Locks k) := by
  cases k <;> unfold Locks <;> infer_instance

/-- The steps of a public enumeration function. -/
def callSteps (db : Database) (k : SessionCall db.Record) :
    SharedProgram db.Record :=
  if Locks k then tryAcquire db (heldSteps M db k) .done stnsLockRetry
  else .done

/-- What a sequence of calls of one thread returns. -/
def sessionReplies (db : Database) :
    Session -> List (SessionCall db.Record) -> List (EnumReply db.Record)
  | _, [] => []
  | s, call :: rest =>
      (sessionStep M db s call).1 ::
        sessionReplies db (sessionStep M db s call).2 rest

end Programs

/-!
## What a call does while it holds the mutex
-/

section Effects

open LockProgram SharedEntries

variable {record : Type} {M : Machine} {db : Database}
  {d : SharedEntries record}

theorem SharedEntries.Sound.loaded (h : d.Sound) {i : Nat}
    (hi : d.entries = some i) : exists root, d.document i = some root := by
  exact Option.isSome_iff_exists.mp ((h.live i).mpr hi)

theorem document_free (i j : Nat) :
    (free i d).document j = if i = j then none else d.document j := by
  unfold SharedEntries.document free
  by_cases h : i = j
  · rw [if_pos h, h]
    by_cases hlt : j < d.documents.length
    · simp [hlt]
    · simp [hlt]
  · simp [h]

theorem document_allocate (root : Json) (j : Nat) :
    (allocate root d).document j =
      if j = d.documents.length then some root else d.document j := by
  unfold SharedEntries.document allocate
  by_cases h : j = d.documents.length
  · rw [if_pos h, h]
    simp
  · rw [if_neg h]
    by_cases hlt : j < d.documents.length
    · simp [List.getElem?_append_left hlt]
    · have hge : (d.documents ++ [some root]).length <= j := by
        rw [List.length_append, List.length_singleton]
        omega
      rw [List.getElem?_eq_none hge,
        List.getElem?_eq_none (Nat.le_of_not_lt hlt)]

/-- The variables are reset, and no document is left. -/
theorem effect_resetEntries (h : d.Sound) (next : SharedProgram record) :
    exists d', effect (resetEntries next) d = effect next d' ∧ d'.Sound ∧
      d'.entries = none ∧ d'.entryIdx = 0 ∧ d'.log = d.log := by
  cases hentries : d.entries with
  | some i =>
      rcases h.loaded hentries with ⟨root, hroot⟩
      refine ⟨setEntries none (setEntryIdx 0 (free i d)), ?_, ?_, rfl, rfl,
        rfl⟩
      · simp [resetEntries, freeEntries, hentries]
      · constructor
        · simp [setEntries, setEntryIdx, free, touch, h.intact, hroot]
        · intro j
          change ((free i d).document j).isSome = true <-> none = some j
          rw [document_free]
          split
          · simp
          · rename_i hne
            have hlive := h.live j
            rw [hentries] at hlive
            simpa [hne] using hlive
  | none =>
      refine ⟨setEntries none (setEntryIdx 0 d), ?_, ?_, rfl, rfl, rfl⟩
      · simp only [resetEntries, effect_read, hentries]
        split
        · simp [freeEntries, hentries]
        · simp
      · constructor
        · exact h.intact
        · intro j
          have hlive := h.live j
          rw [hentries] at hlive
          exact hlive

/-- The data stands for the state of a session, and one call has returned. -/
structure Answered (d : SharedEntries record) (st : EntryState)
    (reply : EnumReply record) (d' : SharedEntries record) : Prop where
  sound : d'.Sound
  state : d'.state = st
  log : d'.log = d.log ++ [reply]

theorem answered_leave {db : Database} {reply : EnumReply record}
    {d' : SharedEntries record} {st : EntryState} (hsound : d'.Sound)
    (hstate : d'.state = st) (hlog : d'.log = d.log) :
    Answered d st reply (effect (leaveWith db reply) d') where
  sound := ⟨hsound.intact, hsound.live⟩
  state := hstate
  log := by
    show d'.log ++ [reply] = _
    rw [hlog]

/-- A document is allocated and its pointer stored. -/
theorem SharedEntries.Sound.store (h : d.Sound) (hentries : d.entries = none)
    (root : Json) :
    (setEntries (some d.documents.length) (allocate root d)).Sound := by
  constructor
  · exact h.intact
  · intro j
    change ((allocate root d).document j).isSome = true <->
      some d.documents.length = some j
    rw [document_allocate]
    split
    · rename_i heq
      simp [heq]
    · rename_i hne
      have hlive := h.live j
      rw [hentries] at hlive
      simpa [Ne.symm hne] using hlive

theorem effect_innerSetent (h : d.Sound) (data : Option Json) :
    Answered d (innerNssStnsSetent true data d.state).2
      (.status (innerNssStnsSetent true data d.state).1)
      (effect (innerSetentSteps data
        (fun status => leaveWith db (.status status))) d) := by
  unfold innerSetentSteps
  cases data with
  | none =>
      dsimp only
      rcases effect_resetEntries h (leaveWith db (.status .unavail)) with
        ⟨d', heffect, hsound, hentries, hidx, hlog⟩
      rw [heffect]
      apply answered_leave hsound _ hlog
      unfold SharedEntries.state
      rw [hentries, hidx]
      rfl
  | some root =>
      dsimp only
      rcases effect_resetEntries h (read (fun d => d.documents.length)
        (fun i => write (allocate root) (write (setEntries (some i))
          (leaveWith db (.status .success))))) with
        ⟨d', heffect, hsound, hentries, hidx, hlog⟩
      rw [heffect, effect_read, effect_write, effect_write]
      have hstored := hsound.store hentries root
      refine answered_leave hstored ?_ hlog
      change EntryState.mk ((allocate root d').document d'.documents.length)
        d'.entryIdx = _
      rw [document_allocate, if_pos rfl, hidx]
      rfl

theorem effect_endent (h : d.Sound) :
    Answered d EntryState.unloaded (.status .success)
      (effect (resetEntries (leaveWith db (.status .success))) d) := by
  rcases effect_resetEntries h (leaveWith db (.status .success)) with
    ⟨d', heffect, hsound, hentries, hidx, hlog⟩
  rw [heffect]
  apply answered_leave hsound _ hlog
  unfold SharedEntries.state
  rw [hentries, hidx]
  rfl

theorem effect_nestedSetent (f : Fetch) (st : EntryState)
    (next : NssStatus -> SharedProgram record) :
    effect (nestedSetentSteps db f next) d =
      effect (next (nestedSetent f st).1) d := by
  unfold nestedSetentSteps nestedSetent nssStnsSetent
  cases f.config with
  | none => rfl
  | some c =>
      dsimp only
      split
      · rfl
      · rw [effect_tryAcquire, retrylock_held]
        rfl

theorem nestedSetent_fails (f : Fetch) (st : EntryState) :
    (nestedSetent f st).1 ≠ .success ∧ (nestedSetent f st).2 = st := by
  refine ⟨?_, congrArg Session.st (setent_of_locked f st).left⟩
  unfold nestedSetent nssStnsSetent
  cases f.config with
  | none => exact NssStatus.noConfusion
  | some c =>
      dsimp only
      split
      · split
        · exact NssStatus.noConfusion
        · exact NssStatus.noConfusion
      · rw [retrylock_held]
        exact NssStatus.noConfusion

theorem touch_loaded (h : d.Sound) {i : Nat} (hi : d.entries = some i) :
    touch i d = d := by
  unfold touch
  rw [(h.live i).mpr hi, Bool.and_true]

theorem state_entries {i : Nat} (hi : d.entries = some i) :
    d.state.entries = d.document i := by
  unfold SharedEntries.state
  rw [hi]
  rfl

theorem effect_readArray (h : d.Sound)
    (next : Option JsonArray -> SharedProgram record) :
    effect (readArray d.entries next) d =
      effect (next (jsonValueGetArray d.state.entries)) d := by
  cases hentries : d.entries with
  | none =>
      have hnone : d.state.entries = none := by
        unfold SharedEntries.state
        rw [hentries]
        rfl
      rw [hnone]
      rfl
  | some i =>
      change effect (next (jsonValueGetArray (d.document i))) (touch i d) = _
      rw [touch_loaded h hentries, state_entries hentries]

section Getent

variable {d : SharedEntries db.Record} {c : StnsConf}

theorem not_unlocked (hdb : db ≠ .group) (entry : Option JsonObject)
    (p : Packing db.Record) : ¬ (db.ensure M c entry p).unlocked = true :=
  fun hunlocked => hdb ((ensure_unlocked_iff entry p).mp hunlocked).left

/-- The entry at the index is built and the index moves on. -/
theorem effect_serve (h : d.Sound) (hdb : db ≠ .group) (f : Fetch)
    (p : Packing db.Record) {items : List Json}
    (hitems : jsonValueGetArray d.state.entries = some items) :
    let next := innerNssStnsGetentR M c db (nestedSetent f) d.state p
    Answered d next.2 (.entry next.1)
      (effect (serveSteps M c db p d.entries) d) := by
  have hidx : d.state.entryIdx = d.entryIdx := rfl
  unfold serveSteps innerNssStnsGetentR
  rw [effect_read, effect_readArray h, hitems]
  dsimp only
  rw [if_neg (not_not_intro rfl), hidx]
  split
  · exact answered_leave h rfl rfl
  · rw [effect_read, effect_readArray h, hitems]
    rw [if_neg (not_unlocked hdb _ p)]
    split
    · rw [effect_read, effect_write]
      exact answered_leave ⟨h.intact, h.live⟩ rfl rfl
    · exact answered_leave h rfl rfl

theorem effect_innerGetent (h : d.Sound) (hdb : db ≠ .group) (f : Fetch)
    (p : Packing db.Record) :
    let next := innerNssStnsGetentR M c db (nestedSetent f) d.state p
    Answered d next.2 (.entry next.1)
      (effect (innerGetentSteps M c db f p) d) := by
  unfold innerGetentSteps
  rw [effect_read, effect_readArray h]
  cases hitems : jsonValueGetArray d.state.entries with
  | some items =>
      exact effect_serve h hdb f p hitems
  | none =>
      dsimp only
      rcases nestedSetent_fails f d.state with ⟨hfails, hsame⟩
      rw [effect_nestedSetent f d.state, if_pos hfails]
      unfold innerNssStnsGetentR
      rw [hitems]
      dsimp only
      rw [if_pos hfails, hsame]
      exact answered_leave h rfl rfl

/-- A call that comes to hold the mutex does what it does to a session. -/
theorem effect_heldSteps (h : d.Sound) (hdb : db ≠ .group)
    {k : SessionCall db.Record} (hlocks : Locks k) :
    Answered d (sessionStep M db ⟨d.state, false⟩ k).2.st
      (sessionStep M db ⟨d.state, false⟩ k).1
      (effect (heldSteps M db k) d) := by
  cases k with
  | set f =>
      rcases Option.isSome_iff_exists.mp hlocks.left with ⟨c, hconfig⟩
      have hstep : nssStnsSetent f ⟨d.state, false⟩ =
          ((innerNssStnsSetent true f.document d.state).1,
            ⟨(innerNssStnsSetent true f.document d.state).2, false⟩) := by
        unfold nssStnsSetent
        rw [hconfig]
        dsimp only
        rw [if_neg (not_not_intro hlocks.right), retrylock_free]
        rfl
      unfold sessionStep heldSteps
      dsimp only
      rw [hstep]
      exact effect_innerSetent h f.document
  | get f p =>
      rcases Option.isSome_iff_exists.mp hlocks with ⟨c, hconfig⟩
      unfold sessionStep heldSteps
      dsimp only
      rw [getent_of_config hconfig, hconfig]
      exact effect_innerGetent h hdb f p
  | endent =>
      unfold sessionStep heldSteps
      dsimp only
      rw [endent_eq]
      exact effect_endent h

end Getent

end Effects

open LockProgram SharedEntries

/-!
## Every run of any number of threads
-/

section Sections

/-- A step that nothing can use to make a broken heap whole. -/
def Wears {record : Type}
    (update : SharedEntries record -> SharedEntries record) : Prop :=
  forall d, (update d).intact = true -> d.intact = true

variable {record : Type} {db : Database} {next : SharedProgram record}

theorem wears_id : Wears (id : SharedEntries record -> _) :=
  fun _ h => h

theorem wears_touch (i : Nat) :
    Wears (touch i : SharedEntries record -> SharedEntries record) :=
  fun _ h => (Bool.and_eq_true_iff.mp h).left

theorem wears_free (i : Nat) :
    Wears (free i : SharedEntries record -> SharedEntries record) :=
  fun _ h => (Bool.and_eq_true_iff.mp h).left

theorem section_freeEntries (h : Section db Wears next) :
    Section db Wears (freeEntries next) := by
  apply section_read wears_id
  intro v
  cases v with
  | none => exact h
  | some i => exact section_write (wears_free i) h

theorem section_resetEntries (h : Section db Wears next) :
    Section db Wears (resetEntries next) := by
  have hreset : Section db Wears
      (write (setEntryIdx 0) (write (setEntries none) next)) :=
    section_write (fun _ hintact => hintact)
      (section_write (fun _ hintact => hintact) h)
  unfold resetEntries
  apply section_read wears_id
  intro v
  cases v with
  | some i => exact section_freeEntries hreset
  | none =>
      apply section_read wears_id
      intro idx
      split
      · exact section_freeEntries hreset
      · exact hreset

theorem section_leaveWith (reply : EnumReply record) :
    Section db Wears (leaveWith db reply) :=
  section_write (fun _ hintact => hintact) ⟨rfl, rfl⟩

theorem section_innerSetent (data : Option Json)
    {leave : NssStatus -> SharedProgram record}
    (h : forall status, Section db Wears (leave status)) :
    Section db Wears (innerSetentSteps data leave) := by
  apply section_resetEntries
  cases data with
  | none => exact h .unavail
  | some root =>
      apply section_read wears_id
      intro i
      exact section_write (fun _ hintact => hintact)
        (section_write (fun _ hintact => hintact) (h .success))

theorem section_nestedSetent (f : Fetch)
    {next : NssStatus -> SharedProgram record}
    (h : forall status, Section db Wears (next status)) :
    Section db Wears (nestedSetentSteps db f next) := by
  unfold nestedSetentSteps
  cases f.config with
  | none => exact h .unavail
  | some c =>
      dsimp only
      split
      · exact h _
      · exact section_tryAcquire _ (h .unavail) stnsLockRetry

theorem section_readArray (p : Option Nat)
    {next : Option JsonArray -> SharedProgram record}
    (h : forall items, Section db Wears (next items)) :
    Section db Wears (readArray p next) := by
  cases p with
  | none => exact h none
  | some i => exact ⟨wears_touch i, fun d => h _⟩

end Sections

section Runs

variable {M : Machine} {db : Database}

theorem section_serve (hdb : db ≠ .group) (c : StnsConf)
    (p : Packing db.Record) (arrayEntries : Option Nat) :
    Section db Wears (serveSteps M c db p arrayEntries) := by
  apply section_read wears_id
  intro idx
  apply section_readArray
  intro items
  split
  · exact section_leaveWith _
  · apply section_read wears_id
    intro idx
    apply section_readArray
    intro items
    dsimp only
    rw [if_neg (not_unlocked hdb _ p)]
    split
    · apply section_read wears_id
      intro idx
      exact section_write (fun _ hintact => hintact) (section_leaveWith _)
    · exact section_leaveWith _

theorem section_heldSteps (hdb : db ≠ .group) {k : SessionCall db.Record}
    (hlocks : Locks k) : Section db Wears (heldSteps M db k) := by
  cases k with
  | set f => exact section_innerSetent f.document (fun _ => section_leaveWith _)
  | get f p =>
      rcases Option.isSome_iff_exists.mp hlocks with ⟨c, hconfig⟩
      unfold heldSteps
      dsimp only
      rw [hconfig]
      apply section_read wears_id
      intro pointer
      apply section_readArray
      intro items
      cases items with
      | none =>
          apply section_nestedSetent
          intro status
          split
          · exact section_leaveWith _
          · exact section_serve hdb c p none
      | some items => exact section_serve hdb c p pointer
  | endent => exact section_resetEntries (section_leaveWith _)

theorem locks_of_called {k : SessionCall db.Record}
    (h : callSteps M db k ≠ .done) : Locks k := by
  by_contra hnot
  apply h
  unfold callSteps
  rw [if_neg hnot]

theorem sectioned_callSteps (hdb : db ≠ .group) :
    Sectioned (callSteps M db) (heldSteps M db) db Wears := by
  intro k
  constructor
  · unfold callSteps
    split
    · exact entering_tryAcquire db _ stnsLockRetry
    · trivial
  · intro hcalled
    exact section_heldSteps hdb (locks_of_called hcalled)

/-- What the calls of a list leave that hold the mutex one after the other. -/
theorem foldl_heldSteps (hdb : db ≠ .group)
    (calls : List (SessionCall db.Record))
    (hlocks : forall k, k ∈ calls -> Locks k) {d : SharedEntries db.Record}
    (h : d.Sound) {s : Session} (hs : SessionInvariant s)
    (hstate : s.st = d.state) :
    let d' := calls.foldl (fun d k => (heldSteps M db k).effect d) d
    d'.Sound ∧ d'.state = (sessionAfter M db s calls).st ∧
      d'.log = d.log ++ sessionReplies M db s calls := by
  induction calls generalizing d s with
  | nil => exact ⟨h, hstate.symm, (List.append_nil _).symm⟩
  | cons k rest ih =>
      have hsame : s = ⟨d.state, false⟩ := by
        rw [← hstate, ← hs.free]
      have hanswered := effect_heldSteps (M := M) h hdb
        (hlocks k List.mem_cons_self)
      rw [← hsame] at hanswered
      have hnext : SessionInvariant (sessionStep M db s k).2 := hs.step k
      have hrest := ih (fun k hk => hlocks k (List.mem_cons_of_mem _ hk))
        hanswered.sound hnext hanswered.state.symm
      refine ⟨hrest.left, hrest.right.left, ?_⟩
      rw [List.foldl_cons, hrest.right.right, hanswered.log, List.append_assoc]
      rfl

end Runs

/-!
## What a whole run leaves
-/

/-- The variables and the replies are those of a single thread that makes the
calls, and no document but the loaded one is left. -/
structure OneByOne (M : Machine) (db : Database)
    (calls : List (SessionCall db.Record)) (d : SharedEntries db.Record) :
    Prop where
  state : d.state = (sessionAfter M db Session.start calls).st
  log : d.log = sessionReplies M db Session.start calls
  live : forall i, (d.document i).isSome = true <-> d.entries = some i

section Sharing

open LockState

variable {thread : Type} [DecidableEq thread]

/-- Whatever the threads do, nothing frees a document twice or uses a freed
one, and whenever the mutex is free, the calls that held it have had the effect
they have one by one, in the order in which they released it. -/
theorem calls_atomic (M : Machine) {db : Database} (hdb : db ≠ .group)
    (actions : List (LockAction thread (SessionCall db.Record)))
    {s : LockState thread (SessionCall db.Record) Database
      (SharedEntries db.Record)}
    (hrun : (initial SharedEntries.start).run (callSteps M db) actions =
      some s) :
    s.shared.intact = true ∧
      (s.owner db = none ->
        OneByOne M db (commits (callSteps M db) (initial SharedEntries.start)
          actions) s.shared) := by
  have hcode := sectioned_callSteps (M := M) hdb
  rcases atomicInvariant_run hcode actions
    (atomicInvariant_initial SharedEntries.start) hrun with ⟨hinv, hcalled⟩
  have hstart : (SharedEntries.start : SharedEntries db.Record).Sound :=
    ⟨rfl, fun i => ⟨nofun, nofun⟩⟩
  rcases foldl_heldSteps (M := M) hdb _
    (fun k hk => locks_of_called (hcalled k hk)) hstart sessionInvariant_start
    rfl with ⟨hsound, hstate, hlog⟩
  constructor
  · apply hinv.good (fun d => d.intact = true) (fun _ d hwears => hwears d)
      hsound.intact
    intro k hk
    exact (effect_heldSteps hsound hdb (locks_of_called hk)).sound.intact
  · intro hfree
    rw [hinv.free hfree]
    exact ⟨hstate, hlog, hsound.live⟩

end Sharing

/-!
## Threads that share out one document
-/

section Dealing

variable {M : Machine} {db : Database}

theorem sessionReplies_append (s : Session)
    (front back : List (SessionCall db.Record)) :
    sessionReplies M db s (front ++ back) =
      sessionReplies M db s front ++
        sessionReplies M db (sessionAfter M db s front) back := by
  induction front generalizing s with
  | nil => rfl
  | cons k rest ih =>
      show _ :: sessionReplies M db _ (rest ++ back) = _
      rw [ih]
      rfl

theorem sessionReplies_length (s : Session)
    (calls : List (SessionCall db.Record)) :
    (sessionReplies M db s calls).length = calls.length := by
  induction calls generalizing s with
  | nil => rfl
  | cons k rest ih =>
      show (sessionReplies M db _ rest).length + 1 = _
      rw [ih]
      rfl

theorem sessionReplies_set (f : Fetch) (s : Session)
    (rest : List (SessionCall db.Record)) :
    sessionReplies M db s (.set f :: rest) =
      .status (nssStnsSetent f s).1 ::
        sessionReplies M db (nssStnsSetent f s).2 rest :=
  rfl

theorem sessionReplies_get (f : Fetch) (p : Packing db.Record) (s : Session)
    (rest : List (SessionCall db.Record)) :
    sessionReplies M db s (.get f p :: rest) =
      .entry (nssStnsGetentR M db f s p).1 ::
        sessionReplies M db (nssStnsGetentR M db f s p).2 rest :=
  rfl

/-- The get calls of any callers with one configuration drain the cursor. -/
theorem sessionReplies_gets {c : StnsConf} (items : List Json) (idx : Nat)
    (gets : List (Fetch × Packing db.Record))
    (hconfig : forall g, g ∈ gets -> g.1.config = some c) :
    sessionReplies M db ⟨⟨some (.array items), idx⟩, false⟩
        (gets.map (fun g => .get g.1 g.2)) =
      ((entryCursor M c db).drain (items.drop idx) (gets.map Prod.snd)).map
        .entry := by
  induction gets generalizing idx with
  | nil => simp [sessionReplies]
  | cons g rest ih =>
      have hrest := fun g' hg' => hconfig g' (List.mem_cons_of_mem _ hg')
      have hget := getent_of_config (M := M) (hconfig g List.mem_cons_self)
        ⟨some (.array items), idx⟩ g.2
      have hsnd : (g :: rest).map Prod.snd = g.2 :: rest.map Prod.snd := rfl
      rw [List.map_cons, sessionReplies_get, hget, hsnd]
      cases hdrop : items.drop idx with
      | nil =>
          have hle : items.length <= idx := List.drop_eq_nil_iff.mp hdrop
          rw [innerGetent_exhausted M c db _ g.2 hle]
          unfold CursorSpec.drain
          dsimp only
          rw [ih idx hrest, hdrop]
          rfl
      | cons element tail =>
          rcases pending_of_drop hdrop with ⟨hpending, htail⟩
          rw [innerGetent_pending M c db _ g.2 hpending]
          unfold CursorSpec.drain
          dsimp only
          split
          · rw [ih (idx + 1) hrest, htail]
            rfl
          · rw [ih idx hrest, hdrop]
            rfl

/-- The replies to the get calls of any callers share the elements out: each
call is served the first element that no call before it has taken, and told the
end when there is none. -/
def SharedOut (M : Machine) (c : StnsConf) (db : Database)
    (items : List Json) (attempts : List (Packing db.Record))
    (replies : List (Reply db.Record)) : Prop :=
  replies.length = attempts.length ∧
    forall i p, attempts[i]? = some p ->
      let taken := (replies.take i).countP
        (fun r => decide (r.status = .success))
      replies[i]? = some
        (match items[taken]? with
        | some element => db.ensure M c (objectOf element) p
        | none => { p with errno := enoent }.reply .notFound)

theorem sharedOut_drain (c : StnsConf) (items : List Json)
    (attempts : List (Packing db.Record)) :
    SharedOut M c db items attempts
      ((entryCursor M c db).drain items attempts) := by
  refine ⟨(entryCursor M c db).drain_length items attempts, ?_⟩
  intro i p hp
  rcases List.getElem?_eq_some_iff.mp hp with ⟨hi, rfl⟩
  have hserved := (entryCursor M c db).drain_getElem items attempts hi
  rw [hserved]
  dsimp only
  change _ = some (match items[(entryCursor M c db).delivered _]? with
    | some element => _
    | none => _)
  cases items[(entryCursor M c db).delivered
    (((entryCursor M c db).drain items attempts).take i)]? with
  | none => rfl
  | some element => rfl

variable {thread : Type} [DecidableEq thread]

open LockState

/-- After a served set call that no set or end call follows, the threads share
the elements of the document out among their get calls: none is served twice
and none is skipped. -/
theorem elements_shared_out (M : Machine) {db : Database} (hdb : db ≠ .group)
    (actions : List (LockAction thread (SessionCall db.Record)))
    {s : LockState thread (SessionCall db.Record) Database
      (SharedEntries db.Record)}
    (hrun : (initial SharedEntries.start).run (callSteps M db) actions =
      some s)
    (hfree : s.owner db = none) {before : List (SessionCall db.Record)}
    {f : Fetch} {gets : List (Fetch × Packing db.Record)}
    (hcalls : commits (callSteps M db) (initial SharedEntries.start) actions =
      before ++ .set f :: gets.map (fun g => .get g.1 g.2))
    (hserved : f.Served) {items : List Json}
    (hdocument : f.document = some (.array items)) {c : StnsConf}
    (hconfig : forall g, g ∈ gets -> g.1.config = some c) :
    exists replies, s.shared.log.drop (before.length + 1) =
        replies.map .entry ∧
      SharedOut M c db items (gets.map Prod.snd) replies := by
  refine ⟨_, ?_, sharedOut_drain c items (gets.map Prod.snd)⟩
  have hinv : SessionInvariant (sessionAfter M db Session.start before) :=
    sessionInvariant_after before sessionInvariant_start
  have hset : nssStnsSetent f (sessionAfter M db Session.start before) =
      (.success, ⟨EntryState.loaded (.array items), false⟩) := by
    have h := setent_of_served hserved
      (sessionAfter M db Session.start before).st
    rw [hdocument, ← hinv.free] at h
    rw [← hinv.free]
    exact h
  have hgets := @sessionReplies_gets M db c items 0 gets hconfig
  rw [((calls_atomic M hdb actions hrun).right hfree).log, hcalls,
    sessionReplies_append, List.drop_append,
    List.drop_eq_nil_of_le (by rw [sessionReplies_length]; omega),
    sessionReplies_length, Nat.add_sub_cancel_left]
  rw [sessionReplies_set, hset]
  exact hgets

/-- A get call of a thread for the first of two users. -/
def getOne : SessionCall Passwd :=
  .get twoUsersFetch (Database.passwd.blankPacking 64)

/-- One thread loads two users while another one tries to get an entry; then
that one and a third get an entry each. -/
def threeThreads : List (LockAction Nat (SessionCall Passwd)) :=
  List.flatten
    [[.start 0 (.set twoUsersFetch), .acquire 0, .start 1 getOne, .fail 1],
      List.replicate 8 (.compute 0),
      [.release 0, .acquire 1, .compute 1, .start 2 getOne, .fail 2],
      List.replicate 8 (.compute 1), [.release 1, .acquire 2],
      List.replicate 9 (.compute 2), [.release 2]]

theorem passwd_ne_group : Database.passwd ≠ .group := by
  decide

theorem calls_atomic_three_threads :
    exists s, (initial SharedEntries.start).run
        (callSteps Machine.wrapping .passwd) threeThreads = some s ∧
      s.shared.intact = true ∧
      (s.owner .passwd = none -> OneByOne Machine.wrapping .passwd
        (commits (callSteps Machine.wrapping .passwd)
          (initial SharedEntries.start) threeThreads) s.shared) :=
  ⟨_, rfl, calls_atomic Machine.wrapping passwd_ne_group threeThreads rfl⟩

def twoGets : List (Fetch × Packing Passwd) :=
  List.replicate 2 (twoUsersFetch, Database.passwd.blankPacking 64)

theorem threeThreads_calls :
    commits (callSteps Machine.wrapping .passwd)
        (initial SharedEntries.start) threeThreads =
      [] ++ .set twoUsersFetch :: twoGets.map (fun g => .get g.1 g.2) :=
  rfl

theorem twoGets_config (g : Fetch × Packing Passwd) (h : g ∈ twoGets) :
    g.1.config = some {} := by
  rw [List.eq_of_mem_replicate h]
  rfl

theorem elements_shared_out_three_threads :
    exists s, (initial SharedEntries.start).run
        (callSteps Machine.wrapping .passwd) threeThreads = some s ∧
      exists replies, s.shared.log.drop 1 = replies.map .entry ∧
        SharedOut Machine.wrapping {} .passwd
          [.object [(Key.name, .string (ascii "user1"))],
            .object [(Key.name, .string (ascii "user2"))]]
          (twoGets.map Prod.snd) replies :=
  ⟨_, rfl, elements_shared_out Machine.wrapping passwd_ne_group threeThreads rfl
    rfl threeThreads_calls ⟨rfl, rfl⟩ rfl twoGets_config⟩

end Dealing

end Stns
