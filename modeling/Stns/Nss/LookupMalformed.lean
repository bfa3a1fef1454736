import Stns.Nss.Lookup
import Stns.Nss.SameRecord

/-!
# Malformed elements in a lookup

A lookup compares two runs: one on the document, one on the document without
its malformed elements.  Both scan the same objects in the same order, so they
differ only through an object without a string name that the scan reaches.
-/

namespace Stns

/-- What the caller of a lookup can observe. -/
structure Outcome (record : Type) where
  status : NssStatus
  errno : Errno
  rbuf : record
  mem : Memory Cell

def Reply.outcome {record : Type} (r : Reply record) : Outcome record :=
  ⟨r.status, r.errno, r.rbuf, r.mem⟩

/-- The lookup neither crashes nor notices the malformed elements, whatever
buffer the caller brings. -/
def MalformedInvisible (M : Machine) (c : StnsConf) (db : Database)
    (key : LookupKey) (root : Json) : Prop :=
  forall p : Packing db.Record,
    lookup M c db key (some root) p ≠ none ∧
      (lookup M c db key (some root) p).map Reply.outcome =
        (lookup M c db key (some (removeMalformed root)) p).map Reply.outcome

/-!
## The condition on the document
-/

/-- Every nameless object comes after an object with the wanted name. -/
def NamesReachable (key : CString) (objects : List JsonObject) : Prop :=
  forall front leaf back, objects = front ++ leaf :: back ->
    nameOf leaf = none ->
    exists earlier, earlier ∈ front ∧ nameOf earlier = some key

def idMatch (M : Machine) (shift : Int32) (key : UInt32)
    (leaf : JsonObject) : Bool :=
  decide (M.uintOfDouble (jsonObjectGetNumber (some leaf) Key.id) +
    shift.toUInt32 = key)

def namedIdMatch (M : Machine) (shift : Int32) (key : UInt32)
    (leaf : JsonObject) : Bool :=
  decide (Named leaf) && idMatch M shift key leaf

/-- By name: the scan meets no nameless object before its match.  By
identifier: the first object with the identifier has a name; or it is a group
and no named one follows; or the first named one carries the same record. -/
def MalformedHarmless (M : Machine) (c : StnsConf) (db : Database)
    (key : LookupKey) (objects : List JsonObject) : Prop :=
  match key with
  | .name key => NamesReachable key objects
  | .id key =>
      forall leaf,
        objects.find? (idMatch M (db.idShift c) key) = some leaf ->
        Named leaf ∨
        (db = .group ∧
          objects.find? (namedIdMatch M (db.idShift c) key) = none) ∨
        exists next,
          objects.find? (namedIdMatch M (db.idShift c) key) = some next ∧
            db.SameRecord M c (some leaf) (some next)

/-!
## Scanning by name
-/

theorem nameMatches_none {key : CString} {leaf : JsonObject}
    (h : nameOf leaf = none) : nameMatches key leaf = none := by
  simp [nameMatches, h]

theorem nameMatches_some {key name : CString} {leaf : JsonObject}
    (h : nameOf leaf = some name) :
    nameMatches key leaf = some (decide (name = key)) := by
  simp [nameMatches, h]

theorem named_of_nameOf {leaf : JsonObject} {name : CString}
    (h : nameOf leaf = some name) : Named leaf := by
  simp [Named, h]

theorem namesReachable_cons_of_ne {key : CString} {leaf : JsonObject}
    {rest : List JsonObject} {name : CString} (hname : nameOf leaf = some name)
    (hne : name ≠ key) :
    NamesReachable key (leaf :: rest) <-> NamesReachable key rest := by
  constructor
  · intro h front bad back hrest hbad
    rcases h (leaf :: front) bad back (by rw [hrest]; rfl) hbad with
      ⟨earlier, hmem, hkey⟩
    rcases List.mem_cons.mp hmem with hhead | htail
    · rw [hhead, hname] at hkey
      injection hkey with hkey
      exact absurd hkey hne
    · exact ⟨earlier, htail, hkey⟩
  · intro h front bad back hsplit hbad
    cases front with
    | nil =>
        injection hsplit with hhead _
        rw [← hhead, hname] at hbad
        cases hbad
    | cons first front =>
        injection hsplit with _ htail
        rcases h front bad back htail hbad with ⟨earlier, hmem, hkey⟩
        exact ⟨earlier, List.mem_cons_of_mem _ hmem, hkey⟩

theorem scan_name_crash_iff (key : CString) (objects : List JsonObject) :
    scan (nameMatches key) objects = .crash <->
      ¬ NamesReachable key objects := by
  induction objects with
  | nil =>
      constructor
      · intro h
        cases h
      · intro h
        exact absurd (fun front leaf back hsplit _ => by
          cases front <;> cases hsplit) h
  | cons leaf rest ih =>
      cases hname : nameOf leaf with
      | none =>
          have hcrash : scan (nameMatches key) (leaf :: rest) = .crash := by
            rw [scan, nameMatches_none hname]
          constructor
          · intro _ h
            rcases h [] leaf rest rfl hname with ⟨earlier, hmem, _⟩
            cases hmem
          · intro _
            exact hcrash
      | some name =>
          by_cases heq : name = key
          · have hreach : NamesReachable key (leaf :: rest) := by
              intro front bad back hsplit hbad
              cases front with
              | nil =>
                  injection hsplit with hhead _
                  rw [← hhead, hname] at hbad
                  cases hbad
              | cons first front =>
                  injection hsplit with hhead _
                  refine ⟨first, List.mem_cons_self, ?_⟩
                  rw [← hhead, hname, heq]
            rw [scan, nameMatches_some hname]
            simp [heq, hreach]
          · rw [namesReachable_cons_of_ne hname heq, ← ih, scan,
              nameMatches_some hname]
            simp [heq]

theorem scan_name_filter {key : CString} {objects : List JsonObject}
    (h : scan (nameMatches key) objects ≠ .crash) :
    scan (nameMatches key)
        (objects.filter (fun leaf => decide (Named leaf))) =
      scan (nameMatches key) objects := by
  induction objects with
  | nil => rfl
  | cons leaf rest ih =>
      cases hname : nameOf leaf with
      | none =>
          rw [scan, nameMatches_none hname] at h
          exact absurd rfl h
      | some name =>
          have hnamed := named_of_nameOf hname
          rw [scan, nameMatches_some hname] at h
          rw [List.filter_cons_of_pos (by simpa using hnamed), scan, scan,
            nameMatches_some hname]
          by_cases heq : name = key
          · simp [heq]
          · simp only [heq, decide_false] at h ⊢
            exact ih h

/-!
## Scanning by identifier
-/

theorem scan_total (found : JsonObject -> Bool) (objects : List JsonObject) :
    scan (fun leaf => some (found leaf)) objects =
      match objects.find? found with
      | some leaf => .found leaf
      | none => .notFound := by
  induction objects with
  | nil => rfl
  | cons leaf rest ih =>
      unfold scan
      cases hfound : found leaf with
      | true => simp [hfound]
      | false => simpa [hfound] using ih

theorem find_named {M : Machine} {shift : Int32} {key : UInt32}
    (objects : List JsonObject) :
    (objects.filter (fun leaf => decide (Named leaf))).find?
        (idMatch M shift key) =
      objects.find? (namedIdMatch M shift key) := by
  rw [List.find?_filter]
  congr 1
  funext leaf
  simp [namedIdMatch]

theorem find_named_of_first {M : Machine} {shift : Int32} {key : UInt32}
    {objects : List JsonObject} {leaf : JsonObject}
    (h : objects.find? (idMatch M shift key) = some leaf)
    (hnamed : Named leaf) :
    objects.find? (namedIdMatch M shift key) = some leaf := by
  rcases List.find?_eq_some_iff_append.mp h with
    ⟨hmatch, front, back, hsplit, hfront⟩
  apply List.find?_eq_some_iff_append.mpr
  refine ⟨?_, front, back, hsplit, ?_⟩
  · simp [namedIdMatch, hnamed, hmatch]
  · intro earlier hearlier
    have hno := hfront earlier hearlier
    simp only [Bool.not_eq_true'] at hno
    simp [namedIdMatch, hno]

theorem find_named_of_none {M : Machine} {shift : Int32} {key : UInt32}
    {objects : List JsonObject}
    (h : objects.find? (idMatch M shift key) = none) :
    objects.find? (namedIdMatch M shift key) = none := by
  rw [List.find?_eq_none] at h ⊢
  intro leaf hleaf hmatch
  simp only [namedIdMatch, Bool.and_eq_true] at hmatch
  exact h leaf hleaf hmatch.right

/-- Two builder runs agree on every buffer exactly when the entries carry the
same record. -/
theorem ensure_outcome_eq_iff {M : Machine} {c : StnsConf} {db : Database}
    {leaf next : JsonObject} (hleaf : ¬ Named leaf) (hnext : Named next) :
    (forall p : Packing db.Record,
        (db.ensure M c (some leaf) p).outcome =
          (db.ensure M c (some next) p).outcome) <->
      db.SameRecord M c (some leaf) (some next) := by
  have hunlocked : forall (a b : Reply db.Record),
      a.unlocked = b.unlocked -> (a.outcome = b.outcome <-> a = b) := by
    rintro ⟨s, e, r, m, u⟩ ⟨s', e', r', m', u'⟩ hu
    simp only [Reply.outcome, Outcome.mk.injEq, Reply.mk.injEq] at hu ⊢
    simp [hu]
  cases db with
  | passwd =>
      rw [← passwdEnsure_eq_iff]
      apply forall_congr'
      intro p
      exact hunlocked _ _
        ((passwdEnsure_unlocked p).trans (passwdEnsure_unlocked p).symm)
  | group =>
      constructor
      · intro h
        let p := Database.group.blankPacking
          (Database.group.need (some next))
        have hp := congrArg Outcome.status (h p)
        have hsuccess := (Database.ensure_ok (M := M) (c := c) p
          (Database.accepts_of_named hnext)
          (Nat.le_refl _)).left
        have hname : jsonObjectGetString (some leaf) Key.name = none := by
          simpa [Named, nameOf] using hleaf
        have hnotFound :
            (Database.group.ensure M c (some leaf) p).status = .notFound := by
          show (groupEnsure M c (some leaf) p).status = .notFound
          rw [groupEnsure_nameless hname]
          rfl
        have hclash : NssStatus.notFound = NssStatus.success :=
          hnotFound.symm.trans (hp.trans hsuccess)
        cases hclash
      · intro h
        cases h
  | spwd =>
      rw [← shadowEnsure_eq_iff]
      apply forall_congr'
      intro p
      exact hunlocked _ _
        ((shadowEnsure_unlocked p).trans (shadowEnsure_unlocked p).symm)

/-- A builder run on a nameless entry looks like a failed search only for
groups. -/
theorem ensure_outcome_notFound_iff {M : Machine} {c : StnsConf}
    {db : Database} {leaf : JsonObject} (hleaf : ¬ Named leaf) :
    (forall p : Packing db.Record,
        (db.ensure M c (some leaf) p).outcome =
          (p.reply .notFound).outcome) <->
      db = .group := by
  constructor
  · intro h
    by_contra hdb
    have haccepts : db.Accepts (some leaf) := fun hgroup => absurd hgroup hdb
    let p := db.blankPacking (db.need (some leaf))
    have hsuccess := (Database.ensure_ok (M := M) (c := c) p haccepts
      (Nat.le_refl _)).left
    have hstatus := congrArg Outcome.status (h p)
    have hclash : NssStatus.success = NssStatus.notFound :=
      hsuccess.symm.trans hstatus
    cases hclash
  · intro hdb p
    subst hdb
    have hname : jsonObjectGetString (some leaf) Key.name = none := by
      simpa [Named, nameOf] using hleaf
    show (groupEnsure M c (some leaf) p).outcome = _
    rw [groupEnsure_nameless hname]
    rfl

/-!
## The two runs
-/

theorem Scan.reply_ne_none {record : Type}
    {ensure : JsonObject -> Packing record -> Reply record}
    {p : Packing record} {s : Scan} :
    s.reply ensure p ≠ none <-> s ≠ .crash := by
  cases s <;> simp [Scan.reply]

theorem malformedInvisible_name_iff (M : Machine) (c : StnsConf)
    (db : Database) (key : CString) (root : Json) :
    MalformedInvisible M c db (.name key) root <->
      NamesReachable key (objectsOf (elementsOf root)) := by
  unfold MalformedInvisible
  simp only [lookup_eq_scan, elementsOf_removeMalformed,
    objectsOf_filter_wellFormed, LookupKey.matchMethod]
  constructor
  · intro h
    have hrun := Scan.reply_ne_none.mp (h (db.blankPacking 0)).left
    by_contra hreach
    exact hrun ((scan_name_crash_iff key _).mpr hreach)
  · intro hreach p
    have hscan :
        scan (nameMatches key) (objectsOf (elementsOf root)) ≠ .crash := by
      intro hcrash
      exact (scan_name_crash_iff key _).mp hcrash hreach
    rw [scan_name_filter hscan]
    exact ⟨Scan.reply_ne_none.mpr hscan, rfl⟩

theorem malformedInvisible_id_iff (M : Machine) (c : StnsConf)
    (db : Database) (key : UInt32) (root : Json) :
    MalformedInvisible M c db (.id key) root <->
      MalformedHarmless M c db (.id key) (objectsOf (elementsOf root)) := by
  let found := idMatch M (db.idShift c) key
  have hmethod : LookupKey.matchMethod M c db (.id key) =
      fun leaf => some (found leaf) := rfl
  unfold MalformedInvisible MalformedHarmless
  simp only [lookup_eq_scan, elementsOf_removeMalformed,
    objectsOf_filter_wellFormed, hmethod, scan_total, found, find_named]
  cases hfirst : (objectsOf (elementsOf root)).find?
      (idMatch M (db.idShift c) key) with
  | none =>
      rw [find_named_of_none hfirst]
      simp [Scan.reply]
  | some leaf =>
      by_cases hnamed : Named leaf
      · rw [find_named_of_first hfirst hnamed]
        simp [Scan.reply, hnamed]
      · cases hnext : (objectsOf (elementsOf root)).find?
            (namedIdMatch M (db.idShift c) key) with
        | none =>
            simp only [Scan.reply, Option.some.injEq, forall_eq', hnamed,
              false_or, and_true, reduceCtorEq, false_and, exists_false,
              or_false, Option.map_some, ne_eq, not_false_eq_true, true_and]
            exact ensure_outcome_notFound_iff hnamed
        | some next =>
            have hnextNamed : Named next := by
              have hmatch := List.find?_some hnext
              simp only [namedIdMatch, Bool.and_eq_true,
                decide_eq_true_eq] at hmatch
              exact hmatch.left
            simp only [Scan.reply, Option.some.injEq, forall_eq', hnamed,
              false_or, reduceCtorEq, and_false, exists_eq_left',
              Option.map_some, ne_eq, not_false_eq_true, true_and]
            exact ensure_outcome_eq_iff hnamed hnextNamed

/-- Malformed elements stay invisible to a lookup exactly when the document
keeps them out of the way of its scan. -/
theorem malformedInvisible_iff (M : Machine) (c : StnsConf) (db : Database)
    (key : LookupKey) (root : Json) :
    MalformedInvisible M c db key root <->
      MalformedHarmless M c db key (objectsOf (elementsOf root)) := by
  cases key with
  | name key => exact malformedInvisible_name_iff M c db key root
  | id key => exact malformedInvisible_id_iff M c db key root

/-- One object without a name is enough to crash a lookup by name. -/
theorem nameless_object_crashes_lookup :
    lookup Machine.wrapping {} .passwd (.name (literal "user1"))
        (some (.array [.object [(Key.id, .number 1)]]))
        (Database.passwd.blankPacking 1024) = none ∧
      ¬ MalformedInvisible Machine.wrapping {} .passwd
        (.name (literal "user1"))
        (.array [.object [(Key.id, .number 1)]]) := by
  have hcrash : lookup Machine.wrapping {} .passwd (.name (literal "user1"))
      (some (.array [.object [(Key.id, .number 1)]]))
      (Database.passwd.blankPacking 1024) = none := rfl
  refine ⟨hcrash, ?_⟩
  intro h
  exact (h (Database.passwd.blankPacking 1024)).left hcrash

end Stns
