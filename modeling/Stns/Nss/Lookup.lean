import Stns.Nss.Database

/-!
# Lookup by name and by identifier

The search loop that the lookup macro generates for each database and key.  An
array element that is not an object is skipped; the first object that matches
is handed to the record builder, whose reply is the lookup's.  Comparing the
name of an object that has none passes NULL to {lit}`strcmp`; that outcome is
{lit}`none`.
-/

namespace Stns

section Search

variable {record : Type}

/-- The loop over the array elements. -/
def ensureLoop (matchMethod : JsonObject -> Option Bool)
    (ensure : JsonObject -> Packing record -> Reply record)
    (p : Packing record) : List Json -> Option (Reply record)
  | [] => some (p.reply .notFound)
  | element :: rest =>
      match objectOf element with
      | none => ensureLoop matchMethod ensure p rest
      | some leaf =>
          match matchMethod leaf with
          | none => none
          | some true => some (ensure leaf p)
          | some false => ensureLoop matchMethod ensure p rest

/-- {lit}`STNS_ENSURE_BY`, from the parsed document on; NULL is a document that
does not parse. -/
def stnsEnsureBy (matchMethod : JsonObject -> Option Bool)
    (ensure : JsonObject -> Packing record -> Reply record)
    (root : Option Json) (p : Packing record) : Option (Reply record) :=
  match root with
  | none => some (p.reply .unavail)
  | some _ =>
      ensureLoop matchMethod ensure p ((jsonValueGetArray root).getD [])

end Search

/-- {lit}`strcmp(current, key) == 0`, where the name may be NULL. -/
def nameMatches (key : CString) (leaf : JsonObject) : Option Bool :=
  (nameOf leaf).map (fun current => decide (current = key))

/-- {lit}`current + shift == key`, in the unsigned type of the key. -/
def idMatches (M : Machine) (shift : Int32) (key : UInt32)
    (leaf : JsonObject) : Option Bool :=
  let current := M.uintOfDouble (jsonObjectGetNumber (some leaf) Key.id)
  some (decide (current + shift.toUInt32 = key))

/-- The key of a lookup. -/
inductive LookupKey where
  | name (key : CString)
  | id (key : UInt32)

def LookupKey.matchMethod (M : Machine) (c : StnsConf) (db : Database) :
    LookupKey -> JsonObject -> Option Bool
  | .name key => nameMatches key
  | .id key => idMatches M (db.idShift c) key

def lookup (M : Machine) (c : StnsConf) (db : Database) (key : LookupKey)
    (root : Option Json) (p : Packing db.Record) :
    Option (Reply db.Record) :=
  stnsEnsureBy (key.matchMethod M c db)
    (fun leaf => db.ensure M c (some leaf)) root p

/-!
## The generated functions
-/

def ensurePasswdByName (M : Machine) (c : StnsConf) (userName : CString) :
    Option Json -> Packing Passwd -> Option (Reply Passwd) :=
  lookup M c .passwd (.name userName)

def ensurePasswdByUid (M : Machine) (c : StnsConf) (uid : UInt32) :
    Option Json -> Packing Passwd -> Option (Reply Passwd) :=
  lookup M c .passwd (.id uid)

def ensureGroupByName (M : Machine) (c : StnsConf) (groupName : CString) :
    Option Json -> Packing Group -> Option (Reply Group) :=
  lookup M c .group (.name groupName)

def ensureGroupByGid (M : Machine) (c : StnsConf) (gid : UInt32) :
    Option Json -> Packing Group -> Option (Reply Group) :=
  lookup M c .group (.id gid)

def ensureSpwdByName (M : Machine) (c : StnsConf) (userName : CString) :
    Option Json -> Packing Spwd -> Option (Reply Spwd) :=
  lookup M c .spwd (.name userName)

def ensureSpwdByUid (M : Machine) (c : StnsConf) (uid : UInt32) :
    Option Json -> Packing Spwd -> Option (Reply Spwd) :=
  lookup M c .spwd (.id uid)

/-!
## What the loop selects

The loop scans for the first object that the match method does not reject.
-/

/-- The outcome of the scan alone. -/
inductive Scan where
  | crash
  | notFound
  | found (leaf : JsonObject)

def scan (matchMethod : JsonObject -> Option Bool) : List JsonObject -> Scan
  | [] => .notFound
  | leaf :: rest =>
      match matchMethod leaf with
      | none => .crash
      | some true => .found leaf
      | some false => scan matchMethod rest

theorem scan_found {matchMethod : JsonObject -> Option Bool}
    {objects : List JsonObject} {leaf : JsonObject}
    (h : scan matchMethod objects = .found leaf) :
    matchMethod leaf = some true := by
  induction objects with
  | nil => cases h
  | cons first rest ih =>
      unfold scan at h
      cases hmatch : matchMethod first with
      | none =>
          rw [hmatch] at h
          cases h
      | some matched =>
          rw [hmatch] at h
          cases matched with
          | true =>
              injection h with h
              rw [← h]
              exact hmatch
          | false => exact ih h

theorem scan_of_rejected {matchMethod : JsonObject -> Option Bool}
    {objects : List JsonObject}
    (h : forall leaf, leaf ∈ objects -> matchMethod leaf = some false) :
    scan matchMethod objects = .notFound := by
  induction objects with
  | nil => rfl
  | cons first rest ih =>
      unfold scan
      rw [h first List.mem_cons_self]
      exact ih (fun leaf hmem => h leaf (List.mem_cons_of_mem _ hmem))

/-- The reply that belongs to a scan. -/
def Scan.reply {record : Type}
    (ensure : JsonObject -> Packing record -> Reply record)
    (p : Packing record) : Scan -> Option (Reply record)
  | .crash => none
  | .notFound => some (p.reply .notFound)
  | .found leaf => some (ensure leaf p)

theorem ensureLoop_eq_scan {record : Type}
    (matchMethod : JsonObject -> Option Bool)
    (ensure : JsonObject -> Packing record -> Reply record)
    (p : Packing record) (items : List Json) :
    ensureLoop matchMethod ensure p items =
      (scan matchMethod (objectsOf items)).reply ensure p := by
  induction items with
  | nil => rfl
  | cons element rest ih =>
      unfold ensureLoop
      cases hobject : objectOf element with
      | none =>
          rw [objectsOf_cons_none hobject]
          exact ih
      | some leaf =>
          rw [objectsOf_cons_some hobject]
          unfold scan
          dsimp only
          cases matchMethod leaf with
          | none => rfl
          | some matched =>
              cases matched with
              | true => rfl
              | false => exact ih

theorem lookup_eq_scan (M : Machine) (c : StnsConf) (db : Database)
    (key : LookupKey) (root : Json) (p : Packing db.Record) :
    lookup M c db key (some root) p =
      (scan (key.matchMethod M c db) (objectsOf (elementsOf root))).reply
        (fun leaf => db.ensure M c (some leaf)) p :=
  ensureLoop_eq_scan _ _ p (elementsOf root)

end Stns
