import Stns.Nss.Locking
import Stns.Request.Request

/-!
# The public enumeration functions

One thread calls {lit}`_nss_stns_setXent`, {lit}`_nss_stns_getXent_r` and
{lit}`_nss_stns_endXent` of one database.  The mutex of the database is free
between its calls; while a call to get an entry holds it, the set call nested
in it cannot have it.
-/

namespace Stns

/-- What a call meets outside of the library: the configuration as far as it
loads, the outcome of the request, and the body as far as it parses. -/
structure Fetch where
  config : Option StnsConf
  result : CurlCode
  statusCode : Int
  document : Option Json

/-- The configuration loads and the request succeeds. -/
def Fetch.Served (f : Fetch) : Prop :=
  f.config.isSome = true ∧ f.result = CurlCode.ok

instance (f : Fetch) : Decidable f.Served :=
  inferInstanceAs (Decidable (_ ∧ _))

/-- The document that a set call comes by. -/
def Fetch.fetched (f : Fetch) : Option Json :=
  if f.Served then f.document else none

/-- The enumeration state and whether the mutex is held. -/
structure Session where
  st : EntryState
  locked : Bool

def Session.start : Session :=
  ⟨EntryState.unloaded, false⟩

/-- Whether {lit}`pthread_mutex_retrylock` acquires a mutex that nobody else
uses meanwhile. -/
def retrylock : Nat -> Bool -> Bool
  | _, false => true
  | 0, true => false
  | retries + 1, true => retrylock retries true

/-- {lit}`_nss_stns_setXent` -/
def nssStnsSetent (f : Fetch) (s : Session) : NssStatus × Session :=
  match f.config with
  | none => (.unavail, s)
  | some _ =>
      if f.result ≠ CurlCode.ok then
        (if f.statusCode = stnsHttpNotfound then .notFound else .unavail, s)
      else
        let acquired := retrylock stnsLockRetry s.locked
        let (status, st) := innerNssStnsSetent acquired f.document s.st
        (status, ⟨st, if acquired then false else s.locked⟩)

/-- {lit}`_nss_stns_endXent` -/
def sessionEndent (s : Session) : NssStatus × Session :=
  let acquired := retrylock stnsLockRetry s.locked
  let (status, st) := nssStnsEndent acquired s.st
  (status, ⟨st, if acquired then false else s.locked⟩)

/-- {lit}`_nss_stns_getXent_r`; the nested set call finds the mutex held. -/
def nssStnsGetentR (M : Machine) (db : Database) (f : Fetch) (s : Session)
    (p : Packing db.Record) : Reply db.Record × Session :=
  match f.config with
  | none => (p.reply .unavail, s)
  | some c =>
      if retrylock stnsLockRetry s.locked = false then (p.reply .unavail, s)
      else
        let setent := fun st =>
          let (status, nested) := nssStnsSetent f ⟨st, true⟩
          (status, nested.st)
        let (r, st) := innerNssStnsGetentR M c db setent s.st p
        (r, ⟨st, false⟩)

inductive SessionCall (record : Type) where
  | set (f : Fetch)
  | get (f : Fetch) (p : Packing record)
  | endent

section Runs

variable (M : Machine) (db : Database)

def sessionStep (s : Session) :
    SessionCall db.Record -> EnumReply db.Record × Session
  | .set f =>
      let (status, s) := nssStnsSetent f s
      (.status status, s)
  | .get f p =>
      let (r, s) := nssStnsGetentR M db f s p
      (.entry r, s)
  | .endent =>
      let (status, s) := sessionEndent s
      (.status status, s)

/-- The state that a sequence of calls ends in. -/
def sessionAfter (s : Session) (calls : List (SessionCall db.Record)) :
    Session :=
  calls.foldl (fun s call => (sessionStep M db s call).2) s

/-- No call of the sequence returns an entry. -/
def Quiet : Session -> List (SessionCall db.Record) -> Prop
  | _, [] => True
  | s, call :: rest =>
      (forall r, (sessionStep M db s call).1 = .entry r ->
        r.status ≠ .success) ∧ Quiet (sessionStep M db s call).2 rest

end Runs

/-- What the set calls of a sequence fetch, the nested ones included. -/
def fetchedBy {record : Type} : List (SessionCall record) -> List Json
  | [] => []
  | .set f :: rest => f.fetched.toList ++ fetchedBy rest
  | .get f _ :: rest => f.fetched.toList ++ fetchedBy rest
  | .endent :: rest => fetchedBy rest

/-!
## What each call does
-/

@[simp] theorem retrylock_free (retries : Nat) :
    retrylock retries false = true := by
  cases retries <;> rfl

@[simp] theorem retrylock_held (retries : Nat) :
    retrylock retries true = false := by
  induction retries with
  | zero => rfl
  | succ retries ih => exact ih

section Calls

variable {M : Machine} {db : Database} {f : Fetch} {st : EntryState}
  {p : Packing db.Record}

theorem setent_of_not_served (h : ¬ f.Served) (s : Session) :
    (nssStnsSetent f s).2 = s := by
  unfold nssStnsSetent
  cases hconfig : f.config with
  | none => rfl
  | some c =>
      have hresult : f.result ≠ CurlCode.ok := by
        intro hok
        exact h ⟨by rw [hconfig]; rfl, hok⟩
      dsimp only
      rw [if_pos hresult]

/-- A set call that is served starts over with what it fetched. -/
theorem setent_of_served (h : f.Served) (st : EntryState) :
    nssStnsSetent f ⟨st, false⟩ =
      match f.document with
      | none => (.unavail, ⟨EntryState.unloaded, false⟩)
      | some root => (.success, ⟨EntryState.loaded root, false⟩) := by
  rcases Option.isSome_iff_exists.mp h.left with ⟨c, hconfig⟩
  unfold nssStnsSetent
  rw [hconfig]
  dsimp only
  rw [if_neg (not_not_intro h.right), retrylock_free]
  cases f.document with
  | none => rfl
  | some root => rfl

theorem setent_of_locked (f : Fetch) (st : EntryState) :
    (nssStnsSetent f ⟨st, true⟩).2 = ⟨st, true⟩ ∧
      (f.Served -> (nssStnsSetent f ⟨st, true⟩).1 = .unavail) := by
  by_cases h : f.Served
  · rcases Option.isSome_iff_exists.mp h.left with ⟨c, hconfig⟩
    unfold nssStnsSetent
    rw [hconfig]
    dsimp only
    rw [if_neg (not_not_intro h.right), retrylock_held]
    exact ⟨rfl, fun _ => rfl⟩
  · exact ⟨setent_of_not_served h _, fun hserved => absurd hserved h⟩

/-- An array is loaded, and the record builder accepts the element at the
index. -/
def Pending (db : Database) (st : EntryState) : Prop :=
  exists items element, st.entries = some (.array items) ∧
    items[st.entryIdx]? = some element ∧ db.Accepts (objectOf element)

theorem entries_of_array {root : Option Json} {items : List Json}
    (h : jsonValueGetArray root = some items) :
    root = some (.array items) := by
  cases root with
  | none => cases h
  | some value =>
      cases value with
      | array items' =>
          injection h with h
          rw [h]
      | _ => cases h

/-- The set call nested in a call to get an entry. -/
def nestedSetent (f : Fetch) (st : EntryState) : NssStatus × EntryState :=
  ((nssStnsSetent f ⟨st, true⟩).1, (nssStnsSetent f ⟨st, true⟩).2.st)

theorem getent_of_config {c : StnsConf} (h : f.config = some c)
    (st : EntryState) (p : Packing db.Record) :
    nssStnsGetentR M db f ⟨st, false⟩ p =
      ((innerNssStnsGetentR M c db (nestedSetent f) st p).1,
        ⟨(innerNssStnsGetentR M c db (nestedSetent f) st p).2, false⟩) := by
  unfold nssStnsGetentR
  rw [h]
  dsimp only
  rw [retrylock_free, if_neg Bool.noConfusion]
  rfl

/-- Without an array the nested set call fails, or there is no entry. -/
theorem innerGetent_of_no_array {c : StnsConf}
    (h : jsonValueGetArray st.entries = none) (p : Packing db.Record) :
    (innerNssStnsGetentR M c db (nestedSetent f) st p).1.status ≠ .success ∧
      (innerNssStnsGetentR M c db (nestedSetent f) st p).2 = st := by
  have hnested : (nestedSetent f st).2 = st :=
    congrArg Session.st (setent_of_locked f st).left
  unfold innerNssStnsGetentR
  rw [h]
  dsimp only
  rw [hnested]
  split
  · rename_i hfailed
    exact ⟨hfailed, rfl⟩
  · have hend : st.entryIdx >= jsonArrayGetCount none := Nat.zero_le _
    rw [if_pos hend]
    exact ⟨NssStatus.noConfusion, rfl⟩

/-- What a call to get an entry does: it returns the record of the element at
the index and moves on, or returns no entry and leaves the enumeration as it
is. -/
theorem getent_cases (M : Machine) (f : Fetch) (st : EntryState)
    (p : Packing db.Record) :
    (exists c items element, f.config = some c ∧
        st.entries = some (.array items) ∧
        items[st.entryIdx]? = some element ∧
        (db.ensure M c (objectOf element) p).status = .success ∧
        nssStnsGetentR M db f ⟨st, false⟩ p =
          (db.ensure M c (objectOf element) p,
            ⟨⟨st.entries, st.entryIdx + 1⟩, false⟩)) ∨
      ((nssStnsGetentR M db f ⟨st, false⟩ p).1.status ≠ .success ∧
        (nssStnsGetentR M db f ⟨st, false⟩ p).2 = ⟨st, false⟩) := by
  cases hconfig : f.config with
  | none =>
      unfold nssStnsGetentR
      rw [hconfig]
      exact .inr ⟨NssStatus.noConfusion, rfl⟩
  | some c =>
      rw [getent_of_config hconfig]
      cases harray : jsonValueGetArray st.entries with
      | none =>
          have hnone := innerGetent_of_no_array (M := M) (c := c) (f := f)
            harray p
          right
          rw [hnone.right]
          exact ⟨hnone.left, rfl⟩
      | some items =>
          have hentries := entries_of_array harray
          rcases st with ⟨entries, idx⟩
          have hroot : entries = some (.array items) := hentries
          subst hroot
          cases hget : items[idx]? with
          | none =>
              rw [innerGetent_exhausted M c db _ p
                (List.getElem?_eq_none_iff.mp hget)]
              exact .inr ⟨NssStatus.noConfusion, rfl⟩
          | some element =>
              rw [innerGetent_pending M c db _ p hget]
              by_cases hsuccess : (db.ensure M c (objectOf element) p).status =
                  .success
              · have htaken : (entryCursor M c db).taken
                    ((entryCursor M c db).serve element p) = true :=
                  decide_eq_true hsuccess
                left
                refine ⟨c, items, element, rfl, rfl, hget, hsuccess, ?_⟩
                rw [if_pos htaken]
                rfl
              · have hkept : ¬ (entryCursor M c db).taken
                    ((entryCursor M c db).serve element p) = true :=
                  fun htaken => hsuccess (of_decide_eq_true htaken)
                right
                rw [if_neg hkept]
                exact ⟨hsuccess, rfl⟩

theorem getent_of_pending {c : StnsConf} (hconfig : f.config = some c)
    {items : List Json} {element : Json}
    (hentries : st.entries = some (.array items))
    (hget : items[st.entryIdx]? = some element)
    (haccepts : db.Accepts (objectOf element))
    (hroom : db.need (objectOf element) <= p.buflen) :
    nssStnsGetentR M db f ⟨st, false⟩ p =
      (db.ensure M c (objectOf element) p,
        ⟨⟨st.entries, st.entryIdx + 1⟩, false⟩) := by
  have hsuccess := (Database.ensure_ok (M := M) (c := c) p haccepts hroom).left
  rcases st with ⟨entries, idx⟩
  have hroot : entries = some (.array items) := hentries
  subst hroot
  have htaken : (entryCursor M c db).taken
      ((entryCursor M c db).serve element p) = true := decide_eq_true hsuccess
  rw [getent_of_config hconfig, innerGetent_pending M c db _ p hget,
    if_pos htaken]
  rfl

theorem endent_eq (st : EntryState) :
    sessionEndent ⟨st, false⟩ = (.success, ⟨EntryState.unloaded, false⟩) := by
  unfold sessionEndent
  dsimp only
  rw [retrylock_free]
  rfl

end Calls

/-!
## Every reachable state
-/

section Reachable

variable {M : Machine} {db : Database}

/-- Between calls the mutex is free, and without entries the index is zero. -/
structure SessionInvariant (s : Session) : Prop where
  free : s.locked = false
  blank : s.st.entries = none -> s.st.entryIdx = 0

theorem SessionInvariant.step {s : Session} (h : SessionInvariant s)
    (call : SessionCall db.Record) :
    SessionInvariant (sessionStep M db s call).2 := by
  rcases s with ⟨st, locked⟩
  have hfree : locked = false := h.free
  subst hfree
  cases call with
  | set f =>
      show SessionInvariant (nssStnsSetent f ⟨st, false⟩).2
      by_cases hserved : f.Served
      · rw [setent_of_served hserved]
        cases f.document with
        | none => exact ⟨rfl, fun _ => rfl⟩
        | some root => exact ⟨rfl, fun _ => rfl⟩
      · rw [setent_of_not_served hserved]
        exact h
  | get f p =>
      show SessionInvariant (nssStnsGetentR M db f ⟨st, false⟩ p).2
      rcases getent_cases M f st p with
        ⟨c, items, element, _, hentries, _, _, hreply⟩ | ⟨_, hsame⟩
      · rw [hreply]
        refine ⟨rfl, ?_⟩
        intro hnone
        rw [show st.entries = none from hnone] at hentries
        cases hentries
      · rw [hsame]
        exact h
  | endent =>
      show SessionInvariant (sessionEndent ⟨st, false⟩).2
      rw [endent_eq]
      exact ⟨rfl, fun _ => rfl⟩

theorem sessionInvariant_after (calls : List (SessionCall db.Record))
    {s : Session} (h : SessionInvariant s) :
    SessionInvariant (sessionAfter M db s calls) := by
  induction calls generalizing s with
  | nil => exact h
  | cons call rest ih => exact ih (h.step call)

theorem sessionInvariant_start : SessionInvariant Session.start :=
  ⟨rfl, fun _ => rfl⟩

end Reachable

end Stns
