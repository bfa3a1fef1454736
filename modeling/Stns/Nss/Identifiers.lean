import Stns.Nss.Enumeration
import Stns.Nss.Lookup

/-!
# Identifiers in returned records

A lookup matches an identifier in unsigned arithmetic and the builder computes
the returned one in {lit}`int`.  Both read a missing or wrongly typed member as
zero.  This module says for which elements the returned identifiers are the
document's, shifted.
-/

namespace Stns

/-- One way to be handed a record: a lookup, or the enumeration step at an
index. -/
inductive Access where
  | lookup (key : LookupKey)
  | step (idx : Nat)

namespace Access

variable (M : Machine) (c : StnsConf) (db : Database) (root : Json)

/-- The reply of the access; {lit}`none` is a crash. -/
def run (setent : EntryState -> NssStatus × EntryState) (access : Access)
    (p : Packing db.Record) : Option (Reply db.Record) :=
  match access with
  | .lookup key => Stns.lookup M c db key (some root) p
  | .step idx => some (innerNssStnsGetentR M c db setent ⟨some root, idx⟩ p).1

/-- The element that the access picks.  An enumeration step may pick an element
that is not an object. -/
def chosen (access : Access) : Option (Option JsonObject) :=
  match access with
  | .lookup key =>
      match scan (key.matchMethod M c db) (objectsOf (elementsOf root)) with
      | .found leaf => some (some leaf)
      | _ => none
  | .step idx => (elementsOf root)[idx]?.map objectOf

end Access

/-- A reply with success comes from the record builder, run on the chosen
element. -/
theorem Access.run_success {M : Machine} {c : StnsConf} {db : Database}
    {root : Json} {setent : EntryState -> NssStatus × EntryState}
    {access : Access} {p : Packing db.Record} {r : Reply db.Record}
    (hrun : access.run M c db root setent p = some r)
    (hsuccess : r.status = .success) :
    exists entry, access.chosen M c db root = some entry ∧
      r = db.ensure M c entry p := by
  cases access with
  | lookup key =>
      simp only [Access.run, Access.chosen] at hrun ⊢
      rw [lookup_eq_scan] at hrun
      cases hscan : scan (key.matchMethod M c db)
          (objectsOf (elementsOf root)) with
      | crash =>
          rw [hscan] at hrun
          cases hrun
      | notFound =>
          rw [hscan] at hrun
          injection hrun with hrun
          rw [← hrun] at hsuccess
          cases hsuccess
      | found leaf =>
          rw [hscan] at hrun
          injection hrun with hrun
          exact ⟨some leaf, by simp, hrun.symm⟩
  | step idx =>
      simp only [Access.run, Access.chosen] at hrun ⊢
      injection hrun with hrun
      cases harray : jsonValueGetArray (some root) with
      | none =>
          -- a document that is not an array is reloaded, then has no entries
          rw [← hrun] at hsuccess
          simp only [innerNssStnsGetentR, harray, jsonArrayGetCount] at hsuccess
          split at hsuccess
          · rename_i hret
            exact absurd hsuccess hret
          · rw [if_pos (Nat.zero_le _)] at hsuccess
            cases hsuccess
      | some items =>
          have hroot : root = .array items := by
            cases root <;> simp [jsonValueGetArray] at harray
            rw [harray]
          subst hroot
          cases hget : items[idx]? with
          | none =>
              have hle : items.length <= idx := List.getElem?_eq_none_iff.mp hget
              rw [innerGetent_exhausted M c db setent p hle] at hrun
              rw [← hrun] at hsuccess
              cases hsuccess
          | some element =>
              rw [innerGetent_pending M c db setent p hget] at hrun
              refine ⟨objectOf element, ?_, hrun.symm⟩
              simp [hget]

/-- The chosen element is handed to the record builder. -/
theorem Access.run_of_chosen {M : Machine} {c : StnsConf} {db : Database}
    {root : Json} (setent : EntryState -> NssStatus × EntryState)
    {access : Access} {entry : Option JsonObject} (p : Packing db.Record)
    (h : access.chosen M c db root = some entry) :
    access.run M c db root setent p = some (db.ensure M c entry p) := by
  cases access with
  | lookup key =>
      simp only [Access.run, Access.chosen] at h ⊢
      rw [lookup_eq_scan]
      cases hscan : scan (key.matchMethod M c db)
          (objectsOf (elementsOf root)) with
      | crash =>
          rw [hscan] at h
          cases h
      | notFound =>
          rw [hscan] at h
          cases h
      | found leaf =>
          rw [hscan] at h
          injection h with h
          rw [← h]
          rfl
  | step idx =>
      simp only [Access.run, Access.chosen] at h ⊢
      cases root with
      | array items =>
          rw [elementsOf_array] at h
          cases hget : items[idx]? with
          | none =>
              rw [hget] at h
              cases h
          | some element =>
              rw [hget] at h
              injection h with h
              rw [innerGetent_pending M c db setent p hget, ← h]
              rfl
      | _ => cases h

/-!
## Exact identifiers
-/

/-- The identifier fields of a record: the value, the shift and the member it
comes from. -/
def idFields (c : StnsConf) :
    (db : Database) -> db.Record -> List (UInt32 × Int32 × Bytes)
  | .passwd, rbuf =>
      [(rbuf.pwUid, c.uidShift, Key.id), (rbuf.pwGid, c.gidShift, Key.groupId)]
  | .group, rbuf => [(rbuf.grGid, c.gidShift, Key.id)]
  | .spwd, _ => []

/-- The returned value is a numeric, non-negative member of the element plus
the shift, without wrapping. -/
def ExactId (entry : Option JsonObject)
    (field : UInt32 × Int32 × Bytes) : Prop :=
  exists n : Int,
    jsonObjectGetValue entry field.2.2 = some (.number n) ∧ 0 <= n ∧
      n + field.2.1.toInt < 2 ^ 32 ∧
      (field.1.toNat : Int) = n + field.2.1.toInt

/-- Every identifier of the record is exact, and a lookup by identifier returns
the one that was asked for. -/
def ExactIds (c : StnsConf) (db : Database) (access : Access)
    (entry : Option JsonObject) (rbuf : db.Record) : Prop :=
  (forall field, field ∈ idFields c db rbuf -> ExactId entry field) ∧
    forall key, access = .lookup (.id key) ->
      forall field, field ∈ idFields c db rbuf -> field.2.2 = Key.id ->
        field.1 = key

/-- On every machine and for every buffer, an access that returns success
returns exact identifiers of the element it picked. -/
def IdsNeverInvented (c : StnsConf) (db : Database) (root : Json)
    (setent : EntryState -> NssStatus × EntryState) (access : Access) :
    Prop :=
  forall (M : Machine) (p : Packing db.Record) r,
    access.run M c db root setent p = some r -> r.status = .success ->
    exists entry, access.chosen M c db root = some entry ∧
      ExactIds c db access entry r.rbuf

/-- The identifier members that a record of the database is made of. -/
def idMembers (c : StnsConf) : Database -> List (Int32 × Bytes)
  | .passwd => [(c.uidShift, Key.id), (c.gidShift, Key.groupId)]
  | .group => [(c.gidShift, Key.id)]
  | .spwd => []

/-- The member is a number that stays within {lit}`int` before and after the
shift, and is not negative. -/
def IdInRange (entry : Option JsonObject) (member : Int32 × Bytes) : Prop :=
  exists n : Int,
    jsonObjectGetValue entry member.2 = some (.number n) ∧ 0 <= n ∧
      n + member.1.toInt < 2 ^ 31

def IdsInRange (c : StnsConf) (db : Database)
    (entry : Option JsonObject) : Prop :=
  forall member, member ∈ idMembers c db -> IdInRange entry member

/-!
## What the builders compute
-/

theorem idFields_of_success {M : Machine} {c : StnsConf} {db : Database}
    {entry : Option JsonObject} {p : Packing db.Record}
    (h : (db.ensure M c entry p).status = .success) :
    idFields c db (db.ensure M c entry p).rbuf =
      (idMembers c db).map
        (fun member => (shiftedId M member.1 entry member.2, member)) := by
  rcases (Database.ensure_success_iff p).mp h with ⟨ha, hroom⟩
  cases db with
  | passwd =>
      simp only [Database.ensure, passwdEnsure_ok hroom]
      rfl
  | group =>
      rcases Option.isSome_iff_exists.mp (ha rfl) with ⟨name, hname⟩
      have hgid := (groupEnsure_ok (M := M) (c := c) hname hroom).right.right
      simp only [idFields, Database.ensure, hgid.right]
      rfl
  | spwd => rfl

theorem shift_nonneg {c : StnsConf} (huid : 0 <= c.uidShift.toInt)
    (hgid : 0 <= c.gidShift.toInt) {db : Database} {member : Int32 × Bytes}
    (h : member ∈ idMembers c db) : 0 <= member.1.toInt := by
  cases db <;> simp [idMembers] at h
  · rcases h with h | h <;> rw [h] <;> assumption
  · rw [h]
    exact hgid

/-- In range before and after the shift, every machine computes the exact
sum. -/
theorem shiftedId_toNat (M : Machine) {entry : Option JsonObject}
    {shift : Int32} {key : Bytes} {n : Int}
    (hnumber : jsonObjectGetValue entry key = some (.number n))
    (hn : 0 <= n) (hlt : n < 2 ^ 31) (hlow : 0 <= n + shift.toInt)
    (hsum : n + shift.toInt < 2 ^ 31) :
    ((shiftedId M shift entry key).toNat : Int) = n + shift.toInt := by
  have hread : jsonObjectGetNumber entry key = n := by
    simp [jsonObjectGetNumber, hnumber, jsonValueGetNumber]
  have hint : (M.intOfDouble n).toInt = n :=
    M.intOfDouble_exact n (by omega) hlt
  have hadd : (M.intAdd shift (M.intOfDouble n)).toInt = shift.toInt + n := by
    rw [M.intAdd_exact _ _ (by omega) (by omega), hint]
  unfold shiftedId
  rw [hread, MachineInt.toUInt32_of_nonneg (by omega), hadd]
  omega

theorem shiftedId_exact (M : Machine) {entry : Option JsonObject}
    {shift : Int32} {key : Bytes} {n : Int}
    (hnumber : jsonObjectGetValue entry key = some (.number n))
    (hn : 0 <= n) (hshift : 0 <= shift.toInt)
    (hsum : n + shift.toInt < 2 ^ 31) :
    ((shiftedId M shift entry key).toNat : Int) = n + shift.toInt :=
  shiftedId_toNat M hnumber hn (by omega) (by omega) hsum

/-- In range before and after the shift, the unsigned match test is exact. -/
theorem idMatches_eq (M : Machine) {shift : Int32} {leaf : JsonObject}
    {n : Int}
    (hnumber : jsonObjectGetValue (some leaf) Key.id = some (.number n))
    (hn : 0 <= n) (hlt : n < 2 ^ 31) (hlow : 0 <= n + shift.toInt)
    (hsum : n + shift.toInt < 2 ^ 31) (key : UInt32) :
    idMatches M shift key leaf =
      some (decide ((key.toNat : Int) = n + shift.toInt)) := by
  have hread : jsonObjectGetNumber (some leaf) Key.id = n := by
    simp [jsonObjectGetNumber, hnumber, jsonValueGetNumber]
  have huint : ((M.uintOfDouble n).toNat : Int) = n :=
    M.uintOfDouble_exact n hn (by omega)
  have hunsigned := MachineInt.toUInt32_emod shift
  have hkey := key.toNat_lt
  unfold idMatches
  dsimp only
  rw [hread]
  congr 1
  rw [decide_eq_decide, ← UInt32.toNat_inj, UInt32.toNat_add]
  constructor
  · intro h
    omega
  · intro h
    omega

/-- A machine that answers every open case with zero. -/
def Machine.zeroed (M : Machine) : Machine :=
  (M.withInt 0).withAdd 0

theorem shiftedId_zeroed_ne (M : Machine) {entry : Option JsonObject}
    {shift : Int32} {key : Bytes} {n : Int}
    (hnumber : jsonObjectGetValue entry key = some (.number n))
    (hn : 0 <= n) (hshift : 0 <= shift.toInt)
    (hsum : 2 ^ 31 <= n + shift.toInt) :
    ((shiftedId M.zeroed shift entry key).toNat : Int) ≠
      n + shift.toInt := by
  have hread : jsonObjectGetNumber entry key = n := by
    simp [jsonObjectGetNumber, hnumber, jsonValueGetNumber]
  have hlt := shift.toInt_lt
  unfold shiftedId
  rw [hread]
  by_cases hfits : n < 2 ^ 31
  · have hint : (M.zeroed.intOfDouble n).toInt = n :=
      M.zeroed.intOfDouble_exact n (by omega) hfits
    have hadd : M.zeroed.intAdd shift (M.zeroed.intOfDouble n) = 0 := by
      show (if _ then _ else (0 : Int32)) = 0
      rw [if_neg]
      intro hrange
      have hhigh := hrange.right
      rw [hint] at hhigh
      omega
    rw [hadd]
    show ((0 : Nat) : Int) ≠ _
    omega
  · have hint : M.zeroed.intOfDouble n = 0 := by
      show (if _ then _ else (0 : Int32)) = 0
      rw [if_neg]
      omega
    have hzero : (0 : Int32).toInt = 0 := rfl
    have hadd : (M.zeroed.intAdd shift 0).toInt = shift.toInt := by
      rw [M.zeroed.intAdd_exact _ _ (by omega) (by omega), hzero]
      omega
    rw [hint, MachineInt.toUInt32_of_nonneg (by omega), hadd]
    omega

theorem chosen_zeroed (M : Machine) (c : StnsConf) (db : Database)
    (root : Json) (access : Access) :
    access.chosen M.zeroed c db root = access.chosen M c db root := by
  cases access with
  | lookup key => cases key <;> rfl
  | step idx => rfl

/-- In range, the unsigned match test and the signed builder agree. -/
theorem key_eq_of_match {M : Machine} {shift : Int32} {key : UInt32}
    {leaf : JsonObject} {value : UInt32} {n : Int}
    (hmatch : idMatches M shift key leaf = some true)
    (hnumber : jsonObjectGetValue (some leaf) Key.id = some (.number n))
    (hn : 0 <= n) (hshift : 0 <= shift.toInt)
    (hsum : n + shift.toInt < 2 ^ 31)
    (hvalue : (value.toNat : Int) = n + shift.toInt) : value = key := by
  rw [idMatches_eq M hnumber hn (by omega) (by omega) hsum] at hmatch
  injection hmatch with hmatch
  have hkey := of_decide_eq_true hmatch
  apply UInt32.toNat_inj.mp
  omega

/-!
## Exactly the elements in range
-/

theorem idShift_of_member {c : StnsConf} {db : Database}
    {member : Int32 × Bytes} (hmember : member ∈ idMembers c db)
    (hid : member.2 = Key.id) : member.1 = db.idShift c := by
  cases db <;> simp [idMembers] at hmember
  · rcases hmember with hmember | hmember
    · rw [hmember]
      rfl
    · rw [hmember] at hid
      exact absurd hid (show Key.groupId ≠ Key.id by decide)
  · rw [hmember]
    rfl

/-- A lookup by identifier picks an element that the match test accepts. -/
theorem match_of_chosen {M : Machine} {c : StnsConf} {db : Database}
    {root : Json} {key : UInt32} {entry : Option JsonObject}
    (h : (Access.lookup (.id key)).chosen M c db root = some entry) :
    exists leaf, entry = some leaf ∧
      idMatches M (db.idShift c) key leaf = some true := by
  simp only [Access.chosen] at h
  cases hscan : scan (LookupKey.matchMethod M c db (.id key))
      (objectsOf (elementsOf root)) with
  | crash =>
      rw [hscan] at h
      cases h
  | notFound =>
      rw [hscan] at h
      cases h
  | found leaf =>
      rw [hscan] at h
      injection h with hleaf
      exact ⟨leaf, hleaf.symm, scan_found hscan⟩

/-- Every machine returns the exact identifiers of an element in range. -/
theorem exactIds_of_inRange {M : Machine} {c : StnsConf} {db : Database}
    (huid : 0 <= c.uidShift.toInt) (hgid : 0 <= c.gidShift.toInt)
    {root : Json} {access : Access} {entry : Option JsonObject}
    {p : Packing db.Record}
    (hchosen : access.chosen M c db root = some entry)
    (hsuccess : (db.ensure M c entry p).status = .success)
    (hrange : IdsInRange c db entry) :
    ExactIds c db access entry (db.ensure M c entry p).rbuf := by
  unfold ExactIds
  rw [idFields_of_success hsuccess]
  constructor
  · intro field hfield
    rcases List.mem_map.mp hfield with ⟨member, hmember, hfield⟩
    rcases hrange member hmember with ⟨n, hnumber, hn, hsum⟩
    rw [← hfield]
    have hwidth : n + member.1.toInt < 2 ^ 32 := by omega
    exact ⟨n, hnumber, hn, hwidth,
      shiftedId_exact M hnumber hn (shift_nonneg huid hgid hmember) hsum⟩
  · intro key hkey field hfield hid
    subst hkey
    rcases List.mem_map.mp hfield with ⟨member, hmember, hfield⟩
    rcases hrange member hmember with ⟨n, hnumber, hn, hsum⟩
    rcases match_of_chosen hchosen with ⟨leaf, hleaf, hmatch⟩
    have hshift := shift_nonneg huid hgid hmember
    have hvalue := shiftedId_exact M hnumber hn hshift hsum
    rw [← hfield] at hid ⊢
    subst hleaf
    rw [show member.2 = Key.id from hid] at hnumber
    rw [idShift_of_member hmember hid] at hshift hsum hvalue
    simp only [idShift_of_member hmember hid]
    exact key_eq_of_match hmatch hnumber hn hshift hsum hvalue

/-- An element that is never returned with invented identifiers carries them
in range: otherwise some machine would invent them. -/
theorem inRange_of_neverInvented {M : Machine} {c : StnsConf}
    {db : Database} (huid : 0 <= c.uidShift.toInt)
    (hgid : 0 <= c.gidShift.toInt) {root : Json}
    {setent : EntryState -> NssStatus × EntryState} {access : Access}
    {entry : Option JsonObject}
    (h : IdsNeverInvented c db root setent access)
    (hchosen : access.chosen M c db root = some entry)
    (haccepts : db.Accepts entry) : IdsInRange c db entry := by
  intro member hmember
  let p := db.blankPacking (db.need entry)
  have hchosen' : access.chosen M.zeroed c db root = some entry := by
    rw [chosen_zeroed]
    exact hchosen
  have hsuccess := (Database.ensure_ok (M := M.zeroed) (c := c) p haccepts
    (Nat.le_refl _)).left
  rcases h M.zeroed p _ (Access.run_of_chosen setent p hchosen')
    hsuccess with ⟨entry', hentry, hexact, _⟩
  have hsame : entry = entry' := by
    rw [hchosen'] at hentry
    exact Option.some.inj hentry
  subst hsame
  have hfield : (shiftedId M.zeroed member.1 entry member.2, member) ∈
      idFields c db (db.ensure M.zeroed c entry p).rbuf := by
    rw [idFields_of_success hsuccess]
    exact List.mem_map_of_mem hmember
  rcases hexact _ hfield with ⟨n, hnumber, hn, _, hvalue⟩
  refine ⟨n, hnumber, hn, ?_⟩
  by_contra hrange
  exact shiftedId_zeroed_ne M hnumber hn (shift_nonneg huid hgid hmember)
    (by omega) hvalue

/-- The identifiers that an access returns are exact on every machine exactly
when the elements it can pick carry them within range. -/
theorem exactIds_iff {c : StnsConf} (huid : 0 <= c.uidShift.toInt)
    (hgid : 0 <= c.gidShift.toInt) (db : Database) (root : Json)
    (setent : EntryState -> NssStatus × EntryState) (access : Access) :
    IdsNeverInvented c db root setent access <->
      forall (M : Machine) entry, access.chosen M c db root = some entry ->
        db.Accepts entry -> IdsInRange c db entry := by
  constructor
  · intro h M entry hchosen haccepts
    exact inRange_of_neverInvented huid hgid h hchosen haccepts
  · intro h M p r hrun hsuccess
    rcases Access.run_success hrun hsuccess with ⟨entry, hchosen, hreply⟩
    subst hreply
    have haccepts := ((Database.ensure_success_iff p).mp hsuccess).left
    exact ⟨entry, hchosen, exactIds_of_inRange huid hgid hchosen hsuccess
      (h M entry hchosen haccepts)⟩

/-- A user without an id is handed out as uid 0. -/
theorem missing_id_returned_as_zero :
    (exists r, (Access.lookup (.name (literal "user1"))).run Machine.wrapping
        {} .passwd (.array [.object [(Key.name, .string (ascii "user1"))]])
        (fun st => (.unavail, st)) (Database.passwd.blankPacking 64) =
          some r ∧
        r.status = .success ∧ r.rbuf.pwUid = 0) ∧
      ¬ IdsNeverInvented {} .passwd
        (.array [.object [(Key.name, .string (ascii "user1"))]])
        (fun st => (.unavail, st)) (.lookup (.name (literal "user1"))) := by
  refine ⟨⟨_, rfl, by decide, by decide⟩, ?_⟩
  intro h
  rcases h Machine.wrapping (Database.passwd.blankPacking 64) _ rfl
    (by decide) with ⟨entry, hchosen, hexact, _⟩
  injection hchosen with hentry
  rcases hexact _ List.mem_cons_self with ⟨n, hnumber, _⟩
  rw [← hentry] at hnumber
  cases hnumber

/-- A user with both identifiers, under shifts. -/
theorem exactIds_iff_shifted_user :
    IdsNeverInvented { uidShift := 1000, gidShift := 2000 } .passwd
        (.array [.object [(Key.name, .string (ascii "user1")),
          (Key.id, .number 1), (Key.groupId, .number 2)]])
        (fun st => (.unavail, st)) (.lookup (.id 1001)) <->
      forall (M : Machine) entry,
        (Access.lookup (.id 1001)).chosen M
          { uidShift := 1000, gidShift := 2000 } .passwd
          (.array [.object [(Key.name, .string (ascii "user1")),
            (Key.id, .number 1), (Key.groupId, .number 2)]]) = some entry ->
        Database.passwd.Accepts entry ->
        IdsInRange { uidShift := 1000, gidShift := 2000 } .passwd entry :=
  exactIds_iff (by decide) (by decide) .passwd _ _ _

end Stns
