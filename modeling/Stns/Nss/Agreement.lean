import Stns.Nss.EnumerationComplete
import Stns.Nss.Identifiers
import Stns.Nss.Layout

/-!
# Lookups agree with the enumeration

A lookup searches the raw members of the elements, the enumeration builds a
record of each.  For a document of complete elements, a lookup returns the
first enumerated record with the name or the identifier asked for.
-/

namespace Stns

open MachineInt

/-!
## Enumerated records
-/

/-- The records among the answers of a run. -/
def yielded {record : Type} :
    List (EnumReply record × EntryState) -> List (Reply record)
  | [] => []
  | (.status _, _) :: rest => yielded rest
  | (.entry r, _) :: rest =>
      if r.status = .success then r :: yielded rest else yielded rest

namespace Database

def nameField : (db : Database) -> db.Record -> Nat
  | passwd, rbuf => rbuf.pwName
  | group, rbuf => rbuf.grName
  | spwd, rbuf => rbuf.spNamp

/-- The record's name field points to the name and its terminator. -/
def hasName (db : Database) (key : CString) (r : Reply db.Record) : Bool :=
  decide (r.mem.read (db.nameField r.rbuf) (key.chars.length + 1) =
    stringCells key)

/-- The record has the identifier; a shadow record has none. -/
def hasId : (db : Database) -> UInt32 -> Reply db.Record -> Bool
  | passwd, key, r => decide (r.rbuf.pwUid = key)
  | group, key, r => decide (r.rbuf.grGid = key)
  | spwd, _, _ => false

/-- The element's identifier with the shift is the one asked for. -/
def shiftedTo (c : StnsConf) (db : Database) (key : UInt32)
    (element : Json) : Bool :=
  match jsonObjectGetValue (objectOf element) Key.id with
  | some (.number n) =>
      decide ((key.toNat : Int) = n + (db.idShift c).toInt)
  | _ => false

end Database

/-- A number that is an identifier before and after the shift. -/
def ShiftableId (entry : Option JsonObject) (member : Int32 × Bytes) : Prop :=
  exists n : Int,
    jsonObjectGetValue entry member.2 = some (.number n) ∧ 0 <= n ∧
      n < 2 ^ 31 ∧ 0 <= n + member.1.toInt ∧ n + member.1.toInt < 2 ^ 31

/-- An object with a name that is stored whole, and identifiers that can be
shifted. -/
structure CompleteElement (c : StnsConf) (db : Database)
    (element : Json) : Prop where
  named : exists leaf name, objectOf element = some leaf ∧
    nameOf leaf = some name ∧ name.length < maxBufferSize
  id : ShiftableId (objectOf element) (db.idShift c, Key.id)
  groupId : db = .passwd ->
    ShiftableId (objectOf element) (c.gidShift, Key.groupId)
  members : db = .group -> AllStrings (userElements (objectOf element))

/-!
## The enumeration builds every record
-/

section Enumeration

variable (M : Machine) (c : StnsConf) (db : Database)
  (setent : EntryState -> NssStatus × EntryState)

theorem yielded_gets (root : Json) (st : EntryState)
    (gets : List (Packing db.Record)) :
    yielded (enumRun M c db setent root st (gets.map .get)) =
      (getReplies M c db setent st gets).filter
        (fun r => decide (r.status = .success)) := by
  induction gets generalizing st with
  | nil => rfl
  | cons p rest ih =>
      have hrest := ih (innerNssStnsGetentR M c db setent st p).2
      unfold getReplies
      rw [List.filter_cons, ← hrest]
      by_cases hsuccess :
          (innerNssStnsGetentR M c db setent st p).1.status = .success
      · rw [if_pos (decide_eq_true hsuccess)]
        exact if_pos hsuccess
      · rw [if_neg (fun h => hsuccess (of_decide_eq_true h))]
        exact if_neg hsuccess

variable {M c db}

/-- With room for every record, a full enumeration yields the record of every
element, in order. -/
theorem yielded_full {items : List Json} {p : Packing db.Record}
    (haccepts : forall element, element ∈ items ->
      db.Accepts (objectOf element))
    (hroom : forall element, element ∈ items ->
      db.need (objectOf element) <= p.buflen)
    (st : EntryState) {n : Nat} (hn : items.length < n) :
    yielded (enumRun M c db setent (.array items) st
        (.set :: List.replicate n (.get p))) =
      items.map (fun element => db.ensure M c (objectOf element) p) := by
  have hgets : List.replicate n (EnumOp.get p) =
      (List.replicate n p).map .get := List.map_replicate.symm
  have hserved : forall element, element ∈ items ->
      (entryCursor M c db).taken ((entryCursor M c db).serve element p) =
        true := by
    intro element hmem
    apply decide_eq_true
    exact (Database.ensure_ok p (haccepts element hmem)
      (hroom element hmem)).left
  have hsplit : n = items.length + (n - items.length) := by omega
  have hdrain := (entryCursor M c db).drain_append items [] p
    (n - items.length) hserved
  rw [List.append_nil, ← hsplit, CursorSpec.drain_exhausted] at hdrain
  show yielded (enumRun M c db setent (.array items)
    (EntryState.loaded (.array items)) (List.replicate n (.get p))) = _
  rw [hgets, yielded_gets]
  unfold EntryState.loaded
  rw [getReplies_eq_drain, List.drop_zero, hdrain, List.filter_append]
  have hall : (items.map
      (fun element => (entryCursor M c db).serve element p)).filter
        (fun r => decide (r.status = .success)) =
      items.map (fun element => (entryCursor M c db).serve element p) := by
    apply List.filter_eq_self.mpr
    intro r hr
    rcases List.mem_map.mp hr with ⟨element, hmem, hr⟩
    rw [← hr]
    exact hserved element hmem
  have hnone : ((List.replicate (n - items.length) p).map
      (entryCursor M c db).exhausted).filter
        (fun r => decide (r.status = .success)) = [] := by
    apply List.filter_eq_nil_iff.mpr
    intro r hr
    rcases List.mem_map.mp hr with ⟨a, _, hr⟩
    rw [← hr]
    exact Bool.eq_false_iff.mp rfl
  rw [hall, hnone, List.append_nil]
  rfl

end Enumeration

/-!
## The name of a record
-/

theorem stringCells_unique {mem : Memory Cell} {o : Nat} {s t : CString}
    (hs : mem.read o (s.chars.length + 1) = stringCells s)
    (ht : mem.read o (t.chars.length + 1) = stringCells t) : s = t := by
  have hlt : forall s t : CString,
      mem.read o (s.chars.length + 1) = stringCells s ->
      mem.read o (t.chars.length + 1) = stringCells t ->
        ¬ s.chars.length < t.chars.length := by
    intro s t hs ht hlt
    -- the terminator of the shorter one is a character of the other
    have hnul := Memory.cell_of_read hs (Nat.lt_succ_self _)
    have hchar := Memory.cell_of_read ht (Nat.lt_succ_of_lt hlt)
    rw [← hnul] at hchar
    unfold stringCells at hchar
    rw [List.getElem?_map, List.getElem?_map,
      List.getElem?_append_left hlt,
      List.getElem?_append_right (Nat.le_refl _), Nat.sub_self,
      List.getElem?_eq_getElem hlt] at hchar
    injection hchar with hchar
    injection hchar with hchar
    apply t.nulFree
    rw [← show t.chars[s.chars.length] = 0 from hchar]
    exact List.getElem_mem hlt
  have hlength : s.chars.length = t.chars.length :=
    Nat.le_antisymm (Nat.le_of_not_lt (hlt t s ht hs))
      (Nat.le_of_not_lt (hlt s t hs ht))
  rw [hlength, ht] at hs
  unfold stringCells at hs
  have hcells := (List.map_inj_right
    (fun a b (h : Cell.byte a = Cell.byte b) => Cell.byte.inj h)).mp hs
  apply CString.ext
  exact (List.append_cancel_right hcells).symm

section Names

variable {M : Machine} {c : StnsConf} {entry : Option JsonObject}
  {name : CString}

theorem placeAll_first {record : Type} {a : Attribute record}
    (rest : List (Attribute record)) (h : a.text.length < maxBufferSize)
    (p : Packing record) :
    (placeAll (a :: rest) p).mem.read p.buf (a.text.chars.length + 1) =
      stringCells a.text := by
  have hlength := stringCells_length a.text
  unfold CString.length at hlength
  rw [placeAll_mem, List.flatMap_cons, List.map_append,
    Attribute.stored_of_short h]
  generalize (rest.flatMap Attribute.stored).map Cell.byte = back
  have hinside : 0 + (a.text.chars.length + 1) <=
      (stringCells a.text ++ back).length := by
    rw [List.length_append, hlength]
    omega
  have hpart := Memory.read_write_part p.mem p.buf hinside
  rw [Nat.add_zero, List.drop_zero, List.take_left' hlength] at hpart
  exact hpart

/-- The members of a group leave what lies in front of the pointer area. -/
theorem groupEnsure_below {p : Packing Group} (hbuflen : p.buflen < 2 ^ 63)
    (h : (groupEnsure M c entry p).status = .success) {a : Nat}
    (ha : a < vectorStart entry p) :
    (groupEnsure M c entry p).mem a = (groupFront M c entry p).mem a := by
  rcases groupEnsure_success h with ⟨p', hloop, hmem, _⟩
  have hnonneg := ptrAreaSize_nonneg hbuflen (ptrAreaSize_le_buflen h)
  have hname : a < (skipPointerArea
      (ptrAreaSize (jsonObjectGetArray entry Key.users))
      (groupFront M c entry p)).buf := by
    unfold skipPointerArea
    dsimp only
    rw [groupFront_buf]
    omega
  rw [hmem, Memory.write_outside _ (.inl (by omega)),
    setMembers_below (by omega) hname hloop]
  rfl

/-- A name attribute in front of a row is held at the row's start. -/
theorem placeAll_name {record : Type} (set : Nat -> record -> record)
    (hname : jsonObjectGetString entry Key.name = some name)
    (hshort : name.length < maxBufferSize)
    (rest : List (Attribute record)) (p : Packing record) :
    (placeAll (⟨set, jsonObjectGetString entry Key.name⟩ :: rest) p).mem.read
        p.buf (name.chars.length + 1) = stringCells name := by
  have htext : (Attribute.mk set
      (jsonObjectGetString entry Key.name)).text = name := by
    rw [hname]
    rfl
  have hfirst := placeAll_first rest (by rwa [htext]) p
  rwa [htext] at hfirst

/-- The name of a group ends in front of the pointer area. -/
theorem name_below_vector {p : Packing Group}
    (hname : jsonObjectGetString entry Key.name = some name)
    (hshort : name.length < maxBufferSize) :
    p.buf + (name.chars.length + 1) <= vectorStart entry p := by
  have htext : (Attribute.mk (fun buf (r : Group) => { r with grName := buf })
      (jsonObjectGetString entry Key.name)).text = name := by
    rw [hname]
    rfl
  unfold vectorStart groupAttributes
  rw [attributesSize_cons, Attribute.size_of_short (by rwa [htext]), htext]
  unfold CString.length
  omega

/-- A record's name field holds the name of its element. -/
theorem name_held {db : Database} {p : Packing db.Record}
    (hbuflen : p.buflen < 2 ^ 63)
    (hname : jsonObjectGetString entry Key.name = some name)
    (hshort : name.length < maxBufferSize)
    (h : (db.ensure M c entry p).status = .success) :
    (db.ensure M c entry p).mem.read
        (db.nameField (db.ensure M c entry p).rbuf)
          (name.chars.length + 1) = stringCells name := by
  have hroom := ((Database.ensure_success_iff p).mp h).right
  cases db with
  | passwd =>
      show (passwdEnsure M c entry p).mem.read
        (passwdEnsure M c entry p).rbuf.pwName _ = _
      rw [passwdEnsure_ok hroom]
      exact placeAll_name _ hname hshort (passwdAttributes entry).tail
        { p with rbuf := passwdIds M c entry p.rbuf }
  | spwd =>
      show (shadowEnsure entry p).mem.read
        (shadowEnsure entry p).rbuf.spNamp _ = _
      rw [shadowEnsure_ok hroom]
      exact placeAll_name _ hname hshort (shadowAttributes entry).tail p
  | group =>
      have hfirst := placeAll_name
        (fun buf (r : Group) => { r with grName := buf }) hname hshort
          (groupAttributes entry).tail
            { p with rbuf := groupIds M c entry p.rbuf }
      have hfield : (groupEnsure M c entry p).rbuf.grName = p.buf := by
        rcases groupEnsure_success h with ⟨_, _, _, hrbuf⟩
        rw [hrbuf]
        rfl
      have hinside := name_below_vector (p := p) hname hshort
      show (groupEnsure M c entry p).mem.read
        (groupEnsure M c entry p).rbuf.grName _ = _
      rw [hfield]
      refine Eq.trans ?_ hfirst
      -- the members are written behind the name
      apply Memory.read_congr
      intro a hlow hhigh
      exact groupEnsure_below hbuflen h (by omega)

end Names

/-!
## What a lookup finds
-/

section Search

variable {M : Machine} {c : StnsConf} {db : Database} {items : List Json}
  {p : Packing db.Record}

/-- A lookup whose match method tests the elements finds the first one. -/
theorem lookup_eq_find (key : LookupKey) {test : Json -> Bool}
    (h : forall element, element ∈ items -> exists leaf,
      objectOf element = some leaf ∧
        key.matchMethod M c db leaf = some (test element)) :
    lookup M c db key (some (.array items)) p =
      some (((items.find? test).map
        (fun element => db.ensure M c (objectOf element) p)).getD
          (p.reply .notFound)) := by
  show ensureLoop _ _ p items = _
  induction items with
  | nil => rfl
  | cons element rest ih =>
      rcases h element List.mem_cons_self with ⟨leaf, hobject, hmatch⟩
      have hrest := ih (fun next hnext =>
        h next (List.mem_cons_of_mem element hnext))
      unfold ensureLoop
      rw [hobject]
      dsimp only
      rw [hmatch, List.find?_cons]
      cases test element with
      | true => simp [hobject]
      | false => exact hrest

/-- The position of the first element that passes a test leads to its
record. -/
theorem record_at_findIdx (test : Json -> Bool) (items : List Json) :
    (items.findIdx? test).bind (fun i => (items.map
        (fun element => db.ensure M c (objectOf element) p))[i]?) =
      (items.find? test).map
        (fun element => db.ensure M c (objectOf element) p) := by
  induction items with
  | nil => rfl
  | cons element rest ih =>
      rw [List.findIdx?_cons, List.find?_cons]
      cases test element with
      | true => rfl
      | false =>
          rw [← ih]
          simp only [Bool.false_eq_true, if_false, Option.bind_map]
          rfl

theorem find_congr {test test' : Json -> Bool}
    (h : forall element, element ∈ items -> test element = test' element) :
    items.find? test = items.find? test' := by
  induction items with
  | nil => rfl
  | cons element rest ih =>
      rw [List.find?_cons, List.find?_cons, h element List.mem_cons_self,
        ih (fun next hnext => h next (List.mem_cons_of_mem element hnext))]

/-- The first record that passes a test is that of the first element whose
record does. -/
theorem find_records (test : Reply db.Record -> Bool) (items : List Json) :
    (items.map (fun element =>
        db.ensure M c (objectOf element) p)).find? test =
      (items.find? (fun element =>
        test (db.ensure M c (objectOf element) p))).map
          (fun element => db.ensure M c (objectOf element) p) :=
  List.find?_map

variable {element : Json}

theorem CompleteElement.accepts (h : CompleteElement c db element) :
    db.Accepts (objectOf element) := by
  rcases h.named with ⟨leaf, name, hobject, hname, _⟩
  rw [hobject]
  apply Database.accepts_of_named
  unfold Named
  rw [hname]
  rfl

theorem hasName_ensure (hbuflen : p.buflen < 2 ^ 63)
    (h : CompleteElement c db element)
    (hroom : db.need (objectOf element) <= p.buflen) (key : CString) :
    exists leaf, objectOf element = some leaf ∧
      nameMatches key leaf =
        some (db.hasName key (db.ensure M c (objectOf element) p)) := by
  rcases h.named with ⟨leaf, name, hobject, hname, hshort⟩
  have hsuccess := (Database.ensure_ok (M := M) (c := c) p h.accepts
    hroom).left
  rw [hobject] at hsuccess
  have hheld := name_held hbuflen hname hshort hsuccess
  refine ⟨leaf, hobject, ?_⟩
  unfold nameMatches Database.hasName
  rw [hname, hobject, Option.map_some]
  congr 1
  rw [decide_eq_decide]
  constructor
  · intro heq
    rw [← heq]
    exact hheld
  · intro hkey
    exact stringCells_unique hheld hkey

theorem shiftedTo_matches (h : CompleteElement c db element) (key : UInt32) :
    exists leaf, objectOf element = some leaf ∧
      idMatches M (db.idShift c) key leaf =
        some (db.shiftedTo c key element) := by
  rcases h.named with ⟨leaf, _, hobject, _, _⟩
  rcases h.id with ⟨n, hnumber, hn, hlt, hlow, hsum⟩
  dsimp only at hnumber hlow hsum
  have hmatch := hnumber
  rw [hobject] at hmatch
  refine ⟨leaf, hobject, ?_⟩
  rw [idMatches_eq M hmatch hn hlt hlow hsum]
  unfold Database.shiftedTo
  rw [hnumber]

theorem hasId_ensure (hdb : db ≠ .spwd) (h : CompleteElement c db element)
    (hroom : db.need (objectOf element) <= p.buflen) (key : UInt32) :
    db.hasId key (db.ensure M c (objectOf element) p) =
      db.shiftedTo c key element := by
  rcases h.id with ⟨n, hnumber, hn, hlt, hlow, hsum⟩
  dsimp only at hnumber hlow hsum
  have hvalue := shiftedId_toNat M hnumber hn hlt hlow hsum
  have hsuccess := (Database.ensure_ok (M := M) (c := c) p h.accepts
    hroom).left
  have hfields := idFields_of_success hsuccess
  have hdecide : forall value : UInt32,
      (value.toNat : Int) = n + (db.idShift c).toInt ->
        decide (value = key) = db.shiftedTo c key element := by
    intro value hvalue
    unfold Database.shiftedTo
    rw [hnumber]
    dsimp only
    rw [decide_eq_decide, ← hvalue, ← UInt32.toNat_inj, Int.ofNat_inj]
    exact eq_comm
  cases db with
  | passwd =>
      injection hfields with hfirst
      injection hfirst with huid
      apply hdecide
      rw [huid]
      exact hvalue
  | group =>
      injection hfields with hfirst
      injection hfirst with hgid
      apply hdecide
      rw [hgid]
      exact hvalue
  | spwd => exact absurd rfl hdb

end Search

/-- What the lookups return, against the records of a full enumeration. -/
structure LookupsAgree (M : Machine) (c : StnsConf) (db : Database)
    (items : List Json) (p : Packing db.Record)
    (records : List (Reply db.Record)) : Prop where
  byName : forall key, lookup M c db (.name key) (some (.array items)) p =
    some ((records.find? (db.hasName key)).getD (p.reply .notFound))
  byId : db ≠ .spwd -> forall key,
    lookup M c db (.id key) (some (.array items)) p =
      some ((records.find? (db.hasId key)).getD (p.reply .notFound))
  byPosition : forall key,
    lookup M c db (.id key) (some (.array items)) p =
      some (((items.findIdx? (db.shiftedTo c key)).bind
        (fun i => records[i]?)).getD (p.reply .notFound))

/-- For a document of complete elements and a buffer with room for each, every
lookup returns the first record that a full enumeration of the document yields
for its key, or reports that there is none. -/
theorem lookups_agree (M : Machine) (c : StnsConf) (db : Database)
    (setent : EntryState -> NssStatus × EntryState) {items : List Json}
    {p : Packing db.Record} (hbuflen : p.buflen < 2 ^ 63)
    (hitems : forall element, element ∈ items -> CompleteElement c db element)
    (hroom : forall element, element ∈ items ->
      db.need (objectOf element) <= p.buflen)
    (st : EntryState) {n : Nat} (hn : items.length < n) :
    LookupsAgree M c db items p
      (yielded (enumRun M c db setent (.array items) st
        (.set :: List.replicate n (.get p)))) := by
  have haccepts : forall element, element ∈ items ->
      db.Accepts (objectOf element) :=
    fun element hmem => (hitems element hmem).accepts
  have hfull := @yielded_full M c db setent items p haccepts hroom st n hn
  rw [hfull]
  constructor
  · intro key
    rw [find_records]
    exact lookup_eq_find (.name key) (fun element hmem =>
      hasName_ensure hbuflen (hitems element hmem) (hroom element hmem) key)
  · intro hdb key
    rw [find_records, find_congr (fun element hmem =>
      hasId_ensure hdb (hitems element hmem) (hroom element hmem) key)]
    exact lookup_eq_find (.id key) (fun element hmem =>
      shiftedTo_matches (hitems element hmem) key)
  · intro key
    rw [record_at_findIdx]
    exact lookup_eq_find (.id key) (fun element hmem =>
      shiftedTo_matches (hitems element hmem) key)

/-- Two users with one name, under a shift. -/
theorem lookups_agree_two_users :
    LookupsAgree Machine.wrapping { uidShift := 1000 } .passwd
      [.object [(Key.name, .string (ascii "user1")), (Key.id, .number 1),
          (Key.groupId, .number 2)],
        .object [(Key.name, .string (ascii "user1")), (Key.id, .number 3),
          (Key.groupId, .number 2)]]
      (Database.passwd.blankPacking 64)
      (yielded (enumRun Machine.wrapping { uidShift := 1000 } .passwd
        (fun st => (.unavail, st))
        (.array [.object [(Key.name, .string (ascii "user1")),
            (Key.id, .number 1), (Key.groupId, .number 2)],
          .object [(Key.name, .string (ascii "user1")),
            (Key.id, .number 3), (Key.groupId, .number 2)]])
        EntryState.unloaded
        (.set :: List.replicate 3
          (.get (Database.passwd.blankPacking 64))))) := by
  apply lookups_agree
  · decide
  · intro element hmem
    simp only [List.mem_cons, List.not_mem_nil, or_false] at hmem
    have hgroup : Database.passwd ≠ .group := by decide
    rcases hmem with rfl | rfl
    · exact ⟨⟨_, literal "user1", rfl, by decide, by decide⟩,
        ⟨1, rfl, by decide, by decide, by decide, by decide⟩,
        fun _ => ⟨2, rfl, by decide, by decide, by decide, by decide⟩,
        fun h => absurd h hgroup⟩
    · exact ⟨⟨_, literal "user1", rfl, by decide, by decide⟩,
        ⟨3, rfl, by decide, by decide, by decide, by decide⟩,
        fun _ => ⟨2, rfl, by decide, by decide, by decide, by decide⟩,
        fun h => absurd h hgroup⟩
  · decide
  · decide

end Stns
