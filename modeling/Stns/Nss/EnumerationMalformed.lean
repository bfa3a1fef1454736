import Mathlib.Algebra.Order.BigOperators.Group.List
import Stns.Nss.EnumerationComplete

/-!
# Malformed elements in an enumeration

An enumeration hands every array element to the record builder, whatever it is.
The passwd and shadow builders make a record of a malformed element; the group
builder refuses it, and the index stays on it for good.
-/

namespace Stns

section Observations

variable {record : Type}

/-- The records returned with success, in order. -/
def returnedRecords (replies : List (Reply record)) :
    List (record × Memory Cell) :=
  (replies.filter (fun r => decide (r.status = .success))).map
    (fun r => (r.rbuf, r.mem))

def endReported (r : Reply record) : Bool :=
  decide (r.status = .notFound ∧ r.errno = enoent)

/-- The first call that reports the end. -/
def endPoint (replies : List (Reply record)) : Option Nat :=
  replies.findIdx? endReported

end Observations

/-- After a successful set call on an array document, the get calls deliver the
same records and the same end as on the document without its malformed
elements. -/
def MalformedUnseen (M : Machine) (c : StnsConf) (db : Database)
    (setent : EntryState -> NssStatus × EntryState) (items : List Json) :
    Prop :=
  forall (st : EntryState) (gets : List (Packing db.Record)),
    let loaded := fun root => (innerNssStnsSetent true (some root) st).2
    let replies :=
      getReplies M c db setent (loaded (.array items)) gets
    let cleaned :=
      getReplies M c db setent (loaded (removeMalformed (.array items))) gets
    returnedRecords replies = returnedRecords cleaned ∧
      endPoint replies = endPoint cleaned

section Walk

variable {M : Machine} {c : StnsConf} {db : Database}

/-- Room for every element of the document. -/
def roomFor (db : Database) (items : List Json) : Nat :=
  (items.map (fun element => db.need (objectOf element))).sum

theorem need_le_roomFor {items : List Json} {element : Json}
    (h : element ∈ items) :
    db.need (objectOf element) <= roomFor db items := by
  unfold roomFor
  exact List.single_le_sum (fun _ _ => Nat.zero_le _) _
    (List.mem_map_of_mem h)

theorem taken_of_accepts {items : List Json} {element : Json} {room : Nat}
    (hmem : element ∈ items) (hroom : roomFor db items <= room)
    (ha : db.Accepts (objectOf element)) :
    (entryCursor M c db).taken
      ((entryCursor M c db).serve element (db.blankPacking room)) = true := by
  have hneed : db.need (objectOf element) <= room :=
    Nat.le_trans (need_le_roomFor hmem) hroom
  have hok := Database.ensure_ok (M := M) (c := c) (db.blankPacking room) ha
    hneed
  simpa [entryCursor] using hok.left

theorem not_endReported_of_taken {r : Reply db.Record}
    (h : (entryCursor M c db).taken r = true) : endReported r = false := by
  have hsuccess : r.status = .success := by
    simpa [entryCursor] using h
  simp [endReported, hsuccess]

theorem findIdx?_served {front : List Json} {p : Packing db.Record}
    {rest : List (Reply db.Record)}
    (h : forall element, element ∈ front ->
      (entryCursor M c db).taken ((entryCursor M c db).serve element p)
        = true) :
    endPoint (front.map (fun x => (entryCursor M c db).serve x p) ++ rest) =
      (endPoint rest).map (fun i => i + front.length) := by
  unfold endPoint
  rw [List.findIdx?_append]
  have hnone : (front.map
      (fun x => (entryCursor M c db).serve x p)).findIdx? endReported =
        none := by
    rw [List.findIdx?_eq_none_iff]
    intro r hr
    rcases List.mem_map.mp hr with ⟨element, hmem, hserve⟩
    rw [← hserve]
    exact not_endReported_of_taken (h element hmem)
  rw [hnone]
  simp

/-- With room for everything, an enumeration of accepted elements ends right
after the last one. -/
theorem endPoint_of_accepted (items : List Json) {room n : Nat}
    (hroom : roomFor db items <= room) (hn : items.length < n)
    (ha : forall element, element ∈ items -> db.Accepts (objectOf element)) :
    endPoint ((entryCursor M c db).drain items
      (List.replicate n (db.blankPacking room))) = some items.length := by
  have htaken : forall element, element ∈ items ->
      (entryCursor M c db).taken ((entryCursor M c db).serve element
        (db.blankPacking room)) = true :=
    fun element hmem => taken_of_accepts hmem hroom (ha element hmem)
  have hsplit := (entryCursor M c db).drain_append items []
    (db.blankPacking room) (n - items.length) htaken
  rw [List.append_nil, Nat.add_sub_cancel' (Nat.le_of_lt hn)] at hsplit
  rw [hsplit, findIdx?_served htaken, CursorSpec.drain_exhausted,
    List.map_replicate]
  rcases Nat.exists_eq_add_of_lt hn with ⟨k, hk⟩
  have hpos : n - items.length = k + 1 := by omega
  rw [hpos, List.replicate_succ]
  simp [endPoint, List.findIdx?_cons, endReported, entryCursor,
    Database.blankPacking]

/-- A malformed element among accepted ones keeps a group enumeration from ever
reporting its end. -/
theorem endPoint_group_stuck {front : List Json} (back : List Json)
    {bad : Json} {room n : Nat} (hroom : roomFor .group front <= room)
    (hn : front.length <= n)
    (ha : forall element, element ∈ front ->
      Database.group.Accepts (objectOf element))
    (hbad : wellFormed bad = false) :
    endPoint ((entryCursor M c .group).drain (front ++ bad :: back)
      (List.replicate n (Database.group.blankPacking room))) = none := by
  let p := Database.group.blankPacking room
  have htaken : forall element, element ∈ front ->
      (entryCursor M c .group).taken
        ((entryCursor M c .group).serve element p) = true :=
    fun element hmem => taken_of_accepts hmem hroom (ha element hmem)
  have hname : jsonObjectGetString (objectOf bad) Key.name = none := by
    unfold wellFormed at hbad
    cases hobject : objectOf bad with
    | none => rfl
    | some leaf =>
        rw [hobject] at hbad
        simpa [nameOf] using hbad
  have hserve : (entryCursor M c .group).serve bad p =
      { p.reply .notFound with unlocked := true } :=
    groupEnsure_nameless hname
  have hstuck := (entryCursor M c .group).drain_stuck (x := bad) (a := p)
    back (n - front.length) (by rw [hserve]; rfl)
  have hsplit := (entryCursor M c .group).drain_append front (bad :: back)
    p (n - front.length) htaken
  rw [Nat.add_sub_cancel' hn] at hsplit
  rw [hsplit, findIdx?_served htaken, hstuck, hserve]
  have hquiet : endPoint (List.replicate (n - front.length)
      ({ p.reply .notFound with unlocked := true } : Reply Group)) = none := by
    unfold endPoint
    rw [List.findIdx?_eq_none_iff]
    intro r hr
    rw [List.eq_of_mem_replicate hr]
    rfl
  rw [hquiet]
  rfl

end Walk

/-!
## Exactly the clean documents
-/

theorem getReplies_after_set (M : Machine) (c : StnsConf) (db : Database)
    (setent : EntryState -> NssStatus × EntryState) (st : EntryState)
    (items : List Json) (gets : List (Packing db.Record)) :
    getReplies M c db setent
        (innerNssStnsSetent true (some (.array items)) st).2 gets =
      (entryCursor M c db).drain items gets := by
  have hdrain := getReplies_eq_drain M c db setent items 0 gets
  rw [List.drop_zero] at hdrain
  exact hdrain

/-- The first malformed element of a document that has one. -/
theorem exists_first_malformed {items : List Json}
    (h : ¬ forall element, element ∈ items -> wellFormed element = true) :
    exists front bad back, items = front ++ bad :: back ∧
      wellFormed bad = false ∧
      forall element, element ∈ front -> wellFormed element = true := by
  cases hfind : items.find? (fun element => !wellFormed element) with
  | none =>
      rw [List.find?_eq_none] at hfind
      exact absurd (fun element hmem => by simpa using hfind element hmem) h
  | some bad =>
      rcases List.find?_eq_some_iff_append.mp hfind with
        ⟨hbad, front, back, hsplit, hfront⟩
      refine ⟨front, bad, back, hsplit, by simpa using hbad, ?_⟩
      intro element hmem
      simpa using hfront element hmem

/-- An enumeration takes no notice of malformed elements exactly when the
document has none. -/
theorem malformedUnseen_iff (M : Machine) (c : StnsConf) (db : Database)
    (setent : EntryState -> NssStatus × EntryState) (items : List Json) :
    MalformedUnseen M c db setent items <->
      forall element, element ∈ items -> wellFormed element = true := by
  constructor
  · intro h
    by_contra hmalformed
    rcases exists_first_malformed hmalformed with
      ⟨front, bad, back, hsplit, hbad, hfront⟩
    -- one call more than there are elements, each with room for all of them
    let room := roomFor db items + roomFor db (items.filter wellFormed)
    have hroom : roomFor db items <= room := Nat.le_add_right _ _
    have hcleanRoom : roomFor db (items.filter wellFormed) <= room :=
      Nat.le_add_left _ _
    have hshort : (items.filter wellFormed).length < items.length := by
      apply Nat.lt_of_le_of_ne (List.length_filter_le _ _)
      intro hlength
      exact hmalformed (List.length_filter_eq_length_iff.mp hlength)
    have hends := (h EntryState.unloaded
      (List.replicate (items.length + 1) (db.blankPacking room))).right
    simp only [removeMalformed, getReplies_after_set] at hends
    rw [endPoint_of_accepted (items.filter wellFormed) hcleanRoom
      (by omega) (fun element hmem =>
        accepts_of_wellFormed (List.mem_filter.mp hmem).right)] at hends
    by_cases hdb : db = .group
    · subst hdb
      have hfrontRoom : roomFor .group front <= room := by
        have hle : roomFor .group front <= roomFor .group items := by
          rw [hsplit]
          simp [roomFor]
        exact Nat.le_trans hle hroom
      have hstuck := endPoint_group_stuck (M := M) (c := c) back
        (n := items.length + 1) hfrontRoom
        (by rw [hsplit]; simp; omega)
        (fun element hmem => accepts_of_wellFormed (hfront element hmem)) hbad
      rw [← hsplit] at hstuck
      rw [hstuck] at hends
      cases hends
    · rw [endPoint_of_accepted items hroom (Nat.lt_succ_self _)
        (fun _ _ hgroup => absurd hgroup hdb)] at hends
      injection hends with hends
      omega
  · intro hclean st gets
    have hfilter : items.filter wellFormed = items :=
      List.filter_eq_self.mpr hclean
    simp [removeMalformed, hfilter]

/-- A null element becomes a passwd record without a name, and holds up a group
enumeration in front of a good entry. -/
theorem null_element_seen :
    (innerNssStnsGetentR Machine.wrapping {} .passwd
        (fun st => (.unavail, st)) (EntryState.loaded (.array [.null]))
        (Database.passwd.blankPacking 64)).1.status = .success ∧
      (innerNssStnsGetentR Machine.wrapping {} .group
        (fun st => (.unavail, st))
        (EntryState.loaded
          (.array [.null, .object [(Key.name, .string (ascii "group1"))]]))
        (Database.group.blankPacking 64)).1.status = .notFound ∧
      ¬ MalformedUnseen Machine.wrapping {} .passwd
        (fun st => (.unavail, st)) [.null] := by
  refine ⟨by decide, by decide, ?_⟩
  intro h
  have hrecords := (h EntryState.unloaded
    [Database.passwd.blankPacking 64]).left
  have hlength := congrArg List.length hrecords
  revert hlength
  decide

end Stns
