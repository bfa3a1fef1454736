import Stns.Foundation.Cursor
import Stns.Nss.Database

/-!
# Enumeration

The enumeration state of one database is a parsed document, or NULL, and an
index into it.  The functions below are the expansions of
{lit}`STNS_SET_ENTRIES`; {lit}`acquired` tells whether
{lit}`pthread_mutex_retrylock` got the mutex of the database.  The index is an
{lit}`int`, so documents have fewer than 2^31 elements.
-/

namespace Stns

structure EntryState where
  entries : Option Json
  entryIdx : Nat

namespace EntryState

def unloaded : EntryState :=
  ⟨none, 0⟩

/-- A freshly loaded document. -/
def loaded (root : Json) : EntryState :=
  ⟨some root, 0⟩

end EntryState

/-- {lit}`inner_nss_stns_setXent`, from the parsed document on. -/
def innerNssStnsSetent (acquired : Bool) (data : Option Json)
    (st : EntryState) : NssStatus × EntryState :=
  if acquired = false then
    (.unavail, st)
  else
    match data with
    | none => (.unavail, EntryState.unloaded)
    | some root => (.success, EntryState.loaded root)

/-- {lit}`_nss_stns_endXent` -/
def nssStnsEndent (acquired : Bool) (st : EntryState) :
    NssStatus × EntryState :=
  if acquired = false then
    (.unavail, st)
  else
    (.success, EntryState.unloaded)

/-- {lit}`inner_nss_stns_getXent_r`.  Without loaded entries it calls the public
{lit}`_nss_stns_setXent`, here {lit}`setent`, and goes on with the NULL array it
read before. -/
def innerNssStnsGetentR (M : Machine) (c : StnsConf) (db : Database)
    (setent : EntryState -> NssStatus × EntryState) (st : EntryState)
    (p : Packing db.Record) : Reply db.Record × EntryState :=
  let arrayEntries := jsonValueGetArray st.entries
  let (ret, st) :=
    match arrayEntries with
    | none => setent st
    | some _ => (.success, st)
  if ret ≠ .success then
    (p.reply ret, st)
  else if st.entryIdx >= jsonArrayGetCount arrayEntries then
    ({ p with errno := enoent }.reply .notFound, st)
  else
    let user := jsonArrayGetObject arrayEntries st.entryIdx
    let r := db.ensure M c user p
    if r.status = .success then
      (r, { st with entryIdx := st.entryIdx + 1 })
    else
      (r, st)

section Runs

variable (M : Machine) (c : StnsConf) (db : Database)
  (setent : EntryState -> NssStatus × EntryState)

/-- One call of a caller that walks a database. -/
inductive EnumOp (record : Type) where
  | set
  | get (p : Packing record)
  | endent

/-- What a call answers: a status for set and end, a whole reply for get. -/
inductive EnumReply (record : Type) where
  | status (value : NssStatus)
  | entry (r : Reply record)

/-- One call, with the mutex free; every set parses to the same document. -/
def enumStep (root : Json) (st : EntryState) :
    EnumOp db.Record -> EnumReply db.Record × EntryState
  | .set =>
      let (status, st) := innerNssStnsSetent true (some root) st
      (.status status, st)
  | .get p =>
      let (r, st) := innerNssStnsGetentR M c db setent st p
      (.entry r, st)
  | .endent =>
      let (status, st) := nssStnsEndent true st
      (.status status, st)

/-- The answers and states of a sequence of calls. -/
def enumRun (root : Json) :
    EntryState -> List (EnumOp db.Record) ->
      List (EnumReply db.Record × EntryState)
  | _, [] => []
  | st, op :: rest =>
      let next := enumStep M c db setent root st op
      next :: enumRun root next.2 rest

/-- The state a sequence of calls ends in. -/
def enumState (root : Json) (st : EntryState)
    (ops : List (EnumOp db.Record)) : EntryState :=
  ops.foldl (fun st op => (enumStep M c db setent root st op).2) st

theorem enumRun_append (root : Json) (st : EntryState)
    (front back : List (EnumOp db.Record)) :
    enumRun M c db setent root st (front ++ back) =
      enumRun M c db setent root st front ++
        enumRun M c db setent root
          (enumState M c db setent root st front) back := by
  induction front generalizing st with
  | nil => rfl
  | cons op rest ih =>
      show _ :: enumRun M c db setent root _ (rest ++ back) = _
      rw [ih]
      rfl

@[simp] theorem enumRun_length (root : Json) (st : EntryState)
    (ops : List (EnumOp db.Record)) :
    (enumRun M c db setent root st ops).length = ops.length := by
  induction ops generalizing st with
  | nil => rfl
  | cons op rest ih =>
      show (enumRun M c db setent root _ rest).length + 1 = _
      rw [ih]
      rfl

theorem enumState_append_set (root : Json) (st : EntryState)
    (front : List (EnumOp db.Record)) :
    enumState M c db setent root st (front ++ [.set]) =
      EntryState.loaded root := by
  simp [enumState, enumStep, innerNssStnsSetent]

/-!
## The enumeration is a cursor

While a document is loaded, the calls to get the next entry serve the elements
from the index on; a reply other than success keeps the element.
-/

/-- The record builder as a cursor over array elements. -/
def entryCursor : CursorSpec Json (Packing db.Record) (Reply db.Record) where
  serve element p := db.ensure M c (objectOf element) p
  exhausted p := { p with errno := enoent }.reply .notFound
  taken r := decide (r.status = .success)
  exhausted_not_taken _ := rfl

/-- The replies to a sequence of get calls. -/
def getReplies (st : EntryState) :
    List (Packing db.Record) -> List (Reply db.Record)
  | [] => []
  | p :: rest =>
      let next := innerNssStnsGetentR M c db setent st p
      next.1 :: getReplies next.2 rest

/-- The state after a sequence of get calls. -/
def getState (st : EntryState) (gets : List (Packing db.Record)) :
    EntryState :=
  gets.foldl (fun st p => (innerNssStnsGetentR M c db setent st p).2) st

theorem innerGetent_exhausted {items : List Json} {idx : Nat}
    (p : Packing db.Record) (h : items.length <= idx) :
    innerNssStnsGetentR M c db setent ⟨some (.array items), idx⟩ p =
      ((entryCursor M c db).exhausted p, ⟨some (.array items), idx⟩) := by
  simp [innerNssStnsGetentR, jsonValueGetArray, h, entryCursor]

theorem innerGetent_pending {items : List Json} {idx : Nat} {element : Json}
    (p : Packing db.Record) (h : items[idx]? = some element) :
    innerNssStnsGetentR M c db setent ⟨some (.array items), idx⟩ p =
      ((entryCursor M c db).serve element p,
        ⟨some (.array items),
          if (entryCursor M c db).taken ((entryCursor M c db).serve element p)
          then idx + 1 else idx⟩) := by
  have hlt : idx < items.length := (List.getElem?_eq_some_iff.mp h).1
  have hobject : jsonArrayGetObject (some items) idx = objectOf element := by
    simp [jsonArrayGetObject, jsonArrayGetValue, h, objectOf]
  have hserve : (entryCursor M c db).serve element p =
      db.ensure M c (objectOf element) p := rfl
  have htaken : forall r, (entryCursor M c db).taken r =
      decide (r.status = .success) := fun _ => rfl
  simp only [innerNssStnsGetentR, jsonValueGetArray, jsonArrayGetCount_some,
    hobject, ne_eq, not_true_eq_false, if_false, hserve, htaken,
    decide_eq_true_eq]
  rw [if_neg (by omega)]
  split
  · rfl
  · rfl

theorem pending_of_drop {items tail : List Json} {element : Json} {idx : Nat}
    (h : items.drop idx = element :: tail) :
    items[idx]? = some element ∧ items.drop (idx + 1) = tail := by
  constructor
  · rw [← List.head?_drop, h]
    rfl
  · rw [← List.drop_drop, h]
    rfl

/-- The get calls on a loaded document drain the cursor. -/
theorem getReplies_eq_drain (items : List Json) (idx : Nat)
    (gets : List (Packing db.Record)) :
    getReplies M c db setent ⟨some (.array items), idx⟩ gets =
      (entryCursor M c db).drain (items.drop idx) gets := by
  induction gets generalizing idx with
  | nil => simp [getReplies]
  | cons p rest ih =>
      unfold getReplies
      cases hdrop : items.drop idx with
      | nil =>
          have hle : items.length <= idx := List.drop_eq_nil_iff.mp hdrop
          rw [innerGetent_exhausted M c db setent p hle]
          unfold CursorSpec.drain
          dsimp only
          rw [ih idx, hdrop]
      | cons element tail =>
          rcases pending_of_drop hdrop with ⟨hget, htail⟩
          rw [innerGetent_pending M c db setent p hget]
          unfold CursorSpec.drain
          dsimp only
          split
          · rw [ih (idx + 1), htail]
          · rw [ih idx, hdrop]

theorem getState_eq (items : List Json) (idx : Nat)
    (gets : List (Packing db.Record)) :
    getState M c db setent ⟨some (.array items), idx⟩ gets =
      ⟨some (.array items), idx + (entryCursor M c db).delivered
        ((entryCursor M c db).drain (items.drop idx) gets)⟩ := by
  induction gets generalizing idx with
  | nil => simp [getState, CursorSpec.delivered]
  | cons p rest ih =>
      unfold getState
      rw [List.foldl_cons]
      cases hdrop : items.drop idx with
      | nil =>
          have hle : items.length <= idx := List.drop_eq_nil_iff.mp hdrop
          rw [innerGetent_exhausted M c db setent p hle]
          have hrest := ih idx
          unfold getState at hrest
          rw [hrest, hdrop]
          simp [CursorSpec.drain, CursorSpec.delivered,
            (entryCursor M c db).exhausted_not_taken]
      | cons element tail =>
          rcases pending_of_drop hdrop with ⟨hget, htail⟩
          rw [innerGetent_pending M c db setent p hget]
          unfold CursorSpec.drain CursorSpec.delivered
          cases htaken : (entryCursor M c db).taken
              ((entryCursor M c db).serve element p) with
          | true =>
              have hrest := ih (idx + 1)
              unfold getState CursorSpec.delivered at hrest
              rw [htail] at hrest
              simp only [if_true, hrest, htaken, List.countP_cons_of_pos]
              congr 1
              omega
          | false =>
              have hrest := ih idx
              unfold getState CursorSpec.delivered at hrest
              rw [hdrop] at hrest
              simp [hrest, htaken]

/-- A get call inside a longer run: its answer and the state after it. -/
theorem enumRun_gets_getElem (root : Json) (st : EntryState)
    (gets : List (Packing db.Record)) (post : List (EnumOp db.Record))
    {i : Nat} {r : Reply db.Record}
    (hr : (getReplies M c db setent st gets)[i]? = some r) :
    (enumRun M c db setent root st (gets.map .get ++ post))[i]? =
      some (.entry r, getState M c db setent st (gets.take (i + 1))) := by
  induction gets generalizing st i with
  | nil => cases hr
  | cons p rest ih =>
      cases i with
      | zero =>
          have hhead : (innerNssStnsGetentR M c db setent st p).1 = r := by
            simpa [getReplies] using hr
          rw [← hhead]
          rfl
      | succ i =>
          exact ih _ hr

end Runs

end Stns
