import Stns.Nss.Enumeration

/-!
# Enumerations deliver every entry once

Between a set call and the next set or end call a caller can only make get
calls.  Their replies and the index are those of the cursor over the document,
for any buffer sizes and whatever was called before.
-/

namespace Stns

/-- What the get calls right after a set call answer.  The number {lit}`k` of
entries delivered so far picks the element: with enough room its record is
returned and the index moves on, with too little the call says so and the index
stays; once every element is delivered the end is reported. -/
def EnumerationComplete (M : Machine) (c : StnsConf) (db : Database)
    (setent : EntryState -> NssStatus × EntryState) (items : List Json)
    (st : EntryState) (pre : List (EnumOp db.Record))
    (gets : List (Packing db.Record)) (post : List (EnumOp db.Record)) :
    Prop :=
  exists replies : List (Reply db.Record),
    replies.length = gets.length ∧
    forall i p r, gets[i]? = some p -> replies[i]? = some r ->
      let delivered := fun n =>
        (replies.take n).countP (fun r => decide (r.status = .success))
      let k := delivered i
      (enumRun M c db setent (.array items) st
          (pre ++ [.set] ++ (gets.map .get ++ post)))[pre.length + 1 + i]? =
        some (.entry r, ⟨some (.array items), delivered (i + 1)⟩) ∧
      k <= items.length ∧
      (forall element, items[k]? = some element ->
        r = db.ensure M c (objectOf element) p ∧
        (db.need (objectOf element) <= p.buflen -> r.status = .success) ∧
        (p.buflen < db.need (objectOf element) ->
          r.status = .tryAgain ∧ r.errno = erange)) ∧
      (k = items.length -> r.status = .notFound ∧ r.errno = enoent)

theorem accepts_of_wellFormed {db : Database} {element : Json}
    (h : wellFormed element = true) : db.Accepts (objectOf element) := by
  rcases wellFormed_iff.mp h with ⟨leaf, hobject, hnamed⟩
  rw [hobject]
  exact Database.accepts_of_named hnamed

theorem enumeration_complete (M : Machine) (c : StnsConf) (db : Database)
    (setent : EntryState -> NssStatus × EntryState) {items : List Json}
    (hitems : forall element, element ∈ items -> wellFormed element = true)
    (st : EntryState) (pre : List (EnumOp db.Record))
    (gets : List (Packing db.Record)) (post : List (EnumOp db.Record)) :
    EnumerationComplete M c db setent items st pre gets post := by
  let S := entryCursor M c db
  refine ⟨S.drain items gets, S.drain_length items gets, ?_⟩
  intro i p r hp hr
  have hi : i < gets.length := (List.getElem?_eq_some_iff.mp hp).1
  have hpi : gets[i] = p := (List.getElem?_eq_some_iff.mp hp).2
  -- the state that the set call leaves, whatever came before
  have hstate := enumState_append_set M c db setent (.array items) st pre
  have hreplies := getReplies_eq_drain M c db setent items 0 gets
  have hcount : forall n,
      ((S.drain items gets).take n).countP
        (fun r => decide (r.status = .success)) =
        S.delivered ((S.drain items gets).take n) := fun _ => rfl
  have hfinal := getState_eq M c db setent items 0 (gets.take (i + 1))
  rw [List.drop_zero] at hreplies hfinal
  have hserve := S.drain_getElem items gets hi
  rw [hr, hpi] at hserve
  injection hserve with hserve
  dsimp only
  rw [hcount, hcount]
  refine ⟨?_, ?_, ?_, ?_⟩
  · rw [enumRun_append, hstate, List.getElem?_append_right (by simp)]
    have hindex : pre.length + 1 + i - (enumRun M c db setent
        (.array items) st (pre ++ [.set])).length = i := by
      simp
    rw [hindex, enumRun_gets_getElem M c db setent _ _ gets post
      (by rw [EntryState.loaded, hreplies]; exact hr)]
    rw [EntryState.loaded, hfinal, S.drain_take, Nat.zero_add]
  · rw [S.drain_take]
    exact S.delivered_drain_le items (gets.take i)
  · intro element helement
    rw [helement] at hserve
    have haccepts : db.Accepts (objectOf element) :=
      accepts_of_wellFormed (hitems element (List.mem_of_getElem? helement))
    have hreply : r = db.ensure M c (objectOf element) p := hserve
    rw [hreply]
    exact ⟨rfl, fun hroom => (Database.ensure_ok p haccepts hroom).left,
      fun hroom => Database.ensure_short p haccepts hroom⟩
  · intro hk
    rw [hk, List.getElem?_eq_none (Nat.le_refl _)] at hserve
    rw [hserve]
    exact ⟨rfl, rfl⟩

/-- Two users, a first buffer that is too small, then room for both and one
call more. -/
theorem enumeration_complete_two_users :
    EnumerationComplete Machine.wrapping {} .passwd (fun st => (.unavail, st))
      [.object [(Key.name, .string (ascii "user1"))],
        .object [(Key.name, .string (ascii "user2"))]]
      EntryState.unloaded [.endent]
      [Database.passwd.blankPacking 4, Database.passwd.blankPacking 64,
        Database.passwd.blankPacking 64, Database.passwd.blankPacking 64]
      [.endent] :=
  enumeration_complete Machine.wrapping {} .passwd _ (by decide) _ _ _ _

end Stns
