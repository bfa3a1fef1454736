import Stns.Nss.Group
import Stns.Nss.Shadow

/-!
# The three databases

The lookups and the enumerations are the same macros expanded for three record
types.  A {lit}`Database` selects the record, the builder and the shift of an
expansion, and gives the builders one specification.
-/

namespace Stns

inductive Database where
  | passwd
  | group
  | spwd
  deriving DecidableEq, Repr

/-- A buffer that holds no character. -/
def blankMemory : Memory Cell :=
  fun _ => Cell.pointer none 0

namespace Database

abbrev Record : Database -> Type
  | passwd => Passwd
  | group => Group
  | spwd => Spwd

/-- The builder a macro expansion calls. -/
def ensure (M : Machine) (c : StnsConf) :
    (db : Database) -> Option JsonObject -> Packing db.Record ->
      Reply db.Record
  | passwd => passwdEnsure M c
  | group => groupEnsure M c
  | spwd => shadowEnsure

/-- The shift that the lookup by identifier adds. -/
def idShift (c : StnsConf) : Database -> Int32
  | passwd => c.uidShift
  | group => c.gidShift
  | spwd => c.uidShift

/-- The entries a builder can finish: the group builder wants a name. -/
def Accepts (db : Database) (entry : Option JsonObject) : Prop :=
  db = group -> (jsonObjectGetString entry Key.name).isSome = true

/-- The room a builder needs for an entry. -/
def need (db : Database) (entry : Option JsonObject) : Nat :=
  match db with
  | passwd => attributesSize (passwdAttributes entry)
  | group => attributesSize (groupAttributes entry) + memberAreaSize entry
  | spwd => attributesSize (shadowAttributes entry)

def blankRecord : (db : Database) -> db.Record
  | passwd => ⟨0, 0, 0, 0, 0, 0, 0⟩
  | group => ⟨0, 0, 0, 0⟩
  | spwd => ⟨0, 0, 0, 0, 0, 0, 0, 0, 0⟩

/-- A caller with an untouched record and a blank buffer of the given size. -/
def blankPacking (db : Database) (room : Nat) : Packing db.Record where
  rbuf := db.blankRecord
  mem := blankMemory
  buf := 0
  buflen := room
  errno := 0

variable {M : Machine} {c : StnsConf} {db : Database}
  {entry : Option JsonObject}

theorem accepts_of_named {leaf : JsonObject} (h : Named leaf) :
    db.Accepts (some leaf) :=
  fun _ => h

theorem ensure_ok (p : Packing db.Record) (ha : db.Accepts entry)
    (h : db.need entry <= p.buflen) :
    (db.ensure M c entry p).status = .success ∧
      (db.ensure M c entry p).errno = p.errno ∧
      (db.ensure M c entry p).unlocked = false := by
  cases db with
  | passwd =>
      simp only [ensure]
      rw [passwdEnsure_ok h]
      exact ⟨rfl, placeAll_errno _ _, rfl⟩
  | group =>
      rcases Option.isSome_iff_exists.mp (ha rfl) with ⟨name, hname⟩
      rcases groupEnsure_ok (M := M) (c := c) hname h with
        ⟨hstatus, herrno, hunlocked, _⟩
      exact ⟨hstatus, herrno, hunlocked⟩
  | spwd =>
      simp only [ensure]
      rw [shadowEnsure_ok h]
      exact ⟨rfl, placeAll_errno _ _, rfl⟩

theorem ensure_short (p : Packing db.Record) (ha : db.Accepts entry)
    (h : p.buflen < db.need entry) :
    (db.ensure M c entry p).status = .tryAgain ∧
      (db.ensure M c entry p).errno = erange := by
  cases db with
  | passwd =>
      rcases passwdEnsure_short (M := M) (c := c) h with ⟨hstatus, herrno, _⟩
      exact ⟨hstatus, herrno⟩
  | group =>
      rcases Option.isSome_iff_exists.mp (ha rfl) with ⟨name, hname⟩
      by_cases hattrs : attributesSize (groupAttributes entry) <= p.buflen
      · rcases groupEnsure_shortMembers (M := M) (c := c) hname hattrs h with
          ⟨hstatus, herrno, _⟩
        exact ⟨hstatus, herrno⟩
      · have hless : p.buflen < attributesSize (groupAttributes entry) := by
          omega
        rcases groupEnsure_short (M := M) (c := c) hname hless with
          ⟨hstatus, herrno, _⟩
        exact ⟨hstatus, herrno⟩
  | spwd =>
      rcases shadowEnsure_short h with ⟨hstatus, herrno, _⟩
      exact ⟨hstatus, herrno⟩

/-- A builder finishes an entry exactly when it accepts it and has the room. -/
theorem ensure_success_iff (p : Packing db.Record) :
    (db.ensure M c entry p).status = .success <->
      db.Accepts entry ∧ db.need entry <= p.buflen := by
  constructor
  · intro hsuccess
    have ha : db.Accepts entry := by
      intro hgroup
      subst hgroup
      cases hname : jsonObjectGetString entry Key.name with
      | none =>
          have hreply : (groupEnsure M c entry p).status = .success := hsuccess
          rw [groupEnsure_nameless hname] at hreply
          cases hreply
      | some name => rfl
    refine ⟨ha, ?_⟩
    by_cases hroom : db.need entry <= p.buflen
    · exact hroom
    · have hshort := (ensure_short (M := M) (c := c) p ha (by omega)).left
      rw [hsuccess] at hshort
      cases hshort
  · intro hboth
    rcases hboth with ⟨ha, hroom⟩
    exact (ensure_ok p ha hroom).left

end Database

end Stns
