import Stns.Document.Json
import Stns.Nss.Record

/-!
# The shadow record builder
-/

namespace Stns

/-- {lit}`struct spwd`; a string field is the offset of its bytes. -/
structure Spwd where
  spNamp : Nat
  spPwdp : Nat
  spLstchg : Int64
  spMin : Int64
  spMax : Int64
  spWarn : Int64
  spInact : Int64
  spExpire : Int64
  spFlag : UInt64
  deriving DecidableEq

def shadowAttributes (entry : Option JsonObject) : List (Attribute Spwd) :=
  let name := jsonObjectGetString entry Key.name
  let password := jsonObjectGetString entry Key.password
  let pw := stnsSetDefaultValue password (literal "!!")
  [⟨fun buf r => { r with spNamp := buf }, name⟩,
    ⟨fun buf r => { r with spPwdp := buf }, some pw⟩]

def shadowAging (rbuf : Spwd) : Spwd :=
  { rbuf with
    spLstchg := -1
    spMin := -1
    spMax := -1
    spWarn := -1
    spInact := -1
    spExpire := -1
    spFlag := ~~~0 }

/-- {lit}`SHADOW_ENSURE`, with the success its callers return after it. -/
def shadowEnsure (entry : Option JsonObject) (p : Packing Spwd) : Reply Spwd :=
  match setAttrbutes (shadowAttributes entry) p with
  | .error r => r
  | .ok p => { p with rbuf := shadowAging p.rbuf }.reply .success

theorem shadowEnsure_ok {entry : Option JsonObject} {p : Packing Spwd}
    (h : attributesSize (shadowAttributes entry) <= p.buflen) :
    shadowEnsure entry p =
      { placeAll (shadowAttributes entry) p with
        rbuf := shadowAging (placeAll (shadowAttributes entry) p).rbuf }.reply
        .success := by
  unfold shadowEnsure
  rw [setAttrbutes_ok h]

theorem shadowEnsure_short {entry : Option JsonObject} {p : Packing Spwd}
    (h : p.buflen < attributesSize (shadowAttributes entry)) :
    (shadowEnsure entry p).status = .tryAgain ∧
      (shadowEnsure entry p).errno = erange ∧
      (shadowEnsure entry p).unlocked = false := by
  rcases setAttrbutes_error h with ⟨r, hr, hstatus, herrno, hunlocked⟩
  unfold shadowEnsure
  rw [hr]
  exact ⟨hstatus, herrno, hunlocked⟩

theorem shadowEnsure_unlocked {entry : Option JsonObject}
    (p : Packing Spwd) : (shadowEnsure entry p).unlocked = false := by
  by_cases hroom : attributesSize (shadowAttributes entry) <= p.buflen
  · rw [shadowEnsure_ok hroom]
    rfl
  · exact (shadowEnsure_short (Nat.lt_of_not_le hroom)).right.right

end Stns
