import Stns.Document.Json
import Stns.Foundation.MachineInt
import Stns.Nss.Record

/-!
# The passwd record builder
-/

namespace Stns

/-- {lit}`struct passwd`; a string field is the offset of its bytes. -/
structure Passwd where
  pwName : Nat
  pwPasswd : Nat
  pwUid : UInt32
  pwGid : UInt32
  pwGecos : Nat
  pwDir : Nat
  pwShell : Nat
  deriving DecidableEq

/-- An identifier member as the builders compute it: the number converted to
{lit}`int`, the shift added in {lit}`int`, the sum stored unsigned. -/
def shiftedId (M : Machine) (shift : Int32) (entry : Option JsonObject)
    (key : Bytes) : UInt32 :=
  (M.intAdd shift (M.intOfDouble (jsonObjectGetNumber entry key))).toUInt32

def passwdIds (M : Machine) (c : StnsConf) (entry : Option JsonObject)
    (rbuf : Passwd) : Passwd :=
  { rbuf with
    pwUid := shiftedId M c.uidShift entry Key.id
    pwGid := shiftedId M c.gidShift entry Key.groupId }

def passwdAttributes (entry : Option JsonObject) : List (Attribute Passwd) :=
  let name := jsonObjectGetString entry Key.name
  let gecos := jsonObjectGetString entry Key.gecos
  let dir := jsonObjectGetString entry Key.directory
  let shell := jsonObjectGetString entry Key.shell
  let passwd := literal "x"
  let sh := stnsSetDefaultValue shell (literal "/bin/bash")
  let b := CString.snprintf maxbuf ((literal "/home/").append (printed name))
  let d := stnsSetDefaultValue dir b
  [⟨fun buf r => { r with pwName := buf }, name⟩,
    ⟨fun buf r => { r with pwPasswd := buf }, some passwd⟩,
    ⟨fun buf r => { r with pwGecos := buf }, gecos⟩,
    ⟨fun buf r => { r with pwDir := buf }, some d⟩,
    ⟨fun buf r => { r with pwShell := buf }, some sh⟩]

/-- {lit}`PASSWD_ENSURE`, with the success its callers return after it. -/
def passwdEnsure (M : Machine) (c : StnsConf) (entry : Option JsonObject)
    (p : Packing Passwd) : Reply Passwd :=
  match setAttrbutes (passwdAttributes entry)
      { p with rbuf := passwdIds M c entry p.rbuf } with
  | .error r => r
  | .ok p => p.reply .success

theorem passwdEnsure_ok {M : Machine} {c : StnsConf}
    {entry : Option JsonObject} {p : Packing Passwd}
    (h : attributesSize (passwdAttributes entry) <= p.buflen) :
    passwdEnsure M c entry p =
      (placeAll (passwdAttributes entry)
        { p with rbuf := passwdIds M c entry p.rbuf }).reply .success := by
  unfold passwdEnsure
  rw [setAttrbutes_ok
    (p := { p with rbuf := passwdIds M c entry p.rbuf }) h]

theorem passwdEnsure_short {M : Machine} {c : StnsConf}
    {entry : Option JsonObject} {p : Packing Passwd}
    (h : p.buflen < attributesSize (passwdAttributes entry)) :
    (passwdEnsure M c entry p).status = .tryAgain ∧
      (passwdEnsure M c entry p).errno = erange ∧
      (passwdEnsure M c entry p).unlocked = false := by
  rcases setAttrbutes_error
    (p := { p with rbuf := passwdIds M c entry p.rbuf }) h with
    ⟨r, hr, hstatus, herrno, hunlocked⟩
  unfold passwdEnsure
  rw [hr]
  exact ⟨hstatus, herrno, hunlocked⟩

theorem passwdEnsure_unlocked {M : Machine} {c : StnsConf}
    {entry : Option JsonObject} (p : Packing Passwd) :
    (passwdEnsure M c entry p).unlocked = false := by
  by_cases hroom : attributesSize (passwdAttributes entry) <= p.buflen
  · rw [passwdEnsure_ok hroom]
    rfl
  · exact (passwdEnsure_short (Nat.lt_of_not_le hroom)).right.right

end Stns
