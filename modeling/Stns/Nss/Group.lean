import Stns.Nss.Passwd

/-!
# The group record builder

The member vector is laid out after the two strings: a pointer area with one
slot per array element and one for the terminator, then the member names.  The
builder releases the enumeration mutex on three of its early exits.
-/

namespace Stns

open MachineInt

/-- {lit}`struct group`; a string field is the offset of its bytes, and
{lit}`grMem` the offset of the pointer area. -/
structure Group where
  grName : Nat
  grPasswd : Nat
  grGid : UInt32
  grMem : Nat
  deriving DecidableEq

def groupAttributes (entry : Option JsonObject) : List (Attribute Group) :=
  let name := jsonObjectGetString entry Key.name
  let passwd := literal "x"
  [⟨fun buf r => { r with grName := buf }, name⟩,
    ⟨fun buf r => { r with grPasswd := buf }, some passwd⟩]

/-- {lit}`ptr_area_size`: a {lit}`size_t` product stored in an {lit}`int`. -/
def ptrAreaSize (members : Option JsonArray) : Int32 :=
  Int32.ofInt ((jsonArrayGetCount members + 1) * pointerSize : Nat)

/-- The member loop from element {lit}`i` on.  The packing's free offset is
{lit}`next_member`; an element that is not a string is skipped, slot
included. -/
def setMembers (grMem : Nat) :
    Nat -> List Json -> Packing Group ->
      Except (Reply Group) (Packing Group)
  | _, [], p => .ok p
  | i, element :: rest, p =>
      match jsonValueGetString (some element) with
      | none => setMembers grMem (i + 1) rest p
      | some user =>
          let userLength := user.strnlen maxBufferSize + 1
          if p.buflen < userLength then
            .error { p.outOfRoom with unlocked := true }
          else
            let copied :=
              p.mem.write p.buf ((user.strncpy userLength).map Cell.byte)
            setMembers grMem (i + 1) rest
              { p with
                mem := copied.write (grMem + pointerSize * i)
                  (pointerCells (some p.buf))
                buf := p.buf + userLength
                buflen := p.buflen - userLength }

/-- The packing as the member loop finds it: the pointer area is skipped and
its room taken. -/
def skipPointerArea (area : Int32) (p : Packing Group) : Packing Group :=
  { p with
    rbuf := { p.rbuf with grMem := p.buf }
    buf := ((p.buf : Int) + area.toInt).toNat
    buflen := p.buflen - sizeOfInt area }

/-- The second half of {lit}`GROUP_ENSURE`: the pointer area, the member names
and the terminating slot. -/
def ensureMembers (entry : Option JsonObject) (p : Packing Group) :
    Reply Group :=
  let grMem := p.buf
  let members := jsonObjectGetArray entry Key.users
  let area := ptrAreaSize members
  if p.buflen < sizeOfInt area then
    { { p with rbuf := { p.rbuf with grMem := grMem } }.outOfRoom with
      unlocked := true }
  else
    match setMembers grMem 0 (members.getD []) (skipPointerArea area p) with
    | .error r => r
    | .ok p =>
        { p with
          mem := p.mem.write
            (grMem + pointerSize * jsonArrayGetCount members)
            (pointerCells none) }.reply .success

def groupIds (M : Machine) (c : StnsConf) (entry : Option JsonObject)
    (rbuf : Group) : Group :=
  { rbuf with grGid := shiftedId M c.gidShift entry Key.id }

/-- {lit}`GROUP_ENSURE`, with the success its callers return after it. -/
def groupEnsure (M : Machine) (c : StnsConf) (entry : Option JsonObject)
    (p : Packing Group) : Reply Group :=
  match jsonObjectGetString entry Key.name with
  | none => { p.reply .notFound with unlocked := true }
  | some _ =>
      match setAttrbutes (groupAttributes entry)
          { p with rbuf := groupIds M c entry p.rbuf } with
      | .error r => r
      | .ok p => ensureMembers entry p

/-!
## The member loop fits or runs out of room
-/

/-- The room one array element takes among the member names. -/
def memberSize (element : Json) : Nat :=
  match jsonValueGetString (some element) with
  | none => 0
  | some user => user.strnlen maxBufferSize + 1

def membersSize (items : List Json) : Nat :=
  (items.map memberSize).sum

@[simp] theorem membersSize_cons (element : Json) (rest : List Json) :
    membersSize (element :: rest) = memberSize element + membersSize rest := by
  simp [membersSize]

theorem setMembers_ok {grMem i : Nat} {items : List Json} {p : Packing Group}
    (h : membersSize items <= p.buflen) :
    exists p', setMembers grMem i items p = .ok p' ∧ p'.rbuf = p.rbuf ∧
      p'.errno = p.errno := by
  induction items generalizing i p with
  | nil => exact ⟨p, rfl, rfl, rfl⟩
  | cons element rest ih =>
      rw [membersSize_cons] at h
      unfold setMembers
      cases huser : jsonValueGetString (some element) with
      | none => exact ih (by omega)
      | some user =>
          have hsize : memberSize element = user.strnlen maxBufferSize + 1 := by
            simp [memberSize, huser]
          dsimp only
          rw [if_neg (by omega)]
          exact ih (by
            show membersSize rest <=
              p.buflen - (user.strnlen maxBufferSize + 1)
            omega)

theorem setMembers_error {grMem i : Nat} {items : List Json}
    {p : Packing Group} (h : p.buflen < membersSize items) :
    exists r, setMembers grMem i items p = .error r ∧ r.status = .tryAgain ∧
      r.errno = erange ∧ r.unlocked = true := by
  induction items generalizing i p with
  | nil => simp [membersSize] at h
  | cons element rest ih =>
      rw [membersSize_cons] at h
      unfold setMembers
      cases huser : jsonValueGetString (some element) with
      | none =>
          have hsize : memberSize element = 0 := by
            simp [memberSize, huser]
          exact ih (by omega)
      | some user =>
          have hsize : memberSize element = user.strnlen maxBufferSize + 1 := by
            simp [memberSize, huser]
          dsimp only
          by_cases hroom : p.buflen < user.strnlen maxBufferSize + 1
          · rw [if_pos hroom]
            exact ⟨_, rfl, rfl, rfl, rfl⟩
          · rw [if_neg hroom]
            exact ih (by
              show p.buflen - (user.strnlen maxBufferSize + 1) <
                membersSize rest
              omega)

/-!
## What the builder does with an entry
-/

/-- The room that the pointer area and the member names take together. -/
def memberAreaSize (entry : Option JsonObject) : Nat :=
  let members := jsonObjectGetArray entry Key.users
  sizeOfInt (ptrAreaSize members) + membersSize (members.getD [])

theorem ensureMembers_ok {entry : Option JsonObject} {p : Packing Group}
    (h : memberAreaSize entry <= p.buflen) :
    (ensureMembers entry p).status = .success ∧
      (ensureMembers entry p).errno = p.errno ∧
      (ensureMembers entry p).unlocked = false ∧
      (ensureMembers entry p).rbuf.grGid = p.rbuf.grGid := by
  unfold memberAreaSize at h
  dsimp only at h
  have hfit : membersSize ((jsonObjectGetArray entry Key.users).getD []) <=
      (skipPointerArea (ptrAreaSize (jsonObjectGetArray entry Key.users))
        p).buflen := by
    unfold skipPointerArea
    dsimp only
    omega
  rcases setMembers_ok (i := 0) hfit with
    ⟨p', hp', hrbuf, herrno⟩
  unfold ensureMembers
  dsimp only
  rw [if_neg (by omega), hp']
  refine ⟨rfl, herrno, rfl, ?_⟩
  show p'.rbuf.grGid = _
  rw [hrbuf]
  rfl

theorem ensureMembers_short {entry : Option JsonObject} {p : Packing Group}
    (h : p.buflen < memberAreaSize entry) :
    (ensureMembers entry p).status = .tryAgain ∧
      (ensureMembers entry p).errno = erange ∧
      (ensureMembers entry p).unlocked = true := by
  unfold memberAreaSize at h
  dsimp only at h
  unfold ensureMembers
  dsimp only
  by_cases harea : p.buflen <
      sizeOfInt (ptrAreaSize (jsonObjectGetArray entry Key.users))
  · rw [if_pos harea]
    exact ⟨rfl, rfl, rfl⟩
  · rw [if_neg harea]
    have hfull :
        (skipPointerArea (ptrAreaSize (jsonObjectGetArray entry Key.users))
          p).buflen <
          membersSize ((jsonObjectGetArray entry Key.users).getD []) := by
      unfold skipPointerArea
      dsimp only
      omega
    rcases setMembers_error (i := 0) hfull with
      ⟨r, hr, hstatus, herrno, hunlocked⟩
    rw [hr]
    exact ⟨hstatus, herrno, hunlocked⟩

theorem groupEnsure_nameless {M : Machine} {c : StnsConf}
    {entry : Option JsonObject} {p : Packing Group}
    (h : jsonObjectGetString entry Key.name = none) :
    groupEnsure M c entry p =
      { p.reply .notFound with unlocked := true } := by
  unfold groupEnsure
  rw [h]

theorem groupEnsure_members {M : Machine} {c : StnsConf}
    {entry : Option JsonObject} {p : Packing Group} {name : CString}
    (hname : jsonObjectGetString entry Key.name = some name)
    (h : attributesSize (groupAttributes entry) <= p.buflen) :
    groupEnsure M c entry p =
      ensureMembers entry (placeAll (groupAttributes entry)
        { p with rbuf := groupIds M c entry p.rbuf }) := by
  unfold groupEnsure
  rw [hname]
  dsimp only
  rw [setAttrbutes_ok (p := { p with rbuf := groupIds M c entry p.rbuf }) h]

theorem groupEnsure_short {M : Machine} {c : StnsConf}
    {entry : Option JsonObject} {p : Packing Group} {name : CString}
    (hname : jsonObjectGetString entry Key.name = some name)
    (h : p.buflen < attributesSize (groupAttributes entry)) :
    (groupEnsure M c entry p).status = .tryAgain ∧
      (groupEnsure M c entry p).errno = erange ∧
      (groupEnsure M c entry p).unlocked = false := by
  rcases setAttrbutes_error
    (p := { p with rbuf := groupIds M c entry p.rbuf }) h with
    ⟨r, hr, hstatus, herrno, hunlocked⟩
  unfold groupEnsure
  rw [hname]
  dsimp only
  rw [hr]
  exact ⟨hstatus, herrno, hunlocked⟩

theorem groupEnsure_shortMembers {M : Machine} {c : StnsConf}
    {entry : Option JsonObject} {p : Packing Group} {name : CString}
    (hname : jsonObjectGetString entry Key.name = some name)
    (hattrs : attributesSize (groupAttributes entry) <= p.buflen)
    (h : p.buflen <
      attributesSize (groupAttributes entry) + memberAreaSize entry) :
    (groupEnsure M c entry p).status = .tryAgain ∧
      (groupEnsure M c entry p).errno = erange ∧
      (groupEnsure M c entry p).unlocked = true := by
  rw [groupEnsure_members hname hattrs]
  apply ensureMembers_short
  rw [placeAll_buflen]
  dsimp only
  omega

theorem groupEnsure_ok {M : Machine} {c : StnsConf}
    {entry : Option JsonObject} {p : Packing Group} {name : CString}
    (hname : jsonObjectGetString entry Key.name = some name)
    (h : attributesSize (groupAttributes entry) + memberAreaSize entry <=
      p.buflen) :
    (groupEnsure M c entry p).status = .success ∧
      (groupEnsure M c entry p).errno = p.errno ∧
      (groupEnsure M c entry p).unlocked = false ∧
      (groupEnsure M c entry p).rbuf.grGid =
        shiftedId M c.gidShift entry Key.id := by
  rw [groupEnsure_members hname (by omega)]
  have hfit : memberAreaSize entry <=
      (placeAll (groupAttributes entry)
        { p with rbuf := groupIds M c entry p.rbuf }).buflen := by
    rw [placeAll_buflen]
    dsimp only
    omega
  rcases ensureMembers_ok hfit with ⟨hstatus, herrno, hunlocked, hgid⟩
  refine ⟨hstatus, ?_, hunlocked, ?_⟩
  · rw [herrno, placeAll_errno]
  · rw [hgid]
    rfl

end Stns
