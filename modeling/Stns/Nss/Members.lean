import Stns.Foundation.Rows
import Stns.Nss.Database

/-!
# The group member vector

The member loop uses the index of an array element for its slot, so an element
that is not a string leaves its slot unwritten.  With strings only, the pointers
and the names behind them are stored as two runs.
-/

namespace Stns

open MachineInt

/-- The elements of {lit}`"users"`; none if it is not an array. -/
def userElements (entry : Option JsonObject) : List Json :=
  (jsonObjectGetArray entry Key.users).getD []

def stringElements (items : List Json) : List CString :=
  items.filterMap (fun element => jsonValueGetString (some element))

def AllStrings (items : List Json) : Prop :=
  forall element, element ∈ items ->
    (jsonValueGetString (some element)).isSome = true

instance (items : List Json) : Decidable (AllStrings items) :=
  inferInstanceAs (Decidable (forall element, element ∈ items -> _))

/-- The string members of the entry, in order. -/
def stringMembers (entry : Option JsonObject) : List CString :=
  stringElements (userElements entry)

/-- A string with its terminator, as cells. -/
def stringCells (s : CString) : List Cell :=
  (s.chars ++ [0]).map Cell.byte

/-- A NULL-terminated vector of pointers to the strings. -/
structure VectorOf (mem : Memory Cell) (grMem : Nat) (offsets : List Nat)
    (users : List CString) : Prop where
  length : offsets.length = users.length
  slots : forall i o, offsets[i]? = some o ->
    mem.read (grMem + pointerSize * i) pointerSize = pointerCells (some o)
  stop : mem.read (grMem + pointerSize * offsets.length) pointerSize =
    pointerCells none
  strings : forall (i o : Nat) (user : CString), offsets[i]? = some o ->
    users[i]? = some user -> mem.read o (user.chars.length + 1) = stringCells user

/-- Whatever the buffer held before, the vector has the same pointers, to the
string members and no others. -/
def VectorExact (M : Machine) (c : StnsConf) (entry : Option JsonObject)
    (p : Packing Group) : Prop :=
  exists offsets, forall mem,
    let r := groupEnsure M c entry { p with mem := mem }
    VectorOf r.mem r.rbuf.grMem offsets (stringMembers entry)

/-!
## The runs that the loop stores
-/

/-- The bytes that the loop copies for a member. -/
def memberStored (user : CString) : Bytes :=
  user.strncpy (user.strnlen maxBufferSize + 1)

def memberRun (user : CString) : List Cell :=
  (memberStored user).map Cell.byte

/-- Where the members are copied to. -/
def memberOffsets : Nat -> List CString -> List Nat
  | _, [] => []
  | o, user :: rest => o :: memberOffsets (o + (memberRun user).length) rest

def slotCells (offsets : List Nat) : List Cell :=
  offsets.flatMap (fun o => pointerCells (some o))

@[simp] theorem memberRun_length (user : CString) :
    (memberRun user).length = user.strnlen maxBufferSize + 1 := by
  simp [memberRun, memberStored]

@[simp] theorem pointerCells_length (target : Option Nat) :
    (pointerCells target).length = pointerSize := by
  simp [pointerCells]

@[simp] theorem memberOffsets_length (o : Nat) (users : List CString) :
    (memberOffsets o users).length = users.length := by
  induction users generalizing o with
  | nil => rfl
  | cons user rest ih => simp [memberOffsets, ih]

theorem slotCells_cons (o : Nat) (rest : List Nat) :
    slotCells (o :: rest) = pointerCells (some o) ++ slotCells rest :=
  List.flatMap_cons

@[simp] theorem slotCells_length (offsets : List Nat) :
    (slotCells offsets).length = pointerSize * offsets.length := by
  induction offsets with
  | nil => rfl
  | cons o rest ih =>
      rw [slotCells_cons, List.length_append, ih, pointerCells_length,
        List.length_cons, Nat.mul_succ, Nat.add_comm]

theorem memberOffsets_getElem (o : Nat) (front : List CString)
    (user : CString) (rest : List CString) :
    (memberOffsets o (front ++ user :: rest))[front.length]? =
      some (o + (front.flatMap memberRun).length) := by
  induction front generalizing o with
  | nil => rfl
  | cons first front ih =>
      rw [List.cons_append, memberOffsets, List.length_cons,
        List.getElem?_cons_succ, ih, List.flatMap_cons, List.length_append,
        Nat.add_assoc]

theorem allStrings_cons {element : Json} {rest : List Json}
    (h : AllStrings (element :: rest)) :
    (exists user, jsonValueGetString (some element) = some user ∧
      stringElements (element :: rest) = user :: stringElements rest) ∧
        AllStrings rest := by
  have hfirst := h element List.mem_cons_self
  rcases Option.isSome_iff_exists.mp hfirst with ⟨user, huser⟩
  refine ⟨⟨user, huser, ?_⟩, ?_⟩
  · unfold stringElements
    rw [List.filterMap_cons, huser]
  · exact fun next hmem => h next (List.mem_cons_of_mem element hmem)

theorem stringElements_length {items : List Json} (h : AllStrings items) :
    (stringElements items).length = items.length := by
  induction items with
  | nil => rfl
  | cons element rest ih =>
      rcases allStrings_cons h with ⟨⟨user, _, husers⟩, hrest⟩
      rw [husers, List.length_cons, List.length_cons, ih hrest]

/-- One round of the loop for a string. -/
def setMember (grMem i : Nat) (user : CString) (p : Packing Group) :
    Packing Group :=
  { p with
    mem := (p.mem.write p.buf (memberRun user)).write
      (grMem + pointerSize * i) (pointerCells (some p.buf))
    buf := p.buf + (user.strnlen maxBufferSize + 1)
    buflen := p.buflen - (user.strnlen maxBufferSize + 1) }

theorem setMembers_cases {grMem i : Nat} {element : Json} {rest : List Json}
    {p p' : Packing Group}
    (h : setMembers grMem i (element :: rest) p = .ok p') :
    (jsonValueGetString (some element) = none ∧
        setMembers grMem (i + 1) rest p = .ok p') ∨
      exists user, jsonValueGetString (some element) = some user ∧
        setMembers grMem (i + 1) rest (setMember grMem i user p) =
          .ok p' := by
  unfold setMembers at h
  cases huser : jsonValueGetString (some element) with
  | none =>
      rw [huser] at h
      exact .inl ⟨rfl, h⟩
  | some user =>
      rw [huser] at h
      dsimp only at h
      split at h
      · cases h
      · exact .inr ⟨user, rfl, h⟩

/-- With strings only, and the pointer area in front of the names, the loop
stores the pointers as one run and the names as another. -/
theorem setMembers_strings {grMem i : Nat} {items : List Json}
    {p p' : Packing Group} (hstrings : AllStrings items)
    (harea : grMem + pointerSize * (i + items.length) <= p.buf)
    (h : setMembers grMem i items p = .ok p') :
    p'.mem = (p.mem.write (grMem + pointerSize * i)
        (slotCells (memberOffsets p.buf (stringElements items)))).write p.buf
          ((stringElements items).flatMap memberRun) := by
  induction items generalizing i p with
  | nil =>
      injection h with h
      rw [← h]
      simp [stringElements, memberOffsets, slotCells]
  | cons element rest ih =>
      rcases allStrings_cons hstrings with ⟨⟨user, huser, husers⟩, hrest⟩
      have hsize : pointerSize = 8 := rfl
      rw [List.length_cons, hsize] at harea
      rcases setMembers_cases h with ⟨hnone, _⟩ | ⟨user', huser', hloop⟩
      · rw [huser] at hnone
        cases hnone
      · rw [huser] at huser'
        injection huser' with huser'
        subst huser'
        have hnext := ih hrest (p := setMember grMem i user p) (by
          show _ <= p.buf + (user.strnlen maxBufferSize + 1)
          rw [hsize]
          omega) hloop
        have hbuf : (setMember grMem i user p).buf =
            p.buf + (memberRun user).length := by
          rw [memberRun_length]
          rfl
        have hslot : grMem + pointerSize * (i + 1) =
            grMem + pointerSize * i + (pointerCells (some p.buf)).length := by
          rw [pointerCells_length, Nat.mul_succ, Nat.add_assoc]
        have hslots : (slotCells (memberOffsets
            (p.buf + (memberRun user).length)
            (stringElements rest))).length = pointerSize * rest.length := by
          rw [slotCells_length, memberOffsets_length,
            stringElements_length hrest]
        have hfirst : grMem + pointerSize * i +
            (pointerCells (some p.buf)).length <= p.buf := by
          rw [pointerCells_length, hsize]
          omega
        have hothers : grMem + pointerSize * i +
            (pointerCells (some p.buf)).length + (slotCells (memberOffsets
              (p.buf + (memberRun user).length)
              (stringElements rest))).length <= p.buf := by
          rw [hslots, pointerCells_length, hsize]
          omega
        rw [hnext, husers, hbuf, hslot, memberOffsets, slotCells_cons,
          List.flatMap_cons, Memory.write_append, Memory.write_append]
        show (((p.mem.write p.buf (memberRun user)).write _ _).write _ _).write
          _ _ = _
        rw [← Memory.write_comm p.mem hfirst, ← Memory.write_comm _ hothers]

/-!
## Cells that the loop reaches
-/

/-- The loop leaves what lies in front of its slots and of its names. -/
theorem setMembers_below {grMem i a : Nat} {items : List Json}
    {p p' : Packing Group} (hslot : a < grMem + pointerSize * i)
    (hname : a < p.buf) (h : setMembers grMem i items p = .ok p') :
    p'.mem a = p.mem a := by
  induction items generalizing i p with
  | nil =>
      injection h with h
      rw [h]
  | cons element rest ih =>
      have hnext : a < grMem + pointerSize * (i + 1) := by
        rw [Nat.mul_succ]
        omega
      rcases setMembers_cases h with ⟨_, hloop⟩ | ⟨user, _, hloop⟩
      · exact ih hnext hname hloop
      · have hbuf : a < (setMember grMem i user p).buf :=
          Nat.lt_of_lt_of_le hname (Nat.le_add_right _ _)
        rw [ih hnext hbuf hloop]
        show ((p.mem.write _ _).write _ _) a = _
        rw [Memory.write_outside _ (.inl hslot),
          Memory.write_outside _ (.inl hname)]

/-- A slot that lies in front of the names when its turn comes keeps its
pointer. -/
theorem setMembers_slot {grMem i k : Nat} {items : List Json}
    {p p' : Packing Group} (hstrings : AllStrings items) (hi : i <= k)
    (hk : k < i + items.length) (hbuf : grMem + pointerSize * k <= p.buf)
    (h : setMembers grMem i items p = .ok p') :
    exists target, p.buf <= target ∧ (k = i -> target = p.buf) ∧
      p'.mem (grMem + pointerSize * k) = Cell.pointer (some target) 0 := by
  induction items generalizing i p with
  | nil => exact absurd hk (Nat.not_lt.mpr hi)
  | cons element rest ih =>
      rcases allStrings_cons hstrings with ⟨⟨user, huser, _⟩, hrest⟩
      rcases setMembers_cases h with ⟨hnone, _⟩ | ⟨user', _, hloop⟩
      · rw [huser] at hnone
        cases hnone
      · have hgrown : p.buf < (setMember grMem i user' p).buf :=
          Nat.lt_succ_of_le (Nat.le_add_right _ _)
        rcases Nat.eq_or_lt_of_le hi with heq | hlt
        · subst heq
          have hslot : grMem + pointerSize * i <
              grMem + pointerSize * (i + 1) := by
            rw [Nat.mul_succ]
            have hpositive : 0 < pointerSize := by decide
            omega
          refine ⟨p.buf, Nat.le_refl _, fun _ => rfl, ?_⟩
          rw [setMembers_below hslot (Nat.lt_of_le_of_lt hbuf hgrown) hloop]
          show ((p.mem.write _ _).write _ _) _ = _
          rw [Memory.write_inside _ (Nat.le_refl _) (by
            rw [pointerCells_length, Nat.sub_self]
            decide)]
          simp [pointerCells]
        · rw [List.length_cons] at hk
          rcases ih hrest hlt (by omega)
            (Nat.le_trans hbuf (Nat.le_of_lt hgrown)) hloop with
            ⟨target, htarget, _, hcell⟩
          refine ⟨target, by omega, ?_, hcell⟩
          intro heq
          omega

theorem setMembers_skipped {grMem i k : Nat} {items : List Json}
    {p p' : Packing Group}
    (hk : forall j element, items[j]? = some element -> i + j = k ->
      jsonValueGetString (some element) = none)
    (hbyte : exists b, p.mem (grMem + pointerSize * k) = Cell.byte b)
    (h : setMembers grMem i items p = .ok p') :
    exists b, p'.mem (grMem + pointerSize * k) = Cell.byte b := by
  induction items generalizing i p with
  | nil =>
      injection h with h
      rw [← h]
      exact hbyte
  | cons element rest ih =>
      have hrest : forall j element, rest[j]? = some element ->
          i + 1 + j = k -> jsonValueGetString (some element) = none := by
        intro j next hj hsum
        exact hk (j + 1) next hj (by omega)
      rcases setMembers_cases h with ⟨_, hloop⟩ | ⟨user, huser, hloop⟩
      · exact ih hrest hbyte hloop
      · refine ih hrest ?_ hloop
        have hne : i ≠ k := by
          intro heq
          have hnone := hk 0 element rfl heq
          rw [huser] at hnone
          cases hnone
        have hsize : pointerSize = 8 := rfl
        have hapart : grMem + pointerSize * k < grMem + pointerSize * i ∨
            grMem + pointerSize * i + (pointerCells (some p.buf)).length <=
              grMem + pointerSize * k := by
          rw [pointerCells_length, hsize]
          omega
        show exists b, ((p.mem.write p.buf (memberRun user)).write _ _)
          (grMem + pointerSize * k) = Cell.byte b
        rw [Memory.write_outside _ hapart]
        by_cases hinside : p.buf <= grMem + pointerSize * k ∧
            grMem + pointerSize * k < p.buf + (memberRun user).length
        · rw [Memory.write_inside _ hinside.left (by omega)]
          unfold memberRun
          rw [List.getElem_map]
          exact ⟨_, rfl⟩
        · rw [Memory.write_outside _ (by omega)]
          exact hbyte

/-!
## The builder around the loop
-/

section Builder

variable {M : Machine} {c : StnsConf} {entry : Option JsonObject}
  {p : Packing Group}

/-- Where the pointer area of the entry starts. -/
def vectorStart (entry : Option JsonObject) (p : Packing Group) : Nat :=
  p.buf + attributesSize (groupAttributes entry)

/-- The packing as the pointer area finds it. -/
def groupFront (M : Machine) (c : StnsConf) (entry : Option JsonObject)
    (p : Packing Group) : Packing Group :=
  placeAll (groupAttributes entry)
    { p with rbuf := groupIds M c entry p.rbuf }

theorem groupFront_buf : (groupFront M c entry p).buf = vectorStart entry p :=
  placeAll_buf _ _

theorem groupFront_mem : (groupFront M c entry p).mem =
    p.mem.write p.buf
      (((groupAttributes entry).flatMap Attribute.stored).map Cell.byte) :=
  placeAll_mem _ _

theorem count_userElements (entry : Option JsonObject) :
    jsonArrayGetCount (jsonObjectGetArray entry Key.users) =
      (userElements entry).length := by
  unfold userElements
  cases jsonObjectGetArray entry Key.users with
  | none => rfl
  | some items => rfl

theorem groupEnsure_success_iff :
    (groupEnsure M c entry p).status = .success <->
      Database.group.Accepts entry ∧
        attributesSize (groupAttributes entry) + memberAreaSize entry <=
          p.buflen :=
  @Database.ensure_success_iff M c .group entry p

theorem ptrAreaSize_le_buflen
    (h : (groupEnsure M c entry p).status = .success) :
    sizeOfInt (ptrAreaSize (jsonObjectGetArray entry Key.users)) <=
      p.buflen := by
  have hroom := (groupEnsure_success_iff.mp h).right
  unfold memberAreaSize at hroom
  dsimp only at hroom
  omega

/-- A successful builder is its loop between the attributes and the last
slot. -/
theorem groupEnsure_success
    (h : (groupEnsure M c entry p).status = .success) :
    exists p',
      setMembers (vectorStart entry p) 0 (userElements entry)
          (skipPointerArea (ptrAreaSize (jsonObjectGetArray entry Key.users))
            (groupFront M c entry p)) = .ok p' ∧
        (groupEnsure M c entry p).mem =
          p'.mem.write (vectorStart entry p +
            pointerSize * (userElements entry).length) (pointerCells none) ∧
        (groupEnsure M c entry p).rbuf =
          { (groupFront M c entry p).rbuf with
            grMem := vectorStart entry p } := by
  rcases groupEnsure_success_iff.mp h with
    ⟨haccepts, hroom⟩
  rcases Option.isSome_iff_exists.mp (haccepts rfl) with ⟨name, hname⟩
  have harea : sizeOfInt (ptrAreaSize
      (jsonObjectGetArray entry Key.users)) +
        membersSize (userElements entry) <=
          (groupFront M c entry p).buflen := by
    unfold groupFront
    rw [placeAll_buflen]
    change _ <= p.buflen - _
    unfold memberAreaSize at hroom
    dsimp only at hroom
    unfold userElements
    omega
  rw [groupEnsure_members hname (by omega)]
  change exists p', _ ∧ (ensureMembers entry (groupFront M c entry p)).mem =
    _ ∧ (ensureMembers entry (groupFront M c entry p)).rbuf = _
  rw [← groupFront_buf (M := M) (c := c)]
  have hfit : membersSize (userElements entry) <=
      (skipPointerArea (ptrAreaSize (jsonObjectGetArray entry Key.users))
        (groupFront M c entry p)).buflen := by
    show _ <= (groupFront M c entry p).buflen - _
    omega
  rcases @setMembers_ok (groupFront M c entry p).buf 0 _ _ hfit
    with ⟨p', hloop, hrbuf, _⟩
  have hbuilder : ensureMembers entry (groupFront M c entry p) =
      { p' with
        mem := p'.mem.write ((groupFront M c entry p).buf +
          pointerSize * (userElements entry).length)
            (pointerCells none) }.reply .success := by
    unfold userElements at hloop
    unfold ensureMembers
    dsimp only
    rw [if_neg (by omega), hloop, count_userElements]
  refine ⟨p', hloop, ?_, ?_⟩
  · rw [hbuilder]
    rfl
  · rw [hbuilder]
    exact hrbuf

theorem groupEnsure_grMem (h : (groupEnsure M c entry p).status = .success) :
    (groupEnsure M c entry p).rbuf.grMem = vectorStart entry p := by
  rcases groupEnsure_success h with ⟨_, _, _, hrbuf⟩
  rw [hrbuf]

/-!
## The pointer area
-/

/-- A pointer area of less than {lit}`INT_MAX` bytes is counted right. -/
theorem ptrAreaSize_exact (members : Option JsonArray)
    (h : jsonArrayGetCount members < 2 ^ 28 - 1) :
    (ptrAreaSize members).toInt =
      (pointerSize * (jsonArrayGetCount members + 1) : Nat) := by
  unfold ptrAreaSize pointerSize
  rw [Int32.toInt_ofInt_of_le (by omega) (by omega)]
  omega

/-- A larger one is counted as some smaller number of slots, if not as a
negative number. -/
theorem ptrAreaSize_wrapped {members : Option JsonArray}
    (h : 2 ^ 28 - 1 <= jsonArrayGetCount members)
    (hpositive : 0 <= (ptrAreaSize members).toInt) :
    exists k, k < jsonArrayGetCount members ∧
      (ptrAreaSize members).toInt = (pointerSize * k : Nat) := by
  have hlt := (ptrAreaSize members).toInt_lt
  have hvalue : (ptrAreaSize members).toInt % 2 ^ 32 =
      ((jsonArrayGetCount members + 1) * 8 : Nat) % 2 ^ 32 := by
    unfold ptrAreaSize
    rw [Int32.toInt_ofInt]
    exact Int.bmod_emod
  exists ((ptrAreaSize members).toInt / 8).toNat
  unfold pointerSize
  omega

/-- A buffer that holds a negative number of bytes is no buffer. -/
theorem ptrAreaSize_nonneg {members : Option JsonArray} {buflen : Nat}
    (hbuflen : buflen < 2 ^ 63)
    (h : sizeOfInt (ptrAreaSize members) <= buflen) :
    0 <= (ptrAreaSize members).toInt := by
  have hlow := (ptrAreaSize members).le_toInt
  unfold sizeOfInt at h
  omega

/-- With strings only, the builder stores the pointers behind the attributes,
and the names behind the pointers. -/
theorem groupEnsure_mem (hstrings : AllStrings (userElements entry))
    (hcount : (userElements entry).length < 2 ^ 28 - 1)
    (h : (groupEnsure M c entry p).status = .success) :
    let names := vectorStart entry p +
      pointerSize * ((userElements entry).length + 1)
    (groupEnsure M c entry p).mem =
      ((groupFront M c entry p).mem.write (vectorStart entry p)
        (slotCells (memberOffsets names (stringMembers entry)) ++
          pointerCells none)).write names
            ((stringMembers entry).flatMap memberRun) := by
  have hlength : (stringMembers entry).length = (userElements entry).length :=
    stringElements_length hstrings
  have harea := ptrAreaSize_exact
    (jsonObjectGetArray entry Key.users) (by
      rw [count_userElements]
      exact hcount)
  rw [count_userElements] at harea
  have hbuf : (skipPointerArea
      (ptrAreaSize (jsonObjectGetArray entry Key.users))
      (groupFront M c entry p)).buf = vectorStart entry p +
        pointerSize * ((userElements entry).length + 1) := by
    unfold skipPointerArea
    dsimp only
    rw [harea, groupFront_buf]
    omega
  rcases groupEnsure_success h with ⟨p', hloop, hmem, _⟩
  have hsize : pointerSize = 8 := rfl
  have hstored := setMembers_strings hstrings (by
    rw [hbuf, hsize]
    omega) hloop
  rw [hbuf] at hstored
  change p'.mem = ((groupFront M c entry p).mem.write _ _).write _ _ at hstored
  have hnull : vectorStart entry p +
      pointerSize * (userElements entry).length +
        (pointerCells none).length <= vectorStart entry p +
          pointerSize * ((userElements entry).length + 1) := by
    rw [pointerCells_length, hsize]
    omega
  have hslots : vectorStart entry p +
      (slotCells (memberOffsets (vectorStart entry p +
        pointerSize * ((userElements entry).length + 1))
          (stringMembers entry))).length =
      vectorStart entry p + pointerSize * (userElements entry).length := by
    rw [slotCells_length, memberOffsets_length, hlength]
  dsimp only
  rw [hmem, hstored, ← Memory.write_comm _ hnull, Memory.write_append, hslots]
  rfl

end Builder

/-!
## When the vector is exact
-/

/-- What is stored from a member on starts with the member and its
terminator. -/
def Continued (users : List CString) : Prop :=
  forall front user rest, users = front ++ user :: rest ->
    stringCells user <+: (user :: rest).flatMap memberRun

/-- A member that is not too long is stored whole, with its terminator. -/
theorem memberRun_of_short {user : CString}
    (h : user.length <= maxBufferSize) : memberRun user = stringCells user := by
  have hmin : user.strnlen maxBufferSize = user.chars.length :=
    Nat.min_eq_left h
  unfold memberRun memberStored stringCells CString.strncpy
  rw [hmin, List.take_length_add_append]
  rfl

theorem exists_gap {items : List Json} (h : ¬ AllStrings items) :
    exists k element, items[k]? = some element ∧
      jsonValueGetString (some element) = none ∧
        k <= (stringElements items).length := by
  induction items with
  | nil =>
      exfalso
      apply h
      intro element hmem
      cases hmem
  | cons first rest ih =>
      cases hfirst : jsonValueGetString (some first) with
      | none => exact ⟨0, first, rfl, hfirst, Nat.zero_le _⟩
      | some user =>
          have hrest : ¬ AllStrings rest := by
            intro hall
            apply h
            intro element hmem
            rcases List.mem_cons.mp hmem with rfl | hlater
            · rw [hfirst]
              rfl
            · exact hall element hlater
          rcases ih hrest with ⟨k, element, hk, hnone, hle⟩
          refine ⟨k + 1, element, hk, hnone, ?_⟩
          unfold stringElements at hle ⊢
          rw [List.filterMap_cons, hfirst]
          exact Nat.succ_le_succ hle

section Exact

variable {M : Machine} {c : StnsConf} {entry : Option JsonObject}
  {p : Packing Group} {mem : Memory Cell} {grMem : Nat} {offsets : List Nat}
  {users : List CString}

/-- Every slot up to the last starts with a part of a pointer. -/
theorem VectorOf.slot (h : VectorOf mem grMem offsets users) {k : Nat}
    (hk : k <= offsets.length) :
    mem (grMem + pointerSize * k) = Cell.pointer offsets[k]? 0 := by
  have hpositive : 0 < pointerSize := by decide
  have hread : mem.read (grMem + pointerSize * k) pointerSize =
      pointerCells offsets[k]? := by
    cases hget : offsets[k]? with
    | none =>
        have hlast : k = offsets.length :=
          Nat.le_antisymm hk (List.getElem?_eq_none_iff.mp hget)
        rw [hlast]
        exact h.stop
    | some o => exact h.slots k o hget
  have hcell := Memory.cell_of_read hread hpositive
  injection hcell with hcell
  exact hcell.symm

theorem VectorOf.byte (h : VectorOf mem grMem offsets users) {i o k : Nat}
    {user : CString} (ho : offsets[i]? = some o)
    (huser : users[i]? = some user) (hk : k <= user.chars.length) :
    exists b, mem (o + k) = Cell.byte b := by
  have hcell := Memory.cell_of_read (h.strings i o user ho huser)
    (Nat.lt_succ_of_le hk)
  unfold stringCells at hcell
  rw [List.getElem?_map] at hcell
  cases hbyte : (user.chars ++ [0])[k]? with
  | none =>
      rw [hbyte] at hcell
      cases hcell
  | some b =>
      rw [hbyte] at hcell
      injection hcell with hcell
      exact ⟨b, hcell.symm⟩

theorem groupEnsure_success_anyMem
    (h : (groupEnsure M c entry p).status = .success) (mem : Memory Cell) :
    (groupEnsure M c entry { p with mem := mem }).status = .success := by
  have hboth := groupEnsure_success_iff.mp h
  exact groupEnsure_success_iff.mpr hboth

/-- In a buffer of bytes, the slot of an element that is not a string holds a
byte. -/
theorem gap_byte (hmem : forall a, exists b, p.mem a = Cell.byte b)
    (h : (groupEnsure M c entry p).status = .success) {k : Nat}
    {element : Json} (hk : (userElements entry)[k]? = some element)
    (hnone : jsonValueGetString (some element) = none) :
    exists b, (groupEnsure M c entry p).mem
      (vectorStart entry p + pointerSize * k) = Cell.byte b := by
  rcases groupEnsure_success h with ⟨p', hloop, hend, _⟩
  have hlt : k < (userElements entry).length :=
    (List.getElem?_eq_some_iff.mp hk).1
  have hsize : pointerSize = 8 := rfl
  rw [hend, Memory.write_outside _ (.inl (by rw [hsize]; omega))]
  refine setMembers_skipped ?_ ?_ hloop
  · intro j element' hj hjk
    rw [Nat.zero_add] at hjk
    rw [hjk, hk] at hj
    injection hj with hj
    rw [← hj]
    exact hnone
  · show exists b, (groupFront M c entry p).mem _ = Cell.byte b
    rw [groupFront_mem, Memory.write_outside _ (.inr (by
      rw [List.length_map, flatMap_stored_length]
      exact Nat.le_add_right _ _))]
    exact hmem _

/-- An element that is not a string leaves a gap that shows what the buffer
held. -/
theorem allStrings_of_exact (h : (groupEnsure M c entry p).status = .success)
    (hexact : VectorExact M c entry p) : AllStrings (userElements entry) := by
  by_contra hnot
  rcases exists_gap hnot with ⟨k, element, hk, hnone, hle⟩
  rcases hexact with ⟨offsets, hvector⟩
  have hbytes := hvector (fun _ => Cell.byte 0)
  have hsuccess := groupEnsure_success_anyMem h (fun _ => Cell.byte 0)
  have hslot := hbytes.slot (k := k) (by
    rw [hbytes.length]
    exact hle)
  rcases gap_byte (fun _ => ⟨0, rfl⟩) hsuccess hk hnone with ⟨b, hb⟩
  rw [groupEnsure_grMem hsuccess, hb] at hslot
  cases hslot

/-- A pointer area that is not counted right lets a pointer overwrite the first
name. -/
theorem count_of_exact (hbuflen : p.buflen < 2 ^ 63)
    (h : (groupEnsure M c entry p).status = .success)
    (hstrings : AllStrings (userElements entry))
    (hexact : VectorExact M c entry p) :
    (userElements entry).length < 2 ^ 28 - 1 := by
  by_contra hnot
  rw [Nat.not_lt] at hnot
  rcases hexact with ⟨offsets, hvector⟩
  have hvector := hvector p.mem
  rcases groupEnsure_success h with ⟨p', hloop, hmem, _⟩
  have harea := ptrAreaSize_le_buflen h
  have hwrapped := ptrAreaSize_wrapped (by rwa [count_userElements])
    (ptrAreaSize_nonneg hbuflen harea)
  rw [count_userElements] at hwrapped
  rcases hwrapped with ⟨k, hk, hvalue⟩
  have hsize : pointerSize = 8 := rfl
  -- the names start at a slot that is written later
  have hbuf : (skipPointerArea
      (ptrAreaSize (jsonObjectGetArray entry Key.users))
      (groupFront M c entry p)).buf =
        vectorStart entry p + pointerSize * k := by
    unfold skipPointerArea
    dsimp only
    rw [hvalue, groupFront_buf]
    omega
  rcases setMembers_slot (k := k) hstrings (Nat.zero_le _) (by omega)
    (Nat.le_of_eq hbuf.symm) hloop with ⟨target, _, _, hover⟩
  rcases setMembers_slot (k := 0) hstrings (Nat.zero_le _) (by omega) (by
    rw [hbuf, hsize]
    omega) hloop with ⟨first, _, hfirst, hzero⟩
  rw [hfirst rfl, hbuf] at hzero
  have hlength := hvector.length
  rw [show (stringMembers entry).length = (userElements entry).length from
    stringElements_length hstrings] at hlength
  have hslot := hvector.slot (Nat.zero_le _)
  rw [groupEnsure_grMem h, hmem,
    Memory.write_outside _ (.inl (by rw [hsize]; omega)), hzero] at hslot
  injection hslot with hoffset
  have huser : exists user, (stringMembers entry)[0]? = some user := by
    have hpositive : 0 < (stringMembers entry).length := by
      rw [show (stringMembers entry).length = (userElements entry).length from
        stringElements_length hstrings]
      omega
    exact ⟨_, List.getElem?_eq_getElem hpositive⟩
  rcases huser with ⟨user, huser⟩
  rcases hvector.byte hoffset.symm huser (Nat.zero_le _) with ⟨b, hb⟩
  rw [hmem, Memory.write_outside _ (.inl (by rw [hsize]; omega)),
    Nat.add_zero, hover] at hb
  cases hb

/-!
## With strings only
-/

theorem slotCells_part {offsets : List Nat} (tail : List Cell) {i o : Nat}
    (h : offsets[i]? = some o) :
    ((slotCells offsets ++ tail).drop (pointerSize * i)).take pointerSize =
      pointerCells (some o) := by
  induction offsets generalizing i with
  | nil => cases h
  | cons first rest ih =>
      rw [slotCells_cons, List.append_assoc]
      have hlength := pointerCells_length (some first)
      cases i with
      | zero =>
          injection h with h
          rw [← h, Nat.mul_zero, List.drop_zero, ← hlength,
            List.take_left' rfl]
      | succ i =>
          rw [Nat.mul_succ, Nat.add_comm, ← List.drop_drop,
            List.drop_left' hlength]
          exact ih h

theorem vector_slots (hstrings : AllStrings (userElements entry))
    (hcount : (userElements entry).length < 2 ^ 28 - 1)
    (h : (groupEnsure M c entry p).status = .success) :
    let names := vectorStart entry p +
      pointerSize * ((userElements entry).length + 1)
    (forall i o, (memberOffsets names (stringMembers entry))[i]? = some o ->
      (groupEnsure M c entry p).mem.read
        (vectorStart entry p + pointerSize * i) pointerSize =
          pointerCells (some o)) ∧
    (groupEnsure M c entry p).mem.read (vectorStart entry p +
      pointerSize * (userElements entry).length) pointerSize =
        pointerCells none := by
  have hlength : (stringMembers entry).length = (userElements entry).length :=
    stringElements_length hstrings
  have hsize : pointerSize = 8 := rfl
  dsimp only
  rw [groupEnsure_mem hstrings hcount h]
  constructor
  · intro i o ho
    have hi := (List.getElem?_eq_some_iff.mp ho).1
    rw [memberOffsets_length, hlength] at hi
    rw [Memory.read_write_disjoint _ (.inl (by rw [hsize]; omega)),
      Memory.read_write_part _ _ (by
        rw [List.length_append, slotCells_length, memberOffsets_length,
          hlength, pointerCells_length, hsize]
        omega)]
    exact slotCells_part _ ho
  · rw [Memory.read_write_disjoint _ (.inl (by rw [hsize]; omega)),
      Memory.read_write_part _ _ (by
        rw [List.length_append, slotCells_length, memberOffsets_length,
          hlength, pointerCells_length])]
    rw [List.drop_left' (by
      rw [slotCells_length, memberOffsets_length, hlength])]
    exact List.take_of_length_le (Nat.le_of_eq (pointerCells_length _))

/-- What can be read from a member on: the members stored from there on. -/
theorem vector_names (hstrings : AllStrings (userElements entry))
    (hcount : (userElements entry).length < 2 ^ 28 - 1)
    (h : (groupEnsure M c entry p).status = .success)
    {front rest : List CString} {user : CString}
    (husers : stringMembers entry = front ++ user :: rest) {count : Nat}
    (hread : count <= ((user :: rest).flatMap memberRun).length) :
    (groupEnsure M c entry p).mem.read (vectorStart entry p +
        pointerSize * ((userElements entry).length + 1) +
          (front.flatMap memberRun).length) count =
      ((user :: rest).flatMap memberRun).take count := by
  rw [groupEnsure_mem hstrings hcount h, husers, List.flatMap_append,
    Memory.read_write_part _ _ (by rw [List.length_append]; omega),
    List.drop_left' rfl]

theorem vector_behind (hstrings : AllStrings (userElements entry))
    (hcount : (userElements entry).length < 2 ^ 28 - 1)
    (h : (groupEnsure M c entry p).status = .success) {a : Nat}
    (ha : vectorStart entry p +
      pointerSize * ((userElements entry).length + 1) +
        ((stringMembers entry).flatMap memberRun).length <= a) :
    (groupEnsure M c entry p).mem a = p.mem a := by
  have hlength : (stringMembers entry).length = (userElements entry).length :=
    stringElements_length hstrings
  have hsize : pointerSize = 8 := rfl
  rw [hsize] at ha
  have hstart : p.buf + attributesSize (groupAttributes entry) <= a := by
    unfold vectorStart at ha
    omega
  rw [groupEnsure_mem hstrings hcount h, groupFront_mem,
    Memory.write_outside _ (.inr (by rw [hsize]; exact ha)),
    Memory.write_outside _ (.inr (by
      rw [List.length_append, slotCells_length, memberOffsets_length,
        hlength, pointerCells_length, hsize]
      omega)),
    Memory.write_outside _ (.inr (by
      rw [List.length_map, flatMap_stored_length]
      exact hstart))]

theorem split_of_getElem {users : List CString} {i : Nat} {user : CString}
    (h : users[i]? = some user) :
    exists front rest, users = front ++ user :: rest ∧ front.length = i := by
  rcases List.getElem?_eq_some_iff.mp h with ⟨hi, hget⟩
  refine ⟨users.take i, users.drop (i + 1), ?_, ?_⟩
  · rw [← hget, ← List.drop_eq_getElem_cons hi, List.take_append_drop]
  · exact List.length_take_of_le (Nat.le_of_lt hi)

theorem exact_of_continued (h : (groupEnsure M c entry p).status = .success)
    (hstrings : AllStrings (userElements entry))
    (hcount : (userElements entry).length < 2 ^ 28 - 1)
    (hcontinued : Continued (stringMembers entry)) :
    VectorExact M c entry p := by
  refine ⟨memberOffsets (vectorStart entry p +
    pointerSize * ((userElements entry).length + 1)) (stringMembers entry), ?_⟩
  intro mem
  have hsuccess := groupEnsure_success_anyMem h mem
  rcases vector_slots hstrings hcount hsuccess with ⟨hslots, hstop⟩
  dsimp only at hslots ⊢
  rw [groupEnsure_grMem hsuccess]
  constructor
  · exact memberOffsets_length _ _
  · exact hslots
  · rw [memberOffsets_length, show (stringMembers entry).length =
      (userElements entry).length from stringElements_length hstrings]
    exact hstop
  · intro i o user ho huser
    rcases split_of_getElem huser with ⟨front, rest, husers, hfront⟩
    rw [husers, ← hfront, memberOffsets_getElem] at ho
    injection ho with ho
    have hprefix := hcontinued front user rest husers
    have hlength : (stringCells user).length = user.chars.length + 1 := by
      simp [stringCells]
    have hread := hprefix.length_le
    rw [hlength] at hread
    rw [← ho]
    refine (vector_names hstrings hcount hsuccess husers hread).trans ?_
    rw [← hlength]
    exact (List.prefix_iff_eq_take.mp hprefix).symm

theorem continued_of_exact (h : (groupEnsure M c entry p).status = .success)
    (hstrings : AllStrings (userElements entry))
    (hcount : (userElements entry).length < 2 ^ 28 - 1)
    (hexact : VectorExact M c entry p) : Continued (stringMembers entry) := by
  intro front user rest husers
  rcases hexact with ⟨offsets, hvector⟩
  have hvector := hvector blankMemory
  have hsuccess := groupEnsure_success_anyMem h blankMemory
  have huser : (stringMembers entry)[front.length]? = some user := by
    rw [husers, List.getElem?_append_right (Nat.le_refl _), Nat.sub_self]
    rfl
  have hplace := memberOffsets_getElem (vectorStart entry p +
    pointerSize * ((userElements entry).length + 1)) front user rest
  rw [← husers] at hplace
  -- the vector can only point to where the loop copied the member
  have hoffset : offsets[front.length]? = some (vectorStart entry p +
      pointerSize * ((userElements entry).length + 1) +
        (front.flatMap memberRun).length) := by
    have hle : front.length <= offsets.length := by
      rw [hvector.length, husers, List.length_append]
      exact Nat.le_add_right _ _
    have hslot := hvector.slot hle
    have hstored := (vector_slots hstrings hcount hsuccess).left _ _ hplace
    have hpositive : 0 < pointerSize := by decide
    have hcell := Memory.cell_of_read hstored hpositive
    injection hcell with hcell
    rw [groupEnsure_grMem hsuccess] at hslot
    have hsame := hcell.trans hslot
    injection hsame with hsame
    exact hsame.symm
  have hstring := hvector.strings _ _ _ hoffset huser
  have hlength : (stringCells user).length = user.chars.length + 1 := by
    simp [stringCells]
  have hread : user.chars.length + 1 <=
      ((user :: rest).flatMap memberRun).length := by
    by_contra hlong
    rcases hvector.byte (k := ((user :: rest).flatMap memberRun).length)
      hoffset huser (by omega) with ⟨b, hb⟩
    rw [vector_behind hstrings hcount hsuccess (by
      rw [husers, List.flatMap_append, List.length_append]
      exact Nat.le_of_eq (Nat.add_assoc _ _ _).symm)] at hb
    cases hb
  have hpart := vector_names hstrings hcount hsuccess husers hread
  rw [List.prefix_iff_eq_take, hlength, ← hpart, ← hstring]
  rfl

end Exact

/-- For every buffer in which the builder succeeds: walking the vector reads
only what the builder stored, and yields exactly the string members, if and
only if every element is a string, the pointer area is counted right and no
name is cut. -/
theorem members_exact_iff (M : Machine) (c : StnsConf)
    {entry : Option JsonObject} {p : Packing Group}
    (hbuflen : p.buflen < 2 ^ 63)
    (h : (groupEnsure M c entry p).status = .success) :
    VectorExact M c entry p <->
      AllStrings (userElements entry) ∧
        (userElements entry).length < 2 ^ 28 - 1 ∧
        Continued (stringMembers entry) := by
  constructor
  · intro hexact
    have hstrings := allStrings_of_exact h hexact
    have hcount := count_of_exact hbuflen h hstrings hexact
    exact ⟨hstrings, hcount, continued_of_exact h hstrings hcount hexact⟩
  · intro hall
    rcases hall with ⟨hstrings, hcount, hcontinued⟩
    exact exact_of_continued h hstrings hcount hcontinued

/-- A group with one user. -/
theorem members_exact_iff_one_user :
    VectorExact Machine.wrapping {} (some [(Key.name, .string (ascii "wheel")),
        (Key.users, .array [.string (ascii "user1")])])
        (Database.group.blankPacking 64) <->
      AllStrings (userElements (some [(Key.name, .string (ascii "wheel")),
        (Key.users, .array [.string (ascii "user1")])])) ∧
        (userElements (some [(Key.name, .string (ascii "wheel")),
          (Key.users, .array [.string (ascii "user1")])])).length <
            2 ^ 28 - 1 ∧
        Continued (stringMembers (some [(Key.name, .string (ascii "wheel")),
          (Key.users, .array [.string (ascii "user1")])])) :=
  members_exact_iff Machine.wrapping {} (by decide) (by decide)

/-- A group whose users start with null. -/
def gapGroup : Option JsonObject :=
  some [(Key.name, .string (ascii "wheel")),
    (Key.users, .array [.null, .string (ascii "user1")])]

/-- Its first slot shows what the buffer held. -/
theorem null_member_leaves_gap :
    (groupEnsure Machine.wrapping {} gapGroup
        (Database.group.blankPacking 64)).status = .success ∧
      ¬ VectorExact Machine.wrapping {} gapGroup
        (Database.group.blankPacking 64) := by
  refine ⟨by decide, ?_⟩
  intro hexact
  rcases hexact with ⟨offsets, hvector⟩
  have hslot := (hvector (fun _ => Cell.byte 255)).slot (Nat.zero_le _)
  have hbyte : (groupEnsure Machine.wrapping {} gapGroup
      { Database.group.blankPacking 64 with
        mem := fun _ => Cell.byte 255 }).mem 8 = Cell.byte 255 := by decide
  exact Cell.noConfusion (hbyte.symm.trans hslot)

end Stns
