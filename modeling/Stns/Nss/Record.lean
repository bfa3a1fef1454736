import Stns.Document.Config
import Stns.Foundation.Memory
import Mathlib.Tactic.Common

/-!
# Packing a record into the caller's buffer

Every database entry is returned as a fixed record of pointers into a buffer
that the caller owns.  The builders walk through that buffer: check the room
left, copy a string, set a pointer, advance.  A builder that runs out of room
returns at once, so its steps live in {lit}`Except` with the reply as the
error.
-/

namespace Stns

inductive NssStatus where
  | tryAgain
  | unavail
  | notFound
  | success
  deriving DecidableEq, Repr

abbrev Errno := Int32

def enoent : Errno := 2

def erange : Errno := 34

/-- One byte of the caller's buffer: a character, or one of the eight bytes of
a stored pointer. -/
inductive Cell where
  | byte (value : UInt8)
  | pointer (target : Option Nat) (part : Nat)
  deriving DecidableEq

/-- {lit}`sizeof(char *)` -/
def pointerSize : Nat := 8

def pointerCells (target : Option Nat) : List Cell :=
  (List.range pointerSize).map (Cell.pointer target)

/-- What the caller hands in and the builder advances: the record, the buffer,
the next free offset, the room left and {lit}`*errnop`. -/
structure Packing (record : Type) where
  rbuf : record
  mem : Memory Cell
  buf : Nat
  buflen : Nat
  errno : Errno

/-- What a call leaves behind.  {lit}`unlocked` tells whether the builder
released the enumeration mutex on its way out. -/
structure Reply (record : Type) where
  status : NssStatus
  errno : Errno
  rbuf : record
  mem : Memory Cell
  unlocked : Bool

namespace Packing

variable {record : Type}

def reply (p : Packing record) (status : NssStatus) : Reply record where
  status := status
  errno := p.errno
  rbuf := p.rbuf
  mem := p.mem
  unlocked := false

/-- The reply of a call that ran out of room. -/
def outOfRoom (p : Packing record) : Reply record :=
  { p with errno := erange }.reply .tryAgain

@[simp] theorem reply_status (p : Packing record) (status : NssStatus) :
    (p.reply status).status = status := rfl

@[simp] theorem reply_errno (p : Packing record) (status : NssStatus) :
    (p.reply status).errno = p.errno := rfl

@[simp] theorem reply_unlocked (p : Packing record) (status : NssStatus) :
    (p.reply status).unlocked = false := rfl

@[simp] theorem outOfRoom_status (p : Packing record) :
    p.outOfRoom.status = .tryAgain := rfl

@[simp] theorem outOfRoom_errno (p : Packing record) :
    p.outOfRoom.errno = erange := rfl

@[simp] theorem outOfRoom_unlocked (p : Packing record) :
    p.outOfRoom.unlocked = false := rfl

end Packing

/-!
## One attribute
-/

/-- A string field of a record: how its pointer is set, and its value, where
NULL stands for the empty string. -/
structure Attribute (record : Type) where
  assign : Nat -> record -> record
  value : Option CString

namespace Attribute

variable {record : Type}

def text (a : Attribute record) : CString :=
  a.value.getD CString.empty

/-- The room the attribute takes, its terminator included. -/
def size (a : Attribute record) : Nat :=
  a.text.strnlen maxBufferSize + 1

/-- The bytes that the bounded copy stores for it. -/
def stored (a : Attribute record) : Bytes :=
  a.text.strncpy a.size

def place (a : Attribute record) (p : Packing record) : Packing record where
  rbuf := a.assign p.buf p.rbuf
  mem := p.mem.write p.buf (a.stored.map Cell.byte)
  buf := p.buf + a.size
  buflen := p.buflen - a.size
  errno := p.errno

@[simp] theorem stored_length (a : Attribute record) :
    a.stored.length = a.size := by
  simp [stored]

end Attribute

section Attributes

variable {record : Type}

/-- {lit}`SET_ATTRBUTE` -/
def setAttrbute (a : Attribute record) (p : Packing record) :
    Except (Reply record) (Packing record) :=
  if p.buflen < a.size then
    .error p.outOfRoom
  else
    .ok (a.place p)

/-- A row of {lit}`SET_ATTRBUTE` steps. -/
def setAttrbutes :
    List (Attribute record) -> Packing record ->
      Except (Reply record) (Packing record)
  | [], p => .ok p
  | a :: rest, p => do
      let p <- setAttrbute a p
      setAttrbutes rest p

/-- The room a row of attributes takes. -/
def attributesSize : List (Attribute record) -> Nat
  | [] => 0
  | a :: rest => a.size + attributesSize rest

/-- The state after a row of attributes that all fit. -/
def placeAll (attrs : List (Attribute record)) (p : Packing record) :
    Packing record :=
  attrs.foldl (fun p a => a.place p) p

@[simp] theorem attributesSize_nil :
    attributesSize ([] : List (Attribute record)) = 0 := rfl

@[simp] theorem attributesSize_cons (a : Attribute record)
    (rest : List (Attribute record)) :
    attributesSize (a :: rest) = a.size + attributesSize rest := rfl

@[simp] theorem placeAll_nil (p : Packing record) : placeAll [] p = p := rfl

@[simp] theorem placeAll_cons (a : Attribute record)
    (rest : List (Attribute record)) (p : Packing record) :
    placeAll (a :: rest) p = placeAll rest (a.place p) := rfl

/-!
## A row of attributes fits or runs out of room
-/

theorem setAttrbutes_ok {attrs : List (Attribute record)}
    {p : Packing record} (h : attributesSize attrs <= p.buflen) :
    setAttrbutes attrs p = .ok (placeAll attrs p) := by
  induction attrs generalizing p with
  | nil => rfl
  | cons a rest ih =>
      rw [attributesSize_cons] at h
      have hstep : setAttrbute a p = .ok (a.place p) := by
        unfold setAttrbute
        rw [if_neg (by omega)]
      have hrest : attributesSize rest <= (a.place p).buflen := by
        show attributesSize rest <= p.buflen - a.size
        omega
      show (setAttrbute a p >>= setAttrbutes rest) = _
      rw [hstep, placeAll_cons, ← ih hrest]
      rfl

theorem setAttrbutes_error {attrs : List (Attribute record)}
    {p : Packing record} (h : p.buflen < attributesSize attrs) :
    exists r, setAttrbutes attrs p = .error r ∧ r.status = .tryAgain ∧
      r.errno = erange ∧ r.unlocked = false := by
  induction attrs generalizing p with
  | nil => simp [attributesSize] at h
  | cons a rest ih =>
      rw [attributesSize_cons] at h
      show exists r, (setAttrbute a p >>= setAttrbutes rest) = .error r ∧ _
      unfold setAttrbute
      by_cases hroom : p.buflen < a.size
      · rw [if_pos hroom]
        exact ⟨p.outOfRoom, rfl, rfl, rfl, rfl⟩
      · rw [if_neg hroom]
        apply ih
        show p.buflen - a.size < attributesSize rest
        omega

@[simp] theorem placeAll_buflen (attrs : List (Attribute record))
    (p : Packing record) :
    (placeAll attrs p).buflen = p.buflen - attributesSize attrs := by
  induction attrs generalizing p with
  | nil => simp [attributesSize]
  | cons a rest ih =>
      rw [placeAll_cons, ih, attributesSize_cons]
      show p.buflen - a.size - _ = _
      omega

@[simp] theorem placeAll_errno (attrs : List (Attribute record))
    (p : Packing record) : (placeAll attrs p).errno = p.errno := by
  induction attrs generalizing p with
  | nil => rfl
  | cons a rest ih =>
      rw [placeAll_cons, ih]
      rfl

@[simp] theorem placeAll_buf (attrs : List (Attribute record))
    (p : Packing record) :
    (placeAll attrs p).buf = p.buf + attributesSize attrs := by
  induction attrs generalizing p with
  | nil => simp [attributesSize]
  | cons a rest ih =>
      rw [placeAll_cons, ih, attributesSize_cons]
      show p.buf + a.size + _ = _
      omega

theorem flatMap_stored_length (attrs : List (Attribute record)) :
    (attrs.flatMap Attribute.stored).length = attributesSize attrs := by
  induction attrs with
  | nil => rfl
  | cons a rest ih =>
      rw [List.flatMap_cons, List.length_append, ih, Attribute.stored_length,
        attributesSize_cons]

theorem placeAll_mem (attrs : List (Attribute record)) (p : Packing record) :
    (placeAll attrs p).mem =
      p.mem.write p.buf
        ((attrs.flatMap Attribute.stored).map Cell.byte) := by
  induction attrs generalizing p with
  | nil => simp
  | cons a rest ih =>
      rw [placeAll_cons, ih]
      show (p.mem.write p.buf (a.stored.map Cell.byte)).write
        (p.buf + a.size) _ = _
      rw [List.flatMap_cons, List.map_append, Memory.write_append]
      simp

end Attributes

/-!
## Defaults
-/

/-- {lit}`STNS_SET_DEFAULT_VALUE`: a missing or empty value gives way to the
default, and either is cut to the fixed local buffer. -/
def stnsSetDefaultValue (name : Option CString) (default : CString) : CString :=
  match name with
  | some value =>
      if value.strnlen maxBufferSize > 0 then CString.snprintf maxbuf value
      else CString.snprintf maxbuf default
  | none => CString.snprintf maxbuf default

/-- How {lit}`%s` prints a string pointer that may be NULL. -/
def printed (name : Option CString) : CString :=
  name.getD (literal "(null)")

end Stns
