import Mathlib.Data.List.TakeWhile

/-!
# Bytes and C strings

A C string is a NUL-free sequence of bytes; the terminator is not stored.  The
operations below are the pieces of the C library that programs over such
strings rely on: the cut at the first NUL, the bounded length, bounded
printing and the padding copy.
-/

namespace Stns

abbrev Bytes := List UInt8

/-- The bytes of an ASCII literal. -/
def ascii (text : String) : Bytes :=
  text.toList.map Char.toUInt8

structure CString where
  chars : Bytes
  nulFree : 0 ∉ chars
  deriving DecidableEq

namespace CString

@[ext] theorem ext {s t : CString} (h : s.chars = t.chars) : s = t := by
  cases s
  cases t
  cases h
  rfl

def empty : CString :=
  ⟨[], by simp⟩

def length (s : CString) : Nat :=
  s.chars.length

/-!
## Cutting and joining
-/

/-- The string a reader sees at the start of a byte sequence: everything before
the first NUL. -/
def ofBytes (bytes : Bytes) : CString where
  chars := bytes.takeWhile (fun c => c ≠ 0)
  nulFree := by
    intro hmem
    have hne := List.mem_takeWhile_imp hmem
    simp at hne

theorem ofBytes_of_nulFree {bytes : Bytes} (h : 0 ∉ bytes) :
    (ofBytes bytes).chars = bytes := by
  unfold ofBytes
  apply List.takeWhile_eq_self_iff.mpr
  intro c hc
  have hne : c ≠ 0 := by
    intro hzero
    rw [hzero] at hc
    exact h hc
  simpa using hne

@[simp] theorem ofBytes_chars (s : CString) : ofBytes s.chars = s := by
  apply ext
  exact ofBytes_of_nulFree s.nulFree

theorem ofBytes_append_nul {bytes : Bytes} (h : 0 ∉ bytes) (rest : Bytes) :
    (ofBytes (bytes ++ 0 :: rest)).chars = bytes := by
  have hself : bytes.takeWhile (fun c => c ≠ 0) = bytes :=
    ofBytes_of_nulFree h
  show (bytes ++ 0 :: rest).takeWhile (fun c => c ≠ 0) = bytes
  rw [List.takeWhile_append, hself]
  simp

def append (s t : CString) : CString where
  chars := s.chars ++ t.chars
  nulFree := by
    intro hmem
    rcases List.mem_append.mp hmem with hs | ht
    · exact s.nulFree hs
    · exact t.nulFree ht

def take (n : Nat) (s : CString) : CString where
  chars := s.chars.take n
  nulFree := by
    intro hmem
    exact s.nulFree (List.mem_of_mem_take hmem)

/-!
## Library functions
-/

/-- The bounded length of a string. -/
def strnlen (s : CString) (maxlen : Nat) : Nat :=
  min s.length maxlen

/-- What a bounded print of {lit}`text` leaves in a buffer of {lit}`size`
bytes. -/
def snprintf (size : Nat) (text : CString) : CString :=
  text.take (size - 1)

/-- The {lit}`n` bytes that a bounded copy stores: the string, cut or padded
with NUL. -/
def strncpy (s : CString) (n : Nat) : Bytes :=
  (s.chars ++ List.replicate n 0).take n

@[simp] theorem strncpy_length (s : CString) (n : Nat) :
    (strncpy s n).length = n := by
  simp [strncpy]

end CString

/-- A literal of the program text as a C string. -/
def literal (text : String) : CString :=
  CString.ofBytes (ascii text)

end Stns
