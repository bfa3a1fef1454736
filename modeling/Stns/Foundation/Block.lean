import Stns.Foundation.CString
import Stns.Foundation.Memory

/-!
# Heap blocks

A block is a memory with a capacity.  A store past the capacity is recorded and
kept out of nothing: whether a program stays in bounds is a result about it.  A
block that is resized keeps its bytes, and the bytes past its capacity are
arbitrary.
-/

namespace Stns

structure Block where
  capacity : Nat
  bytes : Memory UInt8
  inBounds : Bool := true

namespace Block

def realloc (b : Block) (size : Nat) : Block :=
  { b with capacity := size }

def store (b : Block) (offset : Nat) (run : Bytes) : Block :=
  { b with
    bytes := b.bytes.write offset run
    inBounds := b.inBounds && decide (offset + run.length <= b.capacity) }

def load (b : Block) (count : Nat) : Bytes :=
  b.bytes.read 0 count

/-- The string that starts the block, read up to its capacity. -/
def cstring (b : Block) : CString :=
  CString.ofBytes (b.load b.capacity)

/-- Put a string and its terminator at an offset. -/
def storeString (b : Block) (offset : Nat) (run : Bytes) : Block :=
  (b.store offset run).store (offset + run.length) [0]

@[simp] theorem store_capacity (b : Block) (offset : Nat) (run : Bytes) :
    (b.store offset run).capacity = b.capacity := rfl

@[simp] theorem realloc_load (b : Block) (size count : Nat) :
    (b.realloc size).load count = b.load count := rfl

@[simp] theorem realloc_inBounds (b : Block) (size : Nat) :
    (b.realloc size).inBounds = b.inBounds := rfl

@[simp] theorem load_length (b : Block) (count : Nat) :
    (b.load count).length = count :=
  Memory.read_length _ _ _

@[simp] theorem load_zero (b : Block) : b.load 0 = [] :=
  Memory.read_zero _ _

theorem load_min (b : Block) (count limit : Nat) :
    b.load (min count limit) = (b.load count).take limit :=
  Memory.read_min _ _ _ _

@[simp] theorem storeString_capacity (b : Block) (offset : Nat)
    (run : Bytes) : (b.storeString offset run).capacity = b.capacity := rfl

theorem storeString_inBounds {b : Block} {offset : Nat} {run : Bytes}
    (hb : b.inBounds = true) (h : offset + run.length < b.capacity) :
    (b.storeString offset run).inBounds = true := by
  have hend : offset + run.length <= b.capacity := Nat.le_of_lt h
  simp only [storeString, store, hb, Bool.true_and, Bool.and_eq_true,
    decide_eq_true_eq]
  exact ⟨hend, h⟩

/-- A string stored behind what is loaded extends it. -/
theorem load_storeString (b : Block) (offset : Nat) (run : Bytes) :
    (b.storeString offset run).load (offset + run.length) =
      b.load offset ++ run := by
  unfold storeString load
  show ((b.bytes.write offset run).write (offset + run.length) [0]).read 0
      (offset + run.length) = _
  rw [Memory.read_write_disjoint _ (Or.inl (by omega))]
  exact Memory.read_write_grow b.bytes offset run

theorem storeString_terminated (b : Block) (offset : Nat) (run : Bytes) :
    (b.storeString offset run).bytes (offset + run.length) = 0 := by
  show (Memory.write _ (offset + run.length) [0]) (offset + run.length) = 0
  rw [Memory.write_inside _ (by omega) (by simp)]
  simp

theorem cstring_of_terminated {b : Block} {size : Nat}
    (hsize : size < b.capacity) (hfree : 0 ∉ b.load size)
    (hnul : b.bytes size = 0) : b.cstring.chars = b.load size := by
  have hsplit : b.load b.capacity = b.load size ++
      0 :: b.bytes.read (size + 1) (b.capacity - size - 1) := by
    have hcapacity : b.capacity = size + (1 + (b.capacity - size - 1)) := by
      omega
    have hone : b.bytes.read size 1 = [0] := by
      simp [Memory.read, hnul]
    show b.bytes.read 0 b.capacity = b.bytes.read 0 size ++ _
    rw [hcapacity, Memory.read_add, Memory.read_add, Nat.zero_add, hone,
      ← hcapacity]
    rfl
  unfold cstring
  rw [hsplit]
  exact CString.ofBytes_append_nul hfree _

/-- The string of a buffer that ends inside it is followed by a NUL. -/
theorem terminated_of_cstring {b : Block} {size : Nat}
    (hsize : size < b.capacity) (h : b.cstring.chars = b.load size) :
    b.bytes size = 0 := by
  by_contra hne
  have hlonger : b.load (size + 1) = b.load size ++ [b.bytes size] := by
    unfold load
    rw [Memory.read_add, Nat.zero_add]
    simp [Memory.read]
  have hfree : 0 ∉ b.load (size + 1) := by
    rw [hlonger, ← h, List.mem_append, not_or]
    refine ⟨b.cstring.nulFree, ?_⟩
    intro hmem
    exact hne (List.mem_singleton.mp hmem).symm
  have hsplit : b.load b.capacity = b.load (size + 1) ++
      b.bytes.read (size + 1) (b.capacity - (size + 1)) := by
    have hcapacity : b.capacity =
        (size + 1) + (b.capacity - (size + 1)) := by omega
    unfold load
    rw [hcapacity, Memory.read_add, Nat.zero_add, ← hcapacity]
  have hlength := congrArg List.length h
  unfold cstring CString.ofBytes at hlength
  dsimp only at hlength
  rw [hsplit, List.takeWhile_append_of_pos, List.length_append,
    load_length, load_length] at hlength
  · omega
  · intro byte hbyte
    have hbyte' : byte ≠ 0 := fun hzero => hfree (hzero ▸ hbyte)
    simpa using hbyte'

/-- A string stored behind a NUL-free start is then the string of the block. -/
theorem cstring_storeString {b : Block} {offset : Nat} {run : Bytes}
    (hroom : offset + run.length < b.capacity) (hstart : 0 ∉ b.load offset)
    (hrun : 0 ∉ run) :
    (b.storeString offset run).cstring.chars = b.load offset ++ run := by
  have hload := load_storeString b offset run
  have hfree : 0 ∉ (b.storeString offset run).load (offset + run.length) := by
    rw [hload, List.mem_append, not_or]
    exact ⟨hstart, hrun⟩
  have hinside : offset + run.length < (b.storeString offset run).capacity :=
    hroom
  rw [cstring_of_terminated hinside hfree
    (storeString_terminated b offset run), hload]

theorem store_append (b : Block) (offset : Nat) (front back : Bytes) :
    b.store offset (front ++ back) =
      (b.store offset front).store (offset + front.length) back := by
  have hbounds : (b.inBounds &&
        decide (offset + (front ++ back).length <= b.capacity)) =
      (b.inBounds && decide (offset + front.length <= b.capacity) &&
        decide (offset + front.length + back.length <= b.capacity)) := by
    rw [List.length_append, ← Nat.add_assoc, Bool.and_assoc,
      ← Bool.decide_and]
    congr 1
    apply decide_eq_decide.mpr
    omega
  unfold store
  dsimp only
  rw [hbounds, Memory.write_append]

/-!
## Strings in a block
-/

/-- The block starts with the text and a terminator, and every store into it
lay inside its last allocated size. -/
structure HoldsString (b : Block) (text : Bytes) : Prop where
  inBounds : b.inBounds = true
  load : b.load text.length = text
  nulFree : 0 ∉ text
  room : text.length < b.capacity
  terminated : b.bytes text.length = 0

theorem HoldsString.cstring {b : Block} {text : Bytes}
    (h : b.HoldsString text) : b.cstring.chars = text := by
  rw [cstring_of_terminated h.room (by rw [h.load]; exact h.nulFree)
    h.terminated, h.load]

theorem holdsString_storeString {b : Block} {text run : Bytes}
    (hbounds : b.inBounds = true) (hload : b.load text.length = text)
    (hfree : 0 ∉ text ++ run)
    (hroom : text.length + run.length < b.capacity) :
    (b.storeString text.length run).HoldsString (text ++ run) := by
  have hextended := load_storeString b text.length run
  rw [hload, ← List.length_append] at hextended
  refine ⟨storeString_inBounds hbounds hroom, hextended, hfree, ?_, ?_⟩
  · rw [List.length_append]
    exact hroom
  · rw [List.length_append]
    exact storeString_terminated b text.length run

end Block

end Stns
