import Mathlib.Data.List.Basic

/-!
# Flat memory

A memory gives every offset a cell.  Its initial contents are whatever the
function says, so a statement over all memories covers uninitialised storage.
Bounds are kept by the programs that use it, not by the memory.
-/

namespace Stns

def Memory (cell : Type) : Type :=
  Nat -> cell

namespace Memory

variable {cell : Type}

/-- Store a run of cells from {lit}`offset` on. -/
def write (m : Memory cell) (offset : Nat) (cells : List cell) : Memory cell :=
  fun i => if offset <= i then (cells[i - offset]?).getD (m i) else m i

/-- Load {lit}`count` cells from {lit}`offset` on. -/
def read (m : Memory cell) (offset count : Nat) : List cell :=
  (List.range count).map (fun i => m (offset + i))

@[simp] theorem write_nil (m : Memory cell) (offset : Nat) :
    m.write offset [] = m := by
  funext i
  simp [write]

@[simp] theorem read_zero (m : Memory cell) (offset : Nat) :
    m.read offset 0 = [] := rfl

/-- A shorter load is the front of a longer one. -/
theorem read_min (m : Memory cell) (offset count limit : Nat) :
    m.read offset (min count limit) = (m.read offset count).take limit := by
  unfold read
  rw [← List.map_take, List.take_range, Nat.min_comm]

@[simp] theorem read_length (m : Memory cell) (offset count : Nat) :
    (m.read offset count).length = count := by
  simp [read]

/-!
## What a store changes
-/

theorem write_inside (m : Memory cell) {offset i : Nat} {cells : List cell}
    (hlow : offset <= i) (hhigh : i - offset < cells.length) :
    m.write offset cells i = cells[i - offset] := by
  simp [write, hlow, hhigh]

theorem write_outside (m : Memory cell) {offset i : Nat} {cells : List cell}
    (h : i < offset ∨ offset + cells.length <= i) :
    m.write offset cells i = m i := by
  unfold write
  by_cases hlow : offset <= i
  · have hnone : cells[i - offset]? = none := by
      apply List.getElem?_eq_none
      omega
    rw [if_pos hlow, hnone]
    rfl
  · rw [if_neg hlow]

theorem write_append (m : Memory cell) (offset : Nat) (front back : List cell) :
    m.write offset (front ++ back) =
      (m.write offset front).write (offset + front.length) back := by
  funext i
  by_cases hback : offset + front.length <= i
  · have hsub : i - offset - front.length = i - (offset + front.length) := by
      omega
    have hkeep : m.write offset front i = m i :=
      write_outside m (Or.inr hback)
    show (if offset <= i then ((front ++ back)[i - offset]?).getD (m i) else m i) =
      if offset + front.length <= i then
        (back[i - (offset + front.length)]?).getD (m.write offset front i)
      else m.write offset front i
    rw [if_pos (by omega), if_pos hback, hkeep,
      List.getElem?_append_right (by omega), hsub]
  · rw [write_outside (m.write offset front) (Or.inl (by omega))]
    by_cases hlow : offset <= i
    · rw [write_inside m hlow (by simp; omega),
        write_inside m hlow (by omega), List.getElem_append_left]
    · rw [write_outside m (Or.inl (by omega)), write_outside m (Or.inl (by omega))]

theorem write_comm (m : Memory cell) {offset base : Nat}
    {cells cells' : List cell} (h : offset + cells.length <= base) :
    (m.write offset cells).write base cells' =
      (m.write base cells').write offset cells := by
  funext i
  by_cases hback : base <= i ∧ i < base + cells'.length
  · have hfront : i < offset ∨ offset + cells.length <= i := .inr (by omega)
    rw [write_outside _ hfront, write_inside _ hback.left (by omega),
      write_inside _ hback.left (by omega)]
  · have houtside : i < base ∨ base + cells'.length <= i := by omega
    rw [write_outside _ houtside]
    by_cases hfront : offset <= i ∧ i < offset + cells.length
    · rw [write_inside _ hfront.left (by omega),
        write_inside _ hfront.left (by omega)]
    · have hapart : i < offset ∨ offset + cells.length <= i := by omega
      rw [write_outside _ hapart, write_outside _ hapart,
        write_outside _ houtside]

/-- Over blank memory, what a store leaves tells what was stored. -/
theorem write_injective {m : Memory cell} {offset : Nat} {blank : cell}
    {cells cells' : List cell} (hm : forall i, m i = blank)
    (hcells : blank ∉ cells) (hcells' : blank ∉ cells')
    (h : m.write offset cells = m.write offset cells') : cells = cells' := by
  have hget : forall (run : List cell) (i : Nat),
      m.write offset run (offset + i) = (run[i]?).getD blank := by
    intro run i
    simp [write, hm]
  apply List.ext_getElem?
  intro i
  have hi : (cells[i]?).getD blank = (cells'[i]?).getD blank := by
    rw [← hget, ← hget, h]
  cases hleft : cells[i]? with
  | none =>
      cases hright : cells'[i]? with
      | none => rfl
      | some x =>
          rw [hleft, hright] at hi
          have hx : blank = x := hi
          rw [hx] at hcells'
          exact absurd (List.mem_of_getElem? hright) hcells'
  | some x =>
      cases hright : cells'[i]? with
      | none =>
          rw [hleft, hright] at hi
          have hx : x = blank := hi
          rw [← hx] at hcells
          exact absurd (List.mem_of_getElem? hleft) hcells
      | some y =>
          rw [hleft, hright] at hi
          have hxy : x = y := hi
          rw [hxy]

/-!
## Loads after stores
-/

theorem read_congr {m m' : Memory cell} {offset count : Nat}
    (h : forall i, offset <= i -> i < offset + count -> m i = m' i) :
    m.read offset count = m'.read offset count := by
  unfold read
  apply List.map_congr_left
  intro i hi
  have hlt : i < count := List.mem_range.mp hi
  exact h (offset + i) (by omega) (by omega)

theorem read_write_self (m : Memory cell) (offset : Nat) (cells : List cell) :
    (m.write offset cells).read offset cells.length = cells := by
  apply List.ext_getElem
  · simp
  · intro i hi hi'
    simp only [read, List.getElem_map, List.getElem_range]
    rw [write_inside m (by omega) (by omega)]
    simp

theorem read_write_disjoint (m : Memory cell) {offset base count : Nat}
    {cells : List cell}
    (h : base + count <= offset ∨ offset + cells.length <= base) :
    (m.write offset cells).read base count = m.read base count := by
  apply read_congr
  intro i hlow hhigh
  exact write_outside m (by omega)

theorem cell_of_read {m : Memory cell} {offset count i : Nat}
    {cells : List cell} (h : m.read offset count = cells) (hi : i < count) :
    cells[i]? = some (m (offset + i)) := by
  rw [← h]
  simp [read, hi]

theorem read_add (m : Memory cell) (offset front back : Nat) :
    m.read offset (front + back) =
      m.read offset front ++ m.read (offset + front) back := by
  simp [read, List.range_add, Nat.add_assoc]

theorem read_write_part (m : Memory cell) (offset : Nat) {cells : List cell}
    {start count : Nat} (h : start + count <= cells.length) :
    (m.write offset cells).read (offset + start) count =
      (cells.drop start).take count := by
  apply List.ext_getElem
  · simp
    omega
  · intro i hi hi'
    rw [read_length] at hi
    simp only [read, List.getElem_map, List.getElem_range]
    rw [write_inside m (by omega) (by omega)]
    simp only [List.getElem_take, List.getElem_drop]
    congr 1
    omega

theorem read_write_grow (m : Memory cell) (offset : Nat) (cells : List cell) :
    (m.write offset cells).read 0 (offset + cells.length) =
      m.read 0 offset ++ cells := by
  rw [read_add, Nat.zero_add, read_write_self]
  rw [read_write_disjoint m (Or.inl (by omega))]

end Memory

end Stns
