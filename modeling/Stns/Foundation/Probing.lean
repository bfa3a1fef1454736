import Mathlib.Data.List.Perm.Basic
import Mathlib.Algebra.Order.Ring.Nat

/-!
# Open addressing

Items are kept in the cells of a table.  A search looks at one cell after the
other along a sequence of positions, until a cell holds what is looked for or
holds nothing.  An item is found as long as no cell in front of its own becomes
free, so that filling free cells keeps every item where a search finds it.
-/

namespace Stns

namespace Probing

variable {ι : Type} {cells : List (Option ι)} {test : ι -> Bool}
  {pos : Nat -> Nat} {x y : ι} {ix : Nat}

/-- What a search ends with: the cell of an item, a free cell, or neither. -/
inductive Probe where
  | found (ix : Nat)
  | free (ix : Nat)
  | full

def Probe.isFound : Probe -> Bool
  | found _ => true
  | _ => false

def cellAt (cells : List (Option ι)) (ix : Nat) : Option ι :=
  cells.getD ix none

/-- Search through the positions from {lit}`i` on, {lit}`left` of them. -/
def probe (cells : List (Option ι)) (test : ι -> Bool) (pos : Nat -> Nat) :
    Nat -> Nat -> Probe
  | 0, _ => .full
  | left + 1, i =>
      match cellAt cells (pos i) with
      | none => .free (pos i)
      | some x =>
          if test x = true then .found (pos i)
          else probe cells test pos left (i + 1)

/-- All positions in front of the given one hold items. -/
def Behind (cells : List (Option ι)) (pos : Nat -> Nat) (i : Nat) : Prop :=
  forall j, j < i -> (cellAt cells (pos j)).isSome = true

/-- A search along the positions comes to the item. -/
def Stored (cells : List (Option ι)) (pos : Nat -> Nat) (x : ι) : Prop :=
  exists i, i < cells.length ∧ cellAt cells (pos i) = some x ∧
    Behind cells pos i

/-- The positions from one to the other hold items that fail the test. -/
def Passed (cells : List (Option ι)) (test : ι -> Bool) (pos : Nat -> Nat)
    (i j : Nat) : Prop :=
  forall k, i <= k -> k < j ->
    exists y, cellAt cells (pos k) = some y ∧ test y = false

/-- The number of cells that hold an item. -/
def occupied (cells : List (Option ι)) : Nat :=
  cells.countP Option.isSome

/-!
## Searching
-/

theorem Passed.behind {i : Nat} (h : Passed cells test pos 0 i) :
    Behind cells pos i := by
  intro j hj
  rcases h j (Nat.zero_le j) hj with ⟨y, hy, _⟩
  rw [hy]
  rfl

theorem Passed.cons {i j : Nat} (hx : cellAt cells (pos i) = some x)
    (htest : test x = false) (h : Passed cells test pos (i + 1) j) :
    Passed cells test pos i j := by
  intro k hle hlt
  rcases Nat.eq_or_lt_of_le hle with rfl | hmore
  · exact ⟨x, hx, htest⟩
  · exact h k hmore hlt

/-- A search ends at the first position that holds nothing or what is looked
for, if there is one. -/
theorem probe_cases (cells : List (Option ι)) (test : ι -> Bool)
    (pos : Nat -> Nat) (left i : Nat) :
    (exists j x, j < i + left ∧ Passed cells test pos i j ∧
        cellAt cells (pos j) = some x ∧ test x = true ∧
        probe cells test pos left i = .found (pos j)) ∨
      (exists j, j < i + left ∧ Passed cells test pos i j ∧
        cellAt cells (pos j) = none ∧
        probe cells test pos left i = .free (pos j)) ∨
      (Passed cells test pos i (i + left) ∧
        probe cells test pos left i = .full) := by
  have hnone : Passed cells test pos i i := by
    intro k hle hlt
    omega
  induction left generalizing i with
  | zero => exact .inr (.inr ⟨hnone, rfl⟩)
  | succ left ih =>
      unfold probe
      cases hcell : cellAt cells (pos i) with
      | none => exact .inr (.inl ⟨i, by omega, hnone, hcell, rfl⟩)
      | some x =>
          cases htest : test x with
          | true =>
              exact .inl ⟨i, x, by omega, hnone, hcell, htest,
                if_pos htest⟩
          | false =>
              dsimp only
              rw [htest, if_neg Bool.noConfusion]
              have hnext : i + 1 + left = i + (left + 1) := by omega
              rw [← hnext]
              rcases ih (i + 1) (by intro k hle hlt; omega) with
                ⟨j, y, hlt, hpassed, hrest⟩ | ⟨j, hlt, hpassed, hrest⟩ |
                  ⟨hpassed, hfull⟩
              · exact .inl ⟨j, y, hlt, hpassed.cons hcell htest, hrest⟩
              · exact .inr (.inl ⟨j, hlt, hpassed.cons hcell htest, hrest⟩)
              · exact .inr (.inr ⟨hpassed.cons hcell htest, hfull⟩)

/-- What is stored is found, if nothing else passes the test. -/
theorem probe_stored (h : Stored cells pos x) (hx : test x = true)
    (honly : forall ix y, cellAt cells ix = some y -> test y = true -> y = x) :
    exists ix, probe cells test pos cells.length 0 = .found ix ∧
      cellAt cells ix = some x := by
  rcases h with ⟨i, hi, hcell, hbehind⟩
  -- no search passes the item
  have hstop : forall j, Passed cells test pos 0 j -> j <= i := by
    intro j hpassed
    by_contra hlt
    rcases hpassed i (Nat.zero_le i) (by omega) with ⟨y, hy, htest⟩
    rw [hcell] at hy
    cases hy
    rw [hx] at htest
    cases htest
  rcases probe_cases cells test pos cells.length 0 with
    ⟨j, y, _, _, hy, htest, hprobe⟩ | ⟨j, _, hpassed, hfree, _⟩ |
      ⟨hpassed, _⟩
  · rw [honly _ _ hy htest] at hy
    exact ⟨_, hprobe, hy⟩
  · rcases Nat.lt_or_eq_of_le (hstop j hpassed) with hlt | heq
    · have hsome := hbehind j hlt
      rw [hfree] at hsome
      cases hsome
    · rw [heq, hcell] at hfree
      cases hfree
  · have hle := hstop _ hpassed
    omega

/-- What passes no test of a stored item is not found: the search ends at a free
cell, if there is one. -/
theorem probe_missing
    (hfails : forall ix y, cellAt cells ix = some y -> test y = false)
    (hfree : exists i, i < cells.length ∧ cellAt cells (pos i) = none) :
    exists i, i < cells.length ∧ cellAt cells (pos i) = none ∧
      Behind cells pos i ∧
      probe cells test pos cells.length 0 = .free (pos i) := by
  rcases probe_cases cells test pos cells.length 0 with
    ⟨j, y, _, _, hy, htest, _⟩ | ⟨j, hlt, hpassed, hcell, hprobe⟩ |
      ⟨hpassed, _⟩
  · rw [hfails _ _ hy] at htest
    cases htest
  · exact ⟨j, by omega, hcell, hpassed.behind, hprobe⟩
  · rcases hfree with ⟨i, hi, hcell⟩
    rcases hpassed i (Nat.zero_le i) (by omega) with ⟨y, hy, _⟩
    rw [hcell] at hy
    cases hy

/-!
## Filling a free cell
-/

theorem cellAt_of_lt {ix : Nat} (h : ix < cells.length) :
    cellAt cells ix = cells[ix] := by
  unfold cellAt
  rw [List.getD_eq_getElem?_getD, List.getElem?_eq_getElem h,
    Option.getD_some]

theorem lt_of_cellAt (h : cellAt cells ix = some x) : ix < cells.length := by
  by_contra hlt
  unfold cellAt at h
  rw [List.getD_eq_getElem?_getD,
    List.getElem?_eq_none (Nat.not_lt.mp hlt)] at h
  cases h

theorem cellAt_set_self (h : ix < cells.length) :
    cellAt (cells.set ix (some x)) ix = some x := by
  rw [cellAt_of_lt (by rw [List.length_set]; exact h),
    List.getElem_set_self]

theorem cellAt_set_ne {ix' : Nat} (h : ix ≠ ix') :
    cellAt (cells.set ix (some x)) ix' = cellAt cells ix' := by
  unfold cellAt
  rw [List.getD_eq_getElem?_getD, List.getD_eq_getElem?_getD,
    List.getElem?_set_ne h]

/-- Filling a free cell leaves the cells that hold something as they are. -/
theorem cellAt_set_free {ix' : Nat} (hfree : cellAt cells ix = none)
    (h : cellAt cells ix' = some y) :
    cellAt (cells.set ix (some x)) ix' = some y := by
  rw [cellAt_set_ne]
  · exact h
  · intro heq
    rw [heq, h] at hfree
    cases hfree

theorem cellAt_set_cases {ix' : Nat}
    (h : cellAt (cells.set ix (some x)) ix' = some y) :
    (ix' = ix ∧ y = x) ∨ cellAt cells ix' = some y := by
  by_cases heq : ix = ix'
  · left
    have hlt := lt_of_cellAt h
    rw [List.length_set] at hlt
    rw [← heq, cellAt_set_self (by rw [heq]; exact hlt)] at h
    exact ⟨heq.symm, (Option.some.inj h).symm⟩
  · rw [cellAt_set_ne heq] at h
    exact .inr h

theorem Behind.set {i : Nat} (hfree : cellAt cells ix = none)
    (h : Behind cells pos i) : Behind (cells.set ix (some x)) pos i := by
  intro j hj
  rcases Option.isSome_iff_exists.mp (h j hj) with ⟨z, hz⟩
  rw [cellAt_set_free hfree hz]
  rfl

/-- An item stays where a search comes to it. -/
theorem Stored.set (hfree : cellAt cells ix = none) (h : Stored cells pos y) :
    Stored (cells.set ix (some x)) pos y := by
  rcases h with ⟨i, hi, hcell, hbehind⟩
  exact ⟨i, by rw [List.length_set]; exact hi, cellAt_set_free hfree hcell,
    hbehind.set hfree⟩

/-- An item that is put where the search for it ended is found there. -/
theorem stored_set {i : Nat} (hi : i < cells.length)
    (hbound : pos i < cells.length) (hfree : cellAt cells (pos i) = none)
    (hbehind : Behind cells pos i) :
    Stored (cells.set (pos i) (some x)) pos x :=
  ⟨i, by rw [List.length_set]; exact hi, cellAt_set_self hbound,
    hbehind.set hfree⟩

theorem occupied_set (hlt : ix < cells.length)
    (hfree : cellAt cells ix = none) :
    occupied (cells.set ix (some x)) = occupied cells + 1 := by
  rw [cellAt_of_lt hlt] at hfree
  unfold occupied
  rw [List.countP_set hlt, hfree]
  rfl

theorem occupied_replicate (capacity : Nat) :
    occupied (List.replicate capacity (none : Option ι)) = 0 := by
  unfold occupied
  rw [List.countP_replicate]
  rfl

theorem cellAt_replicate (capacity ix : Nat) :
    cellAt (List.replicate capacity (none : Option ι)) ix = none := by
  unfold cellAt
  rw [List.getD_eq_getElem?_getD, List.getElem?_replicate]
  split <;> rfl

/-- Fewer items than cells leave a free cell. -/
theorem exists_free (h : occupied cells < cells.length) :
    exists ix, ix < cells.length ∧ cellAt cells ix = none := by
  by_contra hno
  have hall : forall cell, cell ∈ cells -> cell.isSome = true := by
    intro cell hmem
    rcases List.mem_iff_getElem.mp hmem with ⟨ix, hlt, heq⟩
    cases hcell : cell with
    | some x => rfl
    | none =>
        refine absurd ⟨ix, hlt, ?_⟩ hno
        rw [cellAt_of_lt hlt, heq, hcell]
  unfold occupied at h
  rw [List.countP_eq_length.mpr hall] at h
  exact Nat.lt_irrefl _ h

end Probing

end Stns
