import Stns.Foundation.Memory
import Mathlib.Tactic.Common

/-!
# Rows of areas

Runs of cells that are stored one behind the other make a row of areas: they lie
apart, inside the row, and each keeps its run.
-/

namespace Stns

namespace Memory

variable {cell : Type}

/-- An area, given by its offset and what it should hold. -/
structure Area (cell : Type) where
  offset : Nat
  run : List cell

namespace Area

def stop (a : Area cell) : Nat :=
  a.offset + a.run.length

def Apart (a b : Area cell) : Prop :=
  a.stop <= b.offset ∨ b.stop <= a.offset

end Area

/-- Areas that lie apart within bounds, and hold what they should. -/
structure LaidOut (m : Memory cell) (low high : Nat)
    (areas : List (Area cell)) : Prop where
  inside : forall a, a ∈ areas -> low <= a.offset ∧ a.stop <= high
  apart : areas.Pairwise Area.Apart
  holds : forall a, a ∈ areas -> m.read a.offset a.run.length = a.run

/-- The runs, one behind the other. -/
def row : Nat -> List (List cell) -> List (Area cell)
  | _, [] => []
  | offset, run :: rest => ⟨offset, run⟩ :: row (offset + run.length) rest

theorem row_inside {offset : Nat} {runs : List (List cell)} {a : Area cell}
    (h : a ∈ row offset runs) :
    offset <= a.offset ∧ a.stop <= offset + runs.flatten.length := by
  induction runs generalizing offset with
  | nil => cases h
  | cons run rest ih =>
      rw [List.flatten_cons, List.length_append]
      rcases List.mem_cons.mp h with hfirst | hlater
      · rw [hfirst]
        refine ⟨Nat.le_refl _, ?_⟩
        show offset + run.length <= _
        omega
      · rcases ih hlater with ⟨hlow, hhigh⟩
        constructor
        · omega
        · omega

theorem row_apart (offset : Nat) (runs : List (List cell)) :
    (row offset runs).Pairwise Area.Apart := by
  induction runs generalizing offset with
  | nil => exact List.Pairwise.nil
  | cons run rest ih =>
      refine List.pairwise_cons.mpr ⟨?_, ih _⟩
      intro a ha
      exact .inl (row_inside ha).left

/-- Storing the runs at once fills every area of the row. -/
theorem row_holds (m : Memory cell) {offset : Nat} {runs : List (List cell)}
    {a : Area cell} (h : a ∈ row offset runs) :
    (m.write offset runs.flatten).read a.offset a.run.length = a.run := by
  induction runs generalizing m offset with
  | nil => cases h
  | cons run rest ih =>
      rw [List.flatten_cons, write_append]
      rcases List.mem_cons.mp h with hfirst | hlater
      · rw [hfirst, read_write_disjoint _ (.inl (Nat.le_refl _))]
        exact read_write_self m offset run
      · exact ih (m.write offset run) hlater

theorem laidOut_row (m : Memory cell) {offset high : Nat}
    {runs : List (List cell)} (h : offset + runs.flatten.length <= high) :
    LaidOut (m.write offset runs.flatten) offset high (row offset runs) where
  inside a ha := by
    rcases row_inside ha with ⟨hlow, hhigh⟩
    exact ⟨hlow, Nat.le_trans hhigh h⟩
  apart := row_apart offset runs
  holds a ha := row_holds m ha

end Memory

end Stns
