import Mathlib.Data.List.Nodup

/-!
# Blocks and their release

A part of a program that frees memory leaves a trace of the blocks it reads and
releases.  A block is released properly if the trace releases it once and has
nothing about it afterwards.
-/

namespace Stns

inductive BlockEvent (alpha : Type) where
  | read (block : alpha)
  | release (block : alpha)
  deriving DecidableEq

variable {alpha : Type}

namespace BlockEvent

def block : BlockEvent alpha -> alpha
  | read b => b
  | release b => b

end BlockEvent

/-- Nothing happens to the block. -/
def Untouched (trace : List (BlockEvent alpha)) (b : alpha) : Prop :=
  forall event, event ∈ trace -> event.block ≠ b

/-- The block is released once, and neither read nor released after that. -/
def ReleasedOnce (trace : List (BlockEvent alpha)) (b : alpha) : Prop :=
  exists before after, trace = before ++ BlockEvent.release b :: after ∧
    BlockEvent.release b ∉ before ∧ Untouched after b

section Traces

variable {front back trace : List (BlockEvent alpha)} {b : alpha}

theorem Untouched.not_mem (h : Untouched trace b) :
    BlockEvent.release b ∉ trace :=
  fun hmem => h _ hmem rfl

theorem untouched_nil (b : alpha) : Untouched [] b :=
  fun _ hmem => absurd hmem List.not_mem_nil

theorem untouched_singleton {event : BlockEvent alpha} (h : event.block ≠ b) :
    Untouched [event] b := by
  intro other hmem
  rw [List.mem_singleton.mp hmem]
  exact h

theorem untouched_append_iff :
    Untouched (front ++ back) b <-> Untouched front b ∧ Untouched back b :=
  List.forall_mem_append

/-- What happens before does no harm unless it releases the block. -/
theorem ReleasedOnce.after (h : ReleasedOnce trace b)
    (hfront : BlockEvent.release b ∉ front) :
    ReleasedOnce (front ++ trace) b := by
  rcases h with ⟨before, after, htrace, hbefore, hafter⟩
  refine ⟨front ++ before, after, ?_, ?_, hafter⟩
  · rw [htrace, List.append_assoc]
  · rw [List.mem_append, not_or]
    exact ⟨hfront, hbefore⟩

/-- What happens afterwards must leave the block alone. -/
theorem ReleasedOnce.before (h : ReleasedOnce trace b)
    (hback : Untouched back b) : ReleasedOnce (trace ++ back) b := by
  rcases h with ⟨before, after, htrace, hbefore, hafter⟩
  refine ⟨before, after ++ back, ?_, hbefore, ?_⟩
  · rw [htrace, List.append_assoc, List.cons_append]
  · exact untouched_append_iff.mpr ⟨hafter, hback⟩

theorem ReleasedOnce.count [DecidableEq alpha] (h : ReleasedOnce trace b) :
    trace.count (.release b) = 1 := by
  rcases h with ⟨before, after, htrace, hbefore, hafter⟩
  rw [htrace, List.count_append, List.count_eq_zero.mpr hbefore,
    List.count_cons_self, List.count_eq_zero.mpr hafter.not_mem]

theorem releasedOnce_singleton (b : alpha) :
    ReleasedOnce [BlockEvent.release b] b :=
  ⟨[], [], rfl, List.not_mem_nil, untouched_nil b⟩

end Traces

/-!
## Loops
-/

section Loops

variable {beta : Type} {items : List beta} {item : beta} {b : alpha}
  {body : beta -> List (BlockEvent alpha)}

theorem untouched_flatMap
    (h : forall other, other ∈ items -> Untouched (body other) b) :
    Untouched (items.flatMap body) b := by
  intro event hmem
  rcases List.mem_flatMap.mp hmem with ⟨other, hother, hevent⟩
  exact h other hother event hevent

/-- A loop over distinct items releases what the round of one item releases and
the other rounds leave alone. -/
theorem releasedOnce_flatMap (hnodup : items.Nodup) (hitem : item ∈ items)
    (h : ReleasedOnce (body item) b)
    (hothers : forall other, other ∈ items -> other ≠ item ->
      Untouched (body other) b) : ReleasedOnce (items.flatMap body) b := by
  induction items with
  | nil => cases hitem
  | cons first rest ih =>
      rw [List.nodup_cons] at hnodup
      rw [List.flatMap_cons]
      by_cases hfirst : first = item
      · have hrest : Untouched (rest.flatMap body) b := by
          apply untouched_flatMap
          intro other hmem
          apply hothers other (List.mem_cons_of_mem _ hmem)
          intro heq
          rw [heq, ← hfirst] at hmem
          exact hnodup.left hmem
        rw [hfirst]
        exact h.before hrest
      · have hmem : item ∈ rest :=
          (List.mem_cons.mp hitem).resolve_left (Ne.symm hfirst)
        have hrest := ih hnodup.right hmem
          (fun other hother => hothers other (List.mem_cons_of_mem _ hother))
        exact hrest.after
          (hothers first List.mem_cons_self hfirst).not_mem

end Loops

end Stns
