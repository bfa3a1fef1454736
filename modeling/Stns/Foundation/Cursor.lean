import Mathlib.Data.List.Basic
import Mathlib.Tactic.Common

/-!
# Cursors with retries

An enumeration hands out pending items one at a time.  Each attempt to take the
next item may fail, and then the item stays; once the items are used up every
attempt gets the end reply.  This is the purpose of a cursor over a list,
whatever the items, the attempts and the replies are.
-/

namespace Stns

section Cursor

variable {item attempt reply : Type}

/-- How one attempt is answered: {lit}`serve` for a pending item,
{lit}`exhausted` at the end, {lit}`taken` for the replies that use the item
up. -/
structure CursorSpec (item attempt reply : Type) where
  serve : item -> attempt -> reply
  exhausted : attempt -> reply
  taken : reply -> Bool
  exhausted_not_taken : forall a, taken (exhausted a) = false

namespace CursorSpec

variable (S : CursorSpec item attempt reply)

/-- The replies to a sequence of attempts. -/
def drain : List item -> List attempt -> List reply
  | _, [] => []
  | [], a :: rest => S.exhausted a :: drain [] rest
  | x :: pending, a :: rest =>
      S.serve x a ::
        drain (if S.taken (S.serve x a) then pending else x :: pending) rest

/-- How many items a list of replies has used up. -/
def delivered (replies : List reply) : Nat :=
  replies.countP S.taken

@[simp] theorem drain_nil (pending : List item) :
    S.drain pending [] = [] := by
  cases pending <;> rfl

@[simp] theorem drain_length (pending : List item)
    (attempts : List attempt) :
    (S.drain pending attempts).length = attempts.length := by
  induction attempts generalizing pending with
  | nil => simp
  | cons a rest ih =>
      cases pending with
      | nil => simp [drain, ih]
      | cons x pending => simp [drain, ih]

@[simp] theorem drain_exhausted (attempts : List attempt) :
    S.drain [] attempts = attempts.map S.exhausted := by
  induction attempts with
  | nil => rfl
  | cons a rest ih => simp [drain, ih]

/-- While items are pending, the reply is the item's; what was used up decides
which item that is. -/
theorem drain_getElem (pending : List item) (attempts : List attempt) {i : Nat}
    (hi : i < attempts.length) :
    (S.drain pending attempts)[i]? =
      some (match pending[S.delivered ((S.drain pending attempts).take i)]? with
        | some x => S.serve x attempts[i]
        | none => S.exhausted attempts[i]) := by
  induction attempts generalizing pending i with
  | nil => simp at hi
  | cons a rest ih =>
      cases pending with
      | nil => simp only [drain_exhausted, List.getElem?_map,
          List.getElem?_nil, List.getElem?_eq_getElem hi, Option.map_some]
      | cons x pending =>
          cases i with
          | zero => simp [drain, delivered]
          | succ i =>
              have hi' : i < rest.length := by simpa using hi
              unfold drain
              rw [List.getElem?_cons_succ, ih _ hi', List.take_succ_cons]
              unfold delivered
              cases htaken : S.taken (S.serve x a) with
              | true => simp [htaken]
              | false => simp [htaken]

theorem delivered_drain_le (pending : List item) (attempts : List attempt) :
    S.delivered (S.drain pending attempts) <= pending.length := by
  induction attempts generalizing pending with
  | nil => simp [delivered]
  | cons a rest ih =>
      cases pending with
      | nil =>
          have hnone : S.delivered ((a :: rest).map S.exhausted) = 0 := by
            unfold delivered
            rw [List.countP_eq_zero]
            intro r hr
            rcases List.mem_map.mp hr with ⟨a', _, hr⟩
            rw [← hr, S.exhausted_not_taken]
            simp
          rw [drain_exhausted, hnone]
          exact Nat.zero_le _
      | cons x pending =>
          unfold drain delivered
          cases htaken : S.taken (S.serve x a) with
          | true =>
              have hrest := ih pending
              unfold delivered at hrest
              simpa [List.countP_cons, htaken] using hrest
          | false =>
              have hrest := ih (x :: pending)
              unfold delivered at hrest
              simpa [List.countP_cons, htaken] using hrest

theorem drain_take (pending : List item) (attempts : List attempt) (n : Nat) :
    (S.drain pending attempts).take n = S.drain pending (attempts.take n) := by
  induction attempts generalizing pending n with
  | nil => simp
  | cons a rest ih =>
      cases n with
      | zero => simp
      | succ n =>
          cases pending with
          | nil => simp [drain, List.map_take]
          | cons x pending => simp [drain, ih]

/-- Attempts that always succeed use up one item each. -/
theorem drain_append (front pending : List item) (a : attempt) (n : Nat)
    (h : forall x, x ∈ front -> S.taken (S.serve x a) = true) :
    S.drain (front ++ pending) (List.replicate (front.length + n) a) =
      front.map (fun x => S.serve x a) ++
        S.drain pending (List.replicate n a) := by
  induction front with
  | nil => simp
  | cons x front ih =>
      have hx := h x List.mem_cons_self
      have hrest := ih (fun y hy => h y (List.mem_cons_of_mem x hy))
      rw [List.length_cons, Nat.add_right_comm, List.replicate_succ,
        List.cons_append, drain, if_pos hx, hrest]
      rfl

/-- An item that is never used up holds up everything behind it. -/
theorem drain_stuck {x : item} {a : attempt} (pending : List item) (n : Nat)
    (h : S.taken (S.serve x a) = false) :
    S.drain (x :: pending) (List.replicate n a) =
      List.replicate n (S.serve x a) := by
  induction n with
  | zero => simp
  | succ n ih =>
      rw [List.replicate_succ, drain, h]
      simp only [Bool.false_eq_true, if_false, ih]
      rfl

end CursorSpec

end Cursor

end Stns
