import Mathlib.Tactic.Common

/-!
# What a fallible computation yields

A computation either returns a value or fails.  A specification says what holds
of the value and which failures may occur; the rules below follow the way such
computations are composed.
-/

namespace Stns

section Outcome

variable {error value value' : Type} {x : Except error value}
  {good good' : value -> Prop} {allowed allowed' : error -> Prop}

/-- A value that is returned is good, and a failure is an allowed one. -/
def Yields (x : Except error value) (good : value -> Prop)
    (allowed : error -> Prop) : Prop :=
  match x with
  | .ok v => good v
  | .error e => allowed e

/-- A computation goes on with the value that is returned. -/
theorem yields_ok_bind {v : value} {f : value -> Except error value'}
    {good : value' -> Prop} (h : Yields (f v) good allowed) :
    Yields (.ok v >>= f) good allowed :=
  h

theorem Yields.of_ok (h : Yields x good allowed) {v : value}
    (hx : x = .ok v) : good v := by
  rw [hx] at h
  exact h

theorem Yields.mono (h : Yields x good allowed)
    (hgood : forall v, good v -> good' v) : Yields x good' allowed := by
  cases x with
  | ok v => exact hgood v h
  | error e => exact h

theorem Yields.bind {f : value -> Except error value'}
    {good' : value' -> Prop} (h : Yields x good allowed)
    (hnext : forall v, good v -> Yields (f v) good' allowed) :
    Yields (x >>= f) good' allowed := by
  cases x with
  | ok v => exact hnext v h
  | error e => exact h

end Outcome

end Stns
