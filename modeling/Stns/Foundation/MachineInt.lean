import Mathlib.Tactic.Common
import Mathlib.Tactic.NormNum

/-!
# C integer arithmetic

C leaves two things open that programs over identifiers run into: what a
floating-point value becomes when its integral part does not fit the integer
type it is converted to, and what a signed addition yields when the sum does
not fit.  A {lit}`Machine` is one way of settling both, together with the
values the language fixes.
-/

namespace Stns

structure Machine where
  /-- Conversion of a floating-point value, given by its integral part, to
  {lit}`int`. -/
  intOfDouble : Int -> Int32
  /-- The same conversion to a 32-bit unsigned type. -/
  uintOfDouble : Int -> UInt32
  intAdd : Int32 -> Int32 -> Int32
  intOfDouble_exact : forall n, -2 ^ 31 <= n -> n < 2 ^ 31 ->
    (intOfDouble n).toInt = n
  uintOfDouble_exact : forall n, 0 <= n -> n < 2 ^ 32 ->
    ((uintOfDouble n).toNat : Int) = n
  intAdd_exact : forall a b, -2 ^ 31 <= a.toInt + b.toInt ->
    a.toInt + b.toInt < 2 ^ 31 -> (intAdd a b).toInt = a.toInt + b.toInt

namespace MachineInt

/-- An {lit}`int` read as a 64-bit unsigned value. -/
def sizeOfInt (i : Int32) : Nat :=
  (i.toInt % 2 ^ 64).toNat

/-- The difference of two 64-bit unsigned values. -/
def sizeSub (a b : Nat) : Nat :=
  (a + 2 ^ 64 - b % 2 ^ 64) % 2 ^ 64

theorem sizeOfInt_of_nonneg {i : Int32} (h : 0 <= i.toInt) :
    (sizeOfInt i : Int) = i.toInt := by
  have hlt := i.toInt_lt
  unfold sizeOfInt
  rw [Int.emod_eq_of_lt h (by omega)]
  omega

/-- A count is its own size. -/
theorem sizeOfInt_count {a : Int32} {n : Nat} (ha : a.toInt = n) :
    sizeOfInt a = n := by
  have hsize := sizeOfInt_of_nonneg (i := a) (by omega)
  omega

theorem sizeSub_of_le {a b : Nat} (hle : b <= a) (ha : a < 2 ^ 64) :
    sizeSub a b = a - b := by
  unfold sizeSub
  omega

theorem toUInt32_emod (i : Int32) :
    (i.toUInt32.toNat : Int) = i.toInt % 2 ^ 32 := by
  have hvalue : i.toInt = i.toUInt32.toBitVec.toInt := rfl
  have hlt := i.toUInt32.toNat_lt
  rw [hvalue, BitVec.toInt_eq_toNat_cond, UInt32.toNat_toBitVec]
  split
  · omega
  · omega

theorem toUInt32_of_nonneg {i : Int32} (h : 0 <= i.toInt) :
    (i.toUInt32.toNat : Int) = i.toInt := by
  have hle : (0 : Int32) <= i := by
    rw [Int32.le_iff_toInt_le]
    simpa using h
  rw [Int32.toNat_toUInt32_of_le hle]
  unfold Int32.toNatClampNeg
  omega

theorem toInt_toInt32_of_lt {i : UInt32} (h : i.toNat < 2 ^ 31) :
    i.toInt32.toInt = i.toNat := by
  have hvalue : i.toInt32.toInt = i.toBitVec.toInt := rfl
  rw [hvalue, BitVec.toInt_eq_toNat_cond, UInt32.toNat_toBitVec,
    if_pos (by omega)]

theorem toInt_toInt32_of_le {i : UInt32} (h : 2 ^ 31 <= i.toNat) :
    i.toInt32.toInt = i.toNat - 2 ^ 32 := by
  have hvalue : i.toInt32.toInt = i.toBitVec.toInt := rfl
  rw [hvalue, BitVec.toInt_eq_toNat_cond, UInt32.toNat_toBitVec,
    if_neg (by omega)]
  rfl

end MachineInt

namespace Machine

open MachineInt

/-- Counts add up as long as their sum fits. -/
theorem intAdd_count (M : Machine) {a b : Int32} {m n : Nat}
    (ha : a.toInt = m) (hb : b.toInt = n) (h : m + n < 2 ^ 31) :
    (M.intAdd a b).toInt = (m + n : Nat) := by
  rw [M.intAdd_exact _ _ (by omega) (by omega), ha, hb]
  omega

/-- Both open points settled by reduction modulo the width. -/
def wrapping : Machine where
  intOfDouble n := Int32.ofInt n
  uintOfDouble n := UInt32.ofNat (n % 2 ^ 32).toNat
  intAdd a b := a + b
  intOfDouble_exact n hlow hhigh := Int32.toInt_ofInt_of_le hlow hhigh
  uintOfDouble_exact n hlow hhigh := by
    rw [Int.emod_eq_of_lt hlow hhigh, UInt32.toNat_ofNat_of_lt']
    · omega
    · show n.toNat < 2 ^ 32
      omega
  intAdd_exact a b hlow hhigh := by
    rw [Int32.toInt_add, Int.bmod_eq_of_le] <;> omega

/-- Any machine may settle the sums that do not fit in another way. -/
def withAdd (M : Machine) (fallback : Int32) : Machine where
  intOfDouble := M.intOfDouble
  uintOfDouble := M.uintOfDouble
  intAdd a b :=
    if -2 ^ 31 <= a.toInt + b.toInt ∧ a.toInt + b.toInt < 2 ^ 31 then
      M.intAdd a b
    else fallback
  intOfDouble_exact := M.intOfDouble_exact
  uintOfDouble_exact := M.uintOfDouble_exact
  intAdd_exact a b hlow hhigh := by
    rw [if_pos ⟨hlow, hhigh⟩]
    exact M.intAdd_exact a b hlow hhigh

/-- Sums that do not fit stop at the largest {lit}`int`. -/
def saturating : Machine :=
  wrapping.withAdd Int32.maxValue

theorem saturating_intAdd {a b : Int32} {m n : Nat} (ha : a.toInt = m)
    (hb : b.toInt = n) :
    (saturating.intAdd a b).toInt = (min (m + n) (2 ^ 31 - 1) : Nat) := by
  by_cases hfits : m + n < 2 ^ 31
  · rw [saturating.intAdd_count ha hb hfits]
    omega
  · have hsum : saturating.intAdd a b = Int32.maxValue :=
      if_neg (fun h => hfits (by omega))
    have hmax : Int32.maxValue.toInt = 2 ^ 31 - 1 := by decide
    rw [hsum, hmax]
    omega

/-- Any machine may convert the values that do not fit {lit}`int` in another
way. -/
def withInt (M : Machine) (fallback : Int32) : Machine where
  intOfDouble n :=
    if -2 ^ 31 <= n ∧ n < 2 ^ 31 then M.intOfDouble n else fallback
  uintOfDouble := M.uintOfDouble
  intAdd := M.intAdd
  intOfDouble_exact n hlow hhigh := by
    rw [if_pos ⟨hlow, hhigh⟩]
    exact M.intOfDouble_exact n hlow hhigh
  uintOfDouble_exact := M.uintOfDouble_exact
  intAdd_exact := M.intAdd_exact

end Machine

end Stns
