import Stns.Foundation.MachineInt
import Stns.Foundation.Percent

/-!
# Decimal numbers

Integers are printed in decimal and read back from text.  A number that is not
negative prints as digits only; a string of digits reads as its value if that
fits.
-/

namespace Stns

namespace Decimal

def isDigit : UInt8 -> Bool :=
  Percent.inRange 48 57

/-- {lit}`isspace` -/
def isSpace (c : UInt8) : Bool :=
  Percent.inRange 9 13 c || c == 32

def minus : UInt8 := 45

def plus : UInt8 := 43

/-!
## Printing
-/

/-- The format {lit}`%d`. -/
def formatInt (i : Int32) : Bytes :=
  ascii (toString i.toInt)

theorem isDigit_toUInt8 {c : Char} (h : c.isDigit = true) :
    isDigit c.toUInt8 = true := by
  unfold Char.isDigit at h
  rw [Bool.and_eq_true, decide_eq_true_eq, decide_eq_true_eq] at h
  have hlow : 48 <= c.val.toNat := UInt32.le_iff_toNat_le.mp h.left
  have hhigh : c.val.toNat <= 57 := UInt32.le_iff_toNat_le.mp h.right
  have hbyte : c.toUInt8.toNat = c.val.toNat := by
    show c.val.toNat % 256 = c.val.toNat
    exact Nat.mod_eq_of_lt (by omega)
  unfold isDigit Percent.inRange
  rw [decide_eq_true_eq, UInt8.le_iff_toNat_le, UInt8.le_iff_toNat_le, hbyte]
  exact ⟨hlow, hhigh⟩

/-- The digits of a natural number. -/
def formatNat (n : Nat) : Bytes :=
  (Nat.toDigits 10 n).map Char.toUInt8

theorem isDigit_of_mem_formatNat {n : Nat} {c : UInt8}
    (h : c ∈ formatNat n) : isDigit c = true := by
  rcases List.mem_map.mp h with ⟨d, hd, rfl⟩
  exact isDigit_toUInt8
    (Nat.isDigit_of_mem_toDigits (by decide) (by decide) hd)

theorem formatNat_length {n : Nat} (h : n < 10 ^ 10) :
    (formatNat n).length <= 10 := by
  unfold formatNat
  rw [List.length_map]
  exact (Nat.length_toDigits_le_iff (by decide) (by decide)).mpr h

theorem formatInt_of_nonneg {i : Int32} (h : 0 <= i.toInt) :
    formatInt i = formatNat i.toInt.natAbs := by
  rcases Int.eq_ofNat_of_zero_le h with ⟨n, hn⟩
  unfold formatInt formatNat
  rw [hn, ← Nat.toList_repr]
  rfl

theorem formatInt_of_neg {i : Int32} (h : i.toInt < 0) :
    formatInt i = minus :: formatNat i.toInt.natAbs := by
  rcases Int.eq_negSucc_of_lt_zero h with ⟨n, hn⟩
  have htext : (String.append "-" (Nat.repr (n + 1))).toList =
      '-' :: (Nat.repr (n + 1)).toList := String.toList_append
  unfold formatInt formatNat ascii
  rw [hn, Int.natAbs_negSucc, ← Nat.toList_repr]
  show (String.append "-" (Nat.repr (n + 1))).toList.map Char.toUInt8 = _
  rw [htext]
  rfl

theorem formatInt_length (i : Int32) : (formatInt i).length <= 11 := by
  have hlow := i.le_toInt
  have hhigh := i.toInt_lt
  have hdigits : (formatNat i.toInt.natAbs).length <= 10 := by
    apply formatNat_length
    omega
  by_cases h : 0 <= i.toInt
  · rw [formatInt_of_nonneg h]
    exact Nat.le_succ_of_le hdigits
  · rw [formatInt_of_neg (Int.lt_of_not_ge h), List.length_cons]
    exact Nat.succ_le_succ hdigits

theorem nulFree_formatInt (i : Int32) : 0 ∉ formatInt i := by
  have hdigits : 0 ∉ formatNat i.toInt.natAbs :=
    fun hmem => absurd (isDigit_of_mem_formatNat hmem) (by decide)
  by_cases h : 0 <= i.toInt
  · rw [formatInt_of_nonneg h]
    exact hdigits
  · rw [formatInt_of_neg (Int.lt_of_not_ge h), List.mem_cons, not_or]
    exact ⟨by decide, hdigits⟩

/-!
## Reading
-/

def digitValue (c : UInt8) : Nat :=
  c.toNat - 48

/-- The value of a run of digits. -/
def number (digits : Bytes) : Nat :=
  digits.foldl (fun n c => 10 * n + digitValue c) 0

/-- A {lit}`long` at the nearest end of its range. -/
def clampLong (n : Int) : Int :=
  max (-2 ^ 63) (min n (2 ^ 63 - 1))

/-- {lit}`atoi`: the digits behind white space and a sign. -/
def atoi (text : Bytes) : Int32 :=
  match text.dropWhile isSpace with
  | [] => 0
  | c :: rest =>
      if c = minus then
        Int32.ofInt (clampLong (-(number (rest.takeWhile isDigit) : Int)))
      else if c = plus then
        Int32.ofInt (clampLong (number (rest.takeWhile isDigit) : Int))
      else
        Int32.ofInt (clampLong (number ((c :: rest).takeWhile isDigit) : Int))

theorem isSpace_of_isDigit {c : UInt8} (h : isDigit c = true) :
    isSpace c = false := by
  unfold isDigit Percent.inRange at h
  rw [decide_eq_true_eq, UInt8.le_iff_toNat_le, UInt8.le_iff_toNat_le] at h
  have hlow : 48 <= c.toNat := h.left
  unfold isSpace Percent.inRange
  rw [Bool.or_eq_false_iff, decide_eq_false_iff_not, UInt8.le_iff_toNat_le,
    UInt8.le_iff_toNat_le, beq_eq_false_iff_ne]
  constructor
  · intro hboth
    have hhigh : c.toNat <= 13 := hboth.right
    omega
  · intro hspace
    rw [hspace] at hlow
    exact absurd hlow (by decide)

theorem atoi_digits {digits : Bytes} (hne : digits ≠ [])
    (hdigits : forall c, c ∈ digits -> isDigit c = true)
    (hfits : number digits < 2 ^ 31) :
    (atoi digits).toInt = number digits := by
  cases digits with
  | nil => exact absurd rfl hne
  | cons c rest =>
      have hc := hdigits c List.mem_cons_self
      have hall : (c :: rest).takeWhile isDigit = c :: rest :=
        List.takeWhile_eq_self_iff.mpr hdigits
      have hminus : c ≠ minus := by
        intro heq
        rw [heq] at hc
        exact absurd hc (by decide)
      have hplus : c ≠ plus := by
        intro heq
        rw [heq] at hc
        exact absurd hc (by decide)
      have hspace := isSpace_of_isDigit hc
      unfold atoi
      rw [List.dropWhile_cons_of_neg (by simp [hspace])]
      dsimp only
      rw [if_neg hminus, if_neg hplus, hall]
      have hclamp : clampLong (number (c :: rest) : Int) =
          number (c :: rest) := by
        unfold clampLong
        omega
      rw [hclamp, Int32.toInt_ofInt_of_le (by omega) (by omega)]

/-!
## Any base
-/

/-- The value of a digit or letter. -/
def digitOf (c : UInt8) : Option Nat :=
  if isDigit c = true then some (c.toNat - 48)
  else if Percent.inRange 97 122 c = true then some (c.toNat - 87)
  else if Percent.inRange 65 90 c = true then some (c.toNat - 55)
  else none

def isDigitOf (base : Nat) (c : UInt8) : Bool :=
  match digitOf c with
  | none => false
  | some value => decide (value < base)

/-- The value of a run of digits of a base. -/
def numberOf (base : Nat) (digits : Bytes) : Nat :=
  digits.foldl (fun n c => base * n + (digitOf c).getD 0) 0

/-- The base that a prefix names, and the text behind the prefix. -/
def radix (text : Bytes) : Nat × Bytes :=
  match text with
  | 48 :: x :: c :: rest =>
      if (x = 120 ∨ x = 88) ∧ isDigitOf 16 c = true then (16, c :: rest)
      else (8, text)
  | 48 :: _ => (8, text)
  | _ => (10, text)

/-- A {lit}`long long` that was read, the text behind it, and whether the
number fits. -/
structure LongRead where
  value : Int
  rest : Bytes
  inRange : Bool

/-- {lit}`strtoll` with base 0. -/
def strtoll (text : Bytes) : LongRead :=
  let unsigned := text.dropWhile isSpace
  let negative := unsigned.head? = some minus
  let body :=
    if negative ∨ unsigned.head? = some plus then unsigned.tail else unsigned
  let (base, digits) := radix body
  let run := digits.takeWhile (isDigitOf base)
  if run = [] then ⟨0, text, true⟩
  else
    let magnitude : Int := numberOf base run
    let value := if negative then -magnitude else magnitude
    ⟨clampLong value, digits.dropWhile (isDigitOf base),
      decide (clampLong value = value)⟩

end Decimal

end Stns
