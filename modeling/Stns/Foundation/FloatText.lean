import Mathlib.Algebra.Order.Ring.Nat
import Stns.Foundation.Decimal

/-!
# Floating-point numbers in a text

The front of a text is read as a number, as {lit}`strtod` reads it in the C
locale, and rounded to the nearest double.  A reader that converts the double to
an integer type only sees its integral part, so that is what is kept of it.
Integers of up to 53 bits are read exactly.
-/

namespace Stns

namespace FloatText

open Decimal

def point : UInt8 := 46

/-!
## The text of a decimal number
-/

/-- An exponent: its letter, its sign if it has one, and its digits. -/
structure Exponent where
  letter : UInt8
  sign : Option UInt8
  digits : Bytes

/-- A decimal number as it is written: the digits before the point, those
behind it if there is one, and the exponent. -/
structure DecimalText where
  negative : Bool
  whole : Bytes
  fraction : Option Bytes
  exponent : Option Exponent

namespace Exponent

def text (e : Exponent) : Bytes :=
  e.letter :: (e.sign.toList ++ e.digits)

def value (e : Exponent) : Int :=
  if e.sign = some minus then -(number e.digits : Int) else number e.digits

structure WellFormed (e : Exponent) : Prop where
  letter : e.letter = 101 ∨ e.letter = 69
  sign : forall c, e.sign = some c -> c = plus ∨ c = minus
  digits : forall c, c ∈ e.digits -> isDigit c = true
  nonempty : e.digits ≠ []

end Exponent

def fractionText : Option Bytes -> Bytes
  | none => []
  | some digits => point :: digits

def exponentText : Option Exponent -> Bytes
  | none => []
  | some e => e.text

namespace DecimalText

def magnitudeText (d : DecimalText) : Bytes :=
  d.whole ++ (fractionText d.fraction ++ exponentText d.exponent)

def text (d : DecimalText) : Bytes :=
  (if d.negative = true then [minus] else []) ++ d.magnitudeText

/-- The digits before and behind the point. -/
def digits (d : DecimalText) : Bytes :=
  d.whole ++ d.fraction.getD []

structure WellFormed (d : DecimalText) : Prop where
  digits : forall c, c ∈ d.digits -> isDigit c = true
  nonempty : d.digits ≠ []
  exponent : forall e, d.exponent = some e -> e.WellFormed

end DecimalText

/-!
## The nearest double
-/

/-- The nearest integer to a quotient; halfway it is the even one. -/
def roundHalfEven (num den : Nat) : Nat :=
  if 2 * (num % den) < den then num / den
  else if den < 2 * (num % den) then num / den + 1
  else num / den + num / den % 2

/-- The integral part of the double nearest to a quotient, of which 53 bits are
significant; {lit}`none` where it is out of range. -/
def integralPart (num den : Nat) : Option Nat :=
  if num < den then some (roundHalfEven (num * 2 ^ 53) den / 2 ^ 53)
  else
    let bits := Nat.log2 (num / den)
    if bits <= 52 then
      some (roundHalfEven (num * 2 ^ (52 - bits)) den / 2 ^ (52 - bits))
    else
      let unit := 2 ^ (bits - 52)
      let value := roundHalfEven num (den * unit) * unit
      if value < 2 ^ 1024 then some value else none

/-- The integral part of the double that a decimal number reads as. -/
def DecimalText.integral (d : DecimalText) : Option Int :=
  let scale : Int := (d.exponent.map Exponent.value).getD 0 -
    (d.fraction.getD []).length
  let magnitude := integralPart (number d.digits * 10 ^ scale.toNat)
    (10 ^ (-scale).toNat)
  magnitude.map (fun n => if d.negative = true then -(n : Int) else n)

/-!
## Scanning
-/

/-- A sign at the front of a text. -/
def splitSign : Bytes -> Option UInt8 × Bytes
  | [] => (none, [])
  | c :: rest =>
      if c = plus ∨ c = minus then (some c, rest) else (none, c :: rest)

/-- An exponent at the front of a text, and what is behind it.  A letter without
digits is none. -/
def scanExponent : Bytes -> Option Exponent × Bytes
  | [] => (none, [])
  | e :: rest =>
      let digits := (splitSign rest).2
      if (e = 101 ∨ e = 69) ∧ digits.takeWhile isDigit ≠ [] then
        (some ⟨e, (splitSign rest).1, digits.takeWhile isDigit⟩,
          digits.dropWhile isDigit)
      else (none, e :: rest)

/-- A point with the digits behind it, and what is behind these. -/
def scanFraction : Bytes -> Option Bytes × Bytes
  | [] => (none, [])
  | c :: rest =>
      if c = point then
        (some (rest.takeWhile isDigit), rest.dropWhile isDigit)
      else (none, c :: rest)

/-- What {lit}`strtod` makes of a text: a decimal number and the text behind it,
a hexadecimal one, an infinity or what is no number, or nothing. -/
inductive Scanned where
  | decimal (d : DecimalText) (rest : Bytes)
  | hexadecimal
  | special
  | nothing

/-- The prefix of a hexadecimal number with a digit behind it. -/
def isHexadecimal (s : Bytes) : Bool :=
  match s with
  | z :: x :: c :: rest =>
      decide (z = 48 ∧ (x = 120 ∨ x = 88) ∧
        (isDigitOf 16 c = true ∨
          (c = point ∧ (rest.head?.any (isDigitOf 16)) = true)))
  | _ => false

def lowerCase (c : UInt8) : UInt8 :=
  if Percent.inRange 65 90 c = true then c + 32 else c

/-- {lit}`inf` or {lit}`nan`, in any case. -/
def isSpecial (s : Bytes) : Bool :=
  decide ((s.take 3).map lowerCase = ascii "inf" ∨
    (s.take 3).map lowerCase = ascii "nan")

/-- {lit}`strtod` behind the sign. -/
def scanMagnitude (negative : Bool) (s : Bytes) : Scanned :=
  if isHexadecimal s = true then .hexadecimal
  else if isSpecial s = true then .special
  else
    let fraction := scanFraction (s.dropWhile isDigit)
    let exponent := scanExponent fraction.2
    let d : DecimalText :=
      ⟨negative, s.takeWhile isDigit, fraction.1, exponent.1⟩
    if d.digits = [] then .nothing else .decimal d exponent.2

/-- {lit}`strtod` on a text that does not start with white space or a plus. -/
def strtod : Bytes -> Scanned
  | [] => .nothing
  | c :: rest =>
      if c = minus then scanMagnitude true rest
      else scanMagnitude false (c :: rest)

/-!
## Where a number ends
-/

/-- Nothing of the text could belong to a number in front of it. -/
def Ends (rest : Bytes) : Prop :=
  forall c, rest.head? = some c -> isDigit c = false ∧ c ≠ point ∧
    c ≠ 101 ∧ c ≠ 69 ∧ c ≠ 120 ∧ c ≠ 88

section Runs

variable {digits rest : Bytes}

theorem takeWhile_run (hdigits : forall c, c ∈ digits -> isDigit c = true)
    (hrest : forall c, rest.head? = some c -> isDigit c = false) :
    (digits ++ rest).takeWhile isDigit = digits := by
  rw [List.takeWhile_append_of_pos hdigits]
  cases rest with
  | nil => simp
  | cons c rest => simp [hrest c rfl]

theorem dropWhile_run (hdigits : forall c, c ∈ digits -> isDigit c = true)
    (hrest : forall c, rest.head? = some c -> isDigit c = false) :
    (digits ++ rest).dropWhile isDigit = rest := by
  rw [List.dropWhile_append_of_pos hdigits]
  cases rest with
  | nil => rfl
  | cons c rest => simp [hrest c rfl]

end Runs

section Scan

variable {e : Exponent} {d : DecimalText} {s rest : Bytes}

theorem splitSign_append {sign : Option UInt8}
    (hsign : forall c, sign = some c -> c = plus ∨ c = minus)
    (hrest : forall c, rest.head? = some c -> isDigit c = true) :
    splitSign (sign.toList ++ rest) = (sign, rest) := by
  cases sign with
  | some c => exact if_pos (hsign c rfl)
  | none =>
      cases rest with
      | nil => rfl
      | cons c rest =>
          apply if_neg
          intro hc
          have hdigit := hrest c rfl
          rcases hc with hplus | hminus
          · rw [hplus] at hdigit
            exact absurd hdigit (by decide)
          · rw [hminus] at hdigit
            exact absurd hdigit (by decide)

theorem splitSign_split (s : Bytes) :
    s = (splitSign s).1.toList ++ (splitSign s).2 ∧
      forall c, (splitSign s).1 = some c -> c = plus ∨ c = minus := by
  cases s with
  | nil => exact ⟨rfl, nofun⟩
  | cons c s =>
      by_cases hc : c = plus ∨ c = minus
      · have hsigned : splitSign (c :: s) = (some c, s) := if_pos hc
        rw [hsigned]
        refine ⟨rfl, ?_⟩
        intro c' hc'
        cases hc'
        exact hc
      · have hplain : splitSign (c :: s) = (none, c :: s) := if_neg hc
        rw [hplain]
        exact ⟨rfl, nofun⟩

theorem scanExponent_append (h : e.WellFormed)
    (hrest : forall c, rest.head? = some c -> isDigit c = false) :
    scanExponent (e.text ++ rest) = (some e, rest) := by
  have hhead : forall c, (e.digits ++ rest).head? = some c ->
      isDigit c = true := by
    intro c hc
    rw [List.head?_append, List.head?_eq_some_head h.nonempty] at hc
    cases hc
    exact h.digits _ (List.head_mem h.nonempty)
  have hsplit := splitSign_append h.sign hhead
  have htake := takeWhile_run h.digits hrest
  show scanExponent (e.letter :: (e.sign.toList ++ e.digits ++ rest)) = _
  rw [List.append_assoc]
  unfold scanExponent
  dsimp only
  rw [hsplit, htake, dropWhile_run h.digits hrest,
    if_pos ⟨h.letter, h.nonempty⟩]

theorem scanExponent_none
    (hrest : forall c, rest.head? = some c -> c ≠ 101 ∧ c ≠ 69) :
    scanExponent rest = (none, rest) := by
  cases rest with
  | nil => rfl
  | cons c rest =>
      rcases hrest c rfl with ⟨hlower, hupper⟩
      exact if_neg (fun h => not_or.mpr ⟨hlower, hupper⟩ h.left)

/-- What is scanned as an exponent is one, and stood in front. -/
theorem scanExponent_split (s : Bytes) :
    (forall e, (scanExponent s).1 = some e -> e.WellFormed) ∧
      s = exponentText (scanExponent s).1 ++ (scanExponent s).2 := by
  cases s with
  | nil => exact ⟨nofun, rfl⟩
  | cons letter s =>
      by_cases hexponent : (letter = 101 ∨ letter = 69) ∧
          (splitSign s).2.takeWhile isDigit ≠ []
      · rcases splitSign_split s with ⟨hs, hsign⟩
        have hscan : scanExponent (letter :: s) =
            (some ⟨letter, (splitSign s).1, (splitSign s).2.takeWhile isDigit⟩,
              (splitSign s).2.dropWhile isDigit) := if_pos hexponent
        rw [hscan]
        constructor
        · intro e he
          cases he
          exact ⟨hexponent.left, hsign, fun c hc => List.mem_takeWhile_imp hc,
            hexponent.right⟩
        · show letter :: s = letter :: (_ ++ _ ++ _)
          rw [List.append_assoc, List.takeWhile_append_dropWhile, ← hs]
      · have hscan : scanExponent (letter :: s) = (none, letter :: s) :=
          if_neg hexponent
        rw [hscan]
        exact ⟨nofun, rfl⟩

theorem scanFraction_append {fraction : Option Bytes}
    (hdigits : forall c, c ∈ fraction.getD [] -> isDigit c = true)
    (hrest : forall c, rest.head? = some c -> isDigit c = false ∧ c ≠ point) :
    scanFraction (fractionText fraction ++ rest) = (fraction, rest) := by
  cases fraction with
  | none =>
      cases rest with
      | nil => rfl
      | cons c rest => exact if_neg (hrest c rfl).right
  | some digits =>
      have hrun : forall c, c ∈ digits -> isDigit c = true := hdigits
      have hend : forall c, rest.head? = some c -> isDigit c = false :=
        fun c hc => (hrest c hc).left
      show scanFraction (point :: (digits ++ rest)) = _
      unfold scanFraction
      dsimp only
      rw [if_pos rfl, takeWhile_run hrun hend, dropWhile_run hrun hend]

theorem scanFraction_split (s : Bytes) :
    (forall c, c ∈ (scanFraction s).1.getD [] -> isDigit c = true) ∧
      s = fractionText (scanFraction s).1 ++ (scanFraction s).2 := by
  cases s with
  | nil => exact ⟨nofun, rfl⟩
  | cons c s =>
      by_cases hpoint : c = point
      · have hscan : scanFraction (c :: s) =
            (some (s.takeWhile isDigit), s.dropWhile isDigit) := if_pos hpoint
        rw [hscan, hpoint]
        refine ⟨fun c hc => List.mem_takeWhile_imp hc, ?_⟩
        show point :: s = point :: (_ ++ _)
        rw [List.takeWhile_append_dropWhile]
      · have hscan : scanFraction (c :: s) = (none, c :: s) := if_neg hpoint
        rw [hscan]
        exact ⟨nofun, rfl⟩

end Scan

section Strtod

variable {d : DecimalText} {s rest : Bytes}

theorem isDigit_not_x {c : UInt8} (h : isDigit c = true) :
    c ≠ 120 ∧ c ≠ 88 := by
  constructor
  · intro heq
    rw [heq] at h
    exact absurd h (by decide)
  · intro heq
    rw [heq] at h
    exact absurd h (by decide)

namespace DecimalText

theorem WellFormed.whole (h : d.WellFormed) :
    forall c, c ∈ d.whole -> isDigit c = true :=
  fun c hc => h.digits c (List.mem_append_left _ hc)

theorem WellFormed.fraction (h : d.WellFormed) :
    forall c, c ∈ d.fraction.getD [] -> isDigit c = true :=
  fun c hc => h.digits c (List.mem_append_right _ hc)

theorem WellFormed.fractionText_not_x (h : d.WellFormed) {c : UInt8}
    (hc : c ∈ fractionText d.fraction) : c ≠ 120 ∧ c ≠ 88 := by
  have hdigits := h.fraction
  unfold fractionText at hc
  cases hfraction : d.fraction with
  | none =>
      rw [hfraction] at hc
      cases hc
  | some digits =>
      rw [hfraction] at hc hdigits
      rcases List.mem_cons.mp hc with hpoint | hmem
      · rw [hpoint]
        decide
      · exact isDigit_not_x (hdigits c hmem)

theorem WellFormed.exponentText_not_x (h : d.WellFormed) {c : UInt8}
    (hc : c ∈ exponentText d.exponent) : c ≠ 120 ∧ c ≠ 88 := by
  unfold exponentText at hc
  cases hexponent : d.exponent with
  | none =>
      rw [hexponent] at hc
      cases hc
  | some e =>
      rw [hexponent] at hc
      have he := h.exponent e hexponent
      rcases List.mem_cons.mp hc with hletter | hmem
      · rcases he.letter with hlower | hupper
        · rw [hletter, hlower]
          decide
        · rw [hletter, hupper]
          decide
      · rcases List.mem_append.mp hmem with hsign | hdigit
        · rcases he.sign c (Option.mem_toList.mp hsign) with hplus | hminus
          · rw [hplus]
            decide
          · rw [hminus]
            decide
        · exact isDigit_not_x (he.digits c hdigit)

theorem WellFormed.not_x (h : d.WellFormed) {c : UInt8}
    (hc : c ∈ d.magnitudeText) : c ≠ 120 ∧ c ≠ 88 := by
  rcases List.mem_append.mp hc with hwhole | hc
  · exact isDigit_not_x (h.whole c hwhole)
  · rcases List.mem_append.mp hc with hfraction | hexponent
    · exact h.fractionText_not_x hfraction
    · exact h.exponentText_not_x hexponent

/-- A number starts with a digit or with the point. -/
theorem WellFormed.head (h : d.WellFormed) :
    exists c tail, d.magnitudeText = c :: tail ∧
      (isDigit c = true ∨ c = point) := by
  have hdigits := h.whole
  have hnonempty := h.nonempty
  unfold magnitudeText fractionText
  unfold DecimalText.digits at hnonempty
  cases hwhole : d.whole with
  | cons c tail =>
      refine ⟨c, _, rfl, .inl (hdigits c ?_)⟩
      rw [hwhole]
      exact List.mem_cons_self
  | nil =>
      cases hfraction : d.fraction with
      | some digits => exact ⟨point, _, rfl, .inr rfl⟩
      | none =>
          rw [hwhole, hfraction] at hnonempty
          exact absurd rfl hnonempty

end DecimalText

theorem isHexadecimal_false (h : forall c, s[1]? = some c -> c ≠ 120 ∧ c ≠ 88) :
    isHexadecimal s = false := by
  unfold isHexadecimal
  split
  · rename_i z x c rest
    rcases h x rfl with ⟨hlower, hupper⟩
    rw [decide_eq_false_iff_not]
    intro hhex
    rcases hhex.right.left with hx | hx
    · exact hlower hx
    · exact hupper hx
  · rfl

theorem isSpecial_false {c : UInt8} (h : isDigit c = true ∨ c = point)
    (tail : Bytes) : isSpecial (c :: tail) = false := by
  have hlower : lowerCase c ≠ 105 ∧ lowerCase c ≠ 110 := by
    rcases h with hdigit | hpoint
    · unfold isDigit Percent.inRange at hdigit
      rw [decide_eq_true_eq, UInt8.le_iff_toNat_le,
        UInt8.le_iff_toNat_le] at hdigit
      simp only [UInt8.reduceToNat] at hdigit
      have hsame : lowerCase c = c := by
        unfold lowerCase Percent.inRange
        rw [if_neg]
        rw [decide_eq_true_eq, UInt8.le_iff_toNat_le]
        intro hupper
        simp only [UInt8.reduceToNat] at hupper
        omega
      rw [hsame]
      constructor
      · intro heq
        rw [heq] at hdigit
        exact absurd hdigit.right (by decide)
      · intro heq
        rw [heq] at hdigit
        exact absurd hdigit.right (by decide)
    · rw [hpoint]
      decide
  unfold isSpecial
  rw [decide_eq_false_iff_not, not_or]
  constructor
  · intro heq
    exact hlower.left (List.cons.inj heq).left
  · intro heq
    exact hlower.right (List.cons.inj heq).left

theorem scanMagnitude_append (h : d.WellFormed) (hends : Ends rest) :
    scanMagnitude d.negative (d.magnitudeText ++ rest) = .decimal d rest := by
  have hx : isHexadecimal (d.magnitudeText ++ rest) = false := by
    apply isHexadecimal_false
    intro c hc
    rw [List.getElem?_append] at hc
    split at hc
    · exact h.not_x (List.mem_of_getElem? hc)
    · rcases h.head with ⟨first, tail, hhead, _⟩
      have hpos : 0 < d.magnitudeText.length := by
        rw [hhead]
        exact Nat.zero_lt_succ _
      have hone : d.magnitudeText.length = 1 := by omega
      rw [hone] at hc
      have hend := hends c (by rw [List.head?_eq_getElem?]; exact hc)
      exact hend.right.right.right.right
  have hspecial : isSpecial (d.magnitudeText ++ rest) = false := by
    rcases h.head with ⟨first, tail, hhead, hfirst⟩
    rw [hhead]
    exact isSpecial_false hfirst _
  -- behind the exponent, behind the fraction, and behind the whole part
  have hexponent : scanExponent (exponentText d.exponent ++ rest) =
      (d.exponent, rest) := by
    unfold exponentText
    cases hexponent : d.exponent with
    | none =>
        exact scanExponent_none (fun c hc =>
          ⟨(hends c hc).right.right.left, (hends c hc).right.right.right.left⟩)
    | some e =>
        exact scanExponent_append (h.exponent e hexponent)
          (fun c hc => (hends c hc).left)
  have hbehind : forall c, (exponentText d.exponent ++ rest).head? = some c ->
      isDigit c = false ∧ c ≠ point := by
    intro c hc
    unfold exponentText at hc
    cases hexponent : d.exponent with
    | none =>
        rw [hexponent] at hc
        exact ⟨(hends c hc).left, (hends c hc).right.left⟩
    | some e =>
        rw [hexponent] at hc
        have hletter : e.letter = c := Option.some.inj hc
        rcases (h.exponent e hexponent).letter with hlower | hupper
        · rw [← hletter, hlower]
          decide
        · rw [← hletter, hupper]
          decide
  have hfraction : scanFraction (fractionText d.fraction ++
      (exponentText d.exponent ++ rest)) =
        (d.fraction, exponentText d.exponent ++ rest) :=
    scanFraction_append h.fraction hbehind
  have hwhole : forall c,
      (fractionText d.fraction ++
        (exponentText d.exponent ++ rest)).head? = some c ->
          isDigit c = false := by
    intro c hc
    unfold fractionText at hc
    cases hfraction : d.fraction with
    | none =>
        rw [hfraction] at hc
        exact (hbehind c hc).left
    | some digits =>
        rw [hfraction] at hc
        have hpoint : point = c := Option.some.inj hc
        rw [← hpoint]
        decide
  unfold scanMagnitude
  rw [hx, hspecial, if_neg Bool.noConfusion, if_neg Bool.noConfusion]
  unfold DecimalText.magnitudeText
  simp only [List.append_assoc]
  rw [takeWhile_run h.whole hwhole, dropWhile_run h.whole hwhole, hfraction]
  dsimp only
  rw [hexponent]
  exact if_neg h.nonempty

/-- A decimal number is read as it is written, up to where it ends. -/
theorem strtod_append (h : d.WellFormed) (hends : Ends rest) :
    strtod (d.text ++ rest) = .decimal d rest := by
  have hscan := scanMagnitude_append h hends
  unfold DecimalText.text
  cases hnegative : d.negative with
  | true =>
      rw [hnegative] at hscan
      show strtod (minus :: (d.magnitudeText ++ rest)) = _
      unfold strtod
      dsimp only
      rw [if_pos rfl]
      exact hscan
  | false =>
      rcases h.head with ⟨c, tail, hhead, hc⟩
      have hminus : c ≠ minus := by
        intro heq
        rw [heq] at hc
        exact absurd hc (by decide)
      rw [hnegative, hhead] at hscan
      show strtod (d.magnitudeText ++ rest) = _
      rw [hhead]
      exact (if_neg hminus).trans hscan

theorem scanMagnitude_decimal {negative : Bool}
    (h : scanMagnitude negative s = .decimal d rest) :
    d.WellFormed ∧ d.negative = negative ∧ s = d.magnitudeText ++ rest := by
  unfold scanMagnitude at h
  split at h
  · cases h
  · split at h
    · cases h
    · dsimp only at h
      split at h
      · cases h
      · rename_i hnonempty
        cases h
        have hwhole : forall c, c ∈ s.takeWhile isDigit -> isDigit c = true :=
          fun c hc => List.mem_takeWhile_imp hc
        rcases scanFraction_split (s.dropWhile isDigit) with
          ⟨hfraction, hbehind⟩
        rcases scanExponent_split
          (scanFraction (s.dropWhile isDigit)).2 with ⟨hexponent, hrest⟩
        refine ⟨⟨?_, hnonempty, hexponent⟩, rfl, ?_⟩
        · intro c hc
          rcases List.mem_append.mp hc with hc | hc
          · exact hwhole c hc
          · exact hfraction c hc
        · unfold DecimalText.magnitudeText
          dsimp only
          rw [List.append_assoc, List.append_assoc, ← hrest, ← hbehind,
            List.takeWhile_append_dropWhile]

/-- What is read as a decimal number is one, and stood in front. -/
theorem strtod_decimal (h : strtod s = .decimal d rest) :
    d.WellFormed ∧ s = d.text ++ rest := by
  unfold strtod at h
  split at h
  · cases h
  · split at h
    · rename_i c s hminus
      rcases scanMagnitude_decimal h with ⟨hd, hnegative, hs⟩
      refine ⟨hd, ?_⟩
      unfold DecimalText.text
      rw [hnegative, if_pos rfl, hminus, hs]
      rfl
    · rcases scanMagnitude_decimal h with ⟨hd, hnegative, hs⟩
      refine ⟨hd, ?_⟩
      unfold DecimalText.text
      rw [hnegative, if_neg Bool.noConfusion, hs]
      rfl

end Strtod

/-!
## Numbers that are read exactly
-/

theorem roundHalfEven_one (n : Nat) : roundHalfEven n 1 = n := by
  unfold roundHalfEven
  rw [Nat.mod_one, Nat.div_one, if_pos (by decide)]

/-- An integer of up to 53 bits is a double. -/
theorem integralPart_exact {n : Nat} (h : n < 2 ^ 53) :
    integralPart n 1 = some n := by
  unfold integralPart
  split
  · rename_i hzero
    have hn : n = 0 := by omega
    rw [hn]
    rfl
  · rename_i hpos
    have hne : n ≠ 0 := by omega
    have hbits : Nat.log2 (n / 1) <= 52 := by
      rw [Nat.div_one]
      exact Nat.le_of_lt_succ ((Nat.log2_lt hne).mpr h)
    dsimp only
    rw [if_pos hbits, roundHalfEven_one, Nat.mul_div_cancel]
    exact Nat.two_pow_pos _

/-- An integer of up to 53 bits that is written with digits only reads as
itself. -/
theorem DecimalText.integral_exact {digits : Bytes}
    (h : number digits < 2 ^ 53) (negative : Bool) :
    (⟨negative, digits, none, none⟩ : DecimalText).integral =
      some (if negative = true then -(number digits : Int)
        else number digits) := by
  have hdigits : (⟨negative, digits, none, none⟩ : DecimalText).digits =
      digits := List.append_nil digits
  unfold DecimalText.integral
  rw [hdigits]
  simp [integralPart_exact h]

end FloatText

end Stns
