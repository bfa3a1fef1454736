import Stns.Nss.HeaderLine

/-!
# The filter on received values

An identifier is compared with the last values received for the bounds of its
kind.  The shift is in the remembered values already, also in one that was
received as 0, and the identifier is compared as an {lit}`int`.
-/

namespace Stns

open Decimal MachineInt

/-- The identifier is outside the known bounds, in exact arithmetic; a bound
that was not received or is 0 is unknown. -/
def Refused (highest lowest : Option Nat) (idShift : Int) (id : UInt32) :
    Prop :=
  (exists h, highest = some h ∧ h ≠ 0 ∧ (id.toNat : Int) > h + idShift) ∨
    (exists l, lowest = some l ∧ l ≠ 0 ∧ (id.toNat : Int) < l + idShift)

/-- The shift leaves the filter what it is: an unknown bound is not taken for
the shift, or to no effect, and for an identifier that is negative as an
{lit}`int` both bounds count or neither does. -/
def ShiftKept (highest lowest : Option Nat) (idShift : Int) (id : UInt32) :
    Prop :=
  if id.toNat < 2 ^ 31 then
    ¬ (lowest = some 0 ∧ (id.toNat : Int) < idShift) ∧
      (highest = some 0 -> 0 < idShift -> idShift < id.toNat ->
        exists l, lowest = some l ∧ l ≠ 0 ∧ (id.toNat : Int) < l + idShift)
  else
    (exists h, highest = some h ∧ h ≠ 0) <->
      (exists l, lowest = some l ∧ 0 < l + idShift)

section Filter

variable {highest lowest : Option Nat} {idShift : Int}

theorem remembered_nonneg (hshift : 0 <= idShift) (value : Option Nat) :
    0 <= remembered idShift value := by
  cases value with
  | none => exact Int.le_refl 0
  | some v =>
      rw [remembered_some]
      omega

/-- Above the remembered highest value: above the highest identifier, or above
the shift if that is unknown. -/
theorem above_remembered_iff (hshift : 0 <= idShift) (id : Nat) :
    remembered idShift highest ≠ 0 ∧ remembered idShift highest < id <->
      (exists h, highest = some h ∧ h ≠ 0 ∧ (id : Int) > h + idShift) ∨
        (highest = some 0 ∧ 0 < idShift ∧ idShift < id) := by
  cases highest with
  | none => simp
  | some h =>
      rw [remembered_some]
      constructor
      · intro habove
        by_cases hzero : h = 0
        · refine .inr ⟨congrArg some hzero, ?_, ?_⟩ <;> omega
        · exact .inl ⟨h, rfl, hzero, by omega⟩
      · rintro (⟨value, hvalue, hne, habove⟩ | ⟨hvalue, hpos, habove⟩)
        · cases hvalue
          constructor <;> omega
        · cases hvalue
          constructor <;> omega

/-- Below the remembered lowest value: below the lowest identifier, or below
the shift if that is unknown. -/
theorem below_remembered_iff (id : Nat) :
    remembered idShift lowest ≠ 0 ∧ remembered idShift lowest > id <->
      (exists l, lowest = some l ∧ l ≠ 0 ∧ (id : Int) < l + idShift) ∨
        (lowest = some 0 ∧ (id : Int) < idShift) := by
  cases lowest with
  | none => simp
  | some l =>
      rw [remembered_some]
      constructor
      · intro hbelow
        by_cases hzero : l = 0
        · exact .inr ⟨congrArg some hzero, by omega⟩
        · exact .inl ⟨l, rfl, hzero, by omega⟩
      · rintro (⟨value, hvalue, hne, hbelow⟩ | ⟨hvalue, hbelow⟩)
        · cases hvalue
          constructor <;> omega
        · cases hvalue
          constructor <;> omega

/-- The filter on two remembered values. -/
def Outside (high low id : Int) : Prop :=
  (high ≠ 0 ∧ high < id) ∨ (low ≠ 0 ∧ low > id)

theorem outside_small_iff (hshift : 0 <= idShift) (id : UInt32)
    (hsmall : id.toNat < 2 ^ 31) :
    (Outside (remembered idShift highest) (remembered idShift lowest)
        id.toNat <-> Refused highest lowest idShift id) <->
      ShiftKept highest lowest idShift id := by
  unfold ShiftKept Outside Refused
  rw [if_pos hsmall, above_remembered_iff hshift, below_remembered_iff]
  constructor
  · intro hsame
    constructor
    · intro hlow
      rcases hsame.mp (.inr (.inr hlow)) with
        ⟨h, _, _, habove⟩ | ⟨l, hvalue, hne, _⟩
      · have hbelow := hlow.right
        omega
      · rw [hlow.left] at hvalue
        cases hvalue
        exact hne rfl
    · intro hhigh hpos habove
      rcases hsame.mp (.inl (.inr ⟨hhigh, hpos, habove⟩)) with
        ⟨h, hvalue, hne, _⟩ | hbelow
      · rw [hhigh] at hvalue
        cases hvalue
        exact absurd rfl hne
      · exact hbelow
  · intro hkept
    constructor
    · rintro ((habove | hhigh) | (hbelow | hlow))
      · exact .inl habove
      · exact .inr (hkept.right hhigh.left hhigh.right.left hhigh.right.right)
      · exact .inr hbelow
      · exact absurd hlow hkept.left
    · rintro (habove | hbelow)
      · exact .inl (.inl habove)
      · exact .inr (.inl hbelow)

/-- A negative {lit}`int` is below every known bound and above none. -/
theorem outside_large_iff (hshift : 0 <= idShift) (id : UInt32)
    (hlarge : ¬ id.toNat < 2 ^ 31)
    (hhigh : remembered idShift highest < 2 ^ 31)
    (hlow : remembered idShift lowest < 2 ^ 31) :
    (Outside (remembered idShift highest) (remembered idShift lowest)
        (id.toNat - 2 ^ 32) <-> Refused highest lowest idShift id) <->
      ShiftKept highest lowest idShift id := by
  have hid := id.toNat_lt
  unfold ShiftKept
  rw [if_neg hlarge]
  have houtside : Outside (remembered idShift highest)
      (remembered idShift lowest) (id.toNat - 2 ^ 32) <->
        exists l, lowest = some l ∧ 0 < l + idShift := by
    unfold Outside
    constructor
    · rintro (⟨_, habove⟩ | ⟨hne, _⟩)
      · have hnonneg := remembered_nonneg hshift highest
        omega
      · cases lowest with
        | none => exact absurd rfl hne
        | some l =>
            rw [remembered_some] at hne
            exact ⟨l, rfl, by omega⟩
    · rintro ⟨l, rfl, hpos⟩
      rw [remembered_some]
      exact .inr ⟨by omega, by omega⟩
  have hrefused : Refused highest lowest idShift id <->
      exists h, highest = some h ∧ h ≠ 0 := by
    unfold Refused
    constructor
    · rintro (⟨h, hvalue, hne, _⟩ | ⟨l, rfl, _, hbelow⟩)
      · exact ⟨h, hvalue, hne⟩
      · rw [remembered_some] at hlow
        omega
    · rintro ⟨h, rfl, hne⟩
      rw [remembered_some] at hhigh
      exact .inl ⟨h, rfl, hne, by omega⟩
  rw [houtside, hrefused]
  exact iff_comm

/-- With exact bounds a shift moves the identifiers and changes nothing
else. -/
theorem refused_shift_iff {id shifted : UInt32}
    (h : (shifted.toNat : Int) = id.toNat + idShift) :
    Refused highest lowest idShift shifted <-> Refused highest lowest 0 id := by
  unfold Refused
  rw [h]
  simp only [gt_iff_lt, add_lt_add_iff_right, add_zero]

theorem queryAvailable_eq_false {high low id : Int32} :
    (highestQueryAvailable high id && lowestQueryAvailable low id) = false <->
      Outside high.toInt low.toInt id.toInt := by
  have hzero : forall r : Int32, r ≠ 0 <-> r.toInt ≠ 0 := by
    intro r
    exact not_congr Int32.toInt_inj.symm
  rw [Bool.and_eq_false_iff, highestQueryAvailable_eq_false,
    lowestQueryAvailable_eq_false, hzero, hzero, Int32.lt_iff_toInt_lt,
    gt_iff_lt, Int32.lt_iff_toInt_lt]
  rfl

/-- The filter on remembered values decides exactly if the shift leaves it
what it is. -/
theorem filter_exact_iff (hshift : 0 <= idShift) {high low : Int32}
    (hhigh : high.toInt = remembered idShift highest)
    (hlow : low.toInt = remembered idShift lowest) (id : UInt32) :
    ((highestQueryAvailable high id.toInt32 &&
        lowestQueryAvailable low id.toInt32) = false <->
      Refused highest lowest idShift id) <->
        ShiftKept highest lowest idShift id := by
  have hhighlt := high.toInt_lt
  have hlowlt := low.toInt_lt
  rw [hhigh] at hhighlt
  rw [hlow] at hlowlt
  rw [queryAvailable_eq_false, hhigh, hlow]
  by_cases hsmall : id.toNat < 2 ^ 31
  · rw [toInt_toInt32_of_lt hsmall]
    exact outside_small_iff hshift id hsmall
  · rw [toInt_toInt32_of_le (Nat.le_of_not_lt hsmall)]
    exact outside_large_iff hshift id hsmall hhighlt hlowlt

end Filter

/-- The lines are received, and the lookup of a user identifier is refused if
and only if the bounds refuse it. -/
def UserFilterExact (c : StnsConf) (lines : List ResponseLine)
    (uid : UInt32) : Prop :=
  exists b, receiveLines c {} (lines.map ResponseLine.buffer) = some b ∧
    (userIdQueryAvailable b uid = false <->
      Refused (lastValue .highestUser lines) (lastValue .lowestUser lines)
        c.uidShift.toInt uid)

/-- The same for a group identifier. -/
def GroupFilterExact (c : StnsConf) (lines : List ResponseLine)
    (gid : UInt32) : Prop :=
  exists b, receiveLines c {} (lines.map ResponseLine.buffer) = some b ∧
    (groupIdQueryAvailable b gid = false <->
      Refused (lastValue .highestGroup lines) (lastValue .lowestGroup lines)
        c.gidShift.toInt gid)

/-- With shifts that are not negative, the filter is exact if and only if every
shifted value fits an {lit}`int` and the shift leaves the filter what it is. -/
theorem idFilter_exact_iff (c : StnsConf) (hu : 0 <= c.uidShift.toInt)
    (hg : 0 <= c.gidShift.toInt) (lines : List ResponseLine)
    (uid gid : UInt32) :
    (UserFilterExact c lines uid <->
      (forall line, line ∈ lines -> line.Fits c) ∧
        ShiftKept (lastValue .highestUser lines) (lastValue .lowestUser lines)
          c.uidShift.toInt uid) ∧
    (GroupFilterExact c lines gid <->
      (forall line, line ∈ lines -> line.Fits c) ∧
        ShiftKept (lastValue .highestGroup lines)
          (lastValue .lowestGroup lines) c.gidShift.toInt gid) := by
  have hshift : forall db : Database, 0 <= (db.idShift c).toInt := by
    intro db
    cases db with
    | passwd => exact hu
    | group => exact hg
    | spwd => exact hu
  by_cases hfits : forall line, line ∈ lines -> line.Fits c
  · have hreceived := receiveLines_eq_some hshift Machine.wrapping hfits {}
    have hget := get_receiveHeaders hshift Machine.wrapping hfits
    have huser := filter_exact_iff hu (hget .highestUser) (hget .lowestUser) uid
    have hgroup :=
      filter_exact_iff hg (hget .highestGroup) (hget .lowestGroup) gid
    unfold UserFilterExact GroupFilterExact
    rw [hreceived]
    simp only [Option.some_inj, exists_eq_left', and_iff_right hfits]
    exact ⟨huser, hgroup⟩
  · have hundefined :
        receiveLines c {} (lines.map ResponseLine.buffer) = none := by
      rw [← Option.not_isSome_iff_eq_none, receiveLines_isSome_iff hshift]
      exact hfits
    unfold UserFilterExact GroupFilterExact
    rw [hundefined]
    simp [hfits]

/-!
## Lines of two responses
-/

/-- A number behind a blank. -/
def HeaderNumber.ofDigits (digits : Bytes)
    (hdigits : digits.all isDigit = true) (hne : digits ≠ [])
    (hlt : number digits < 2 ^ 31) (hshort : digits.length <= 10) :
    HeaderNumber where
  before := [32]
  digits := digits
  after := []
  before_space c hc := by
    rw [List.mem_singleton.mp hc]
    decide
  digits_digit := List.all_eq_true.mp hdigits
  after_space c hc := absurd hc List.not_mem_nil
  digits_ne_nil := hne
  number_lt := hlt
  short := by
    rw [List.length_singleton, List.length_nil]
    omega

/-- The line that ends the headers. -/
def emptyLine : OtherLine where
  text := []
  nulFree := List.not_mem_nil
  named _ h := by cases h
  unbound _ _ h := List.append_ne_nil_of_right_ne_nil _ (List.cons_ne_nil _ _)
    h.symm

/-- A server whose highest user identifier is 20. -/
def highestTwenty : List ResponseLine :=
  [.id .highestUser (.ofDigits (ascii "20") (by decide) (by decide)
    (by decide) (by decide)), .other emptyLine]

/-- A server whose lowest user identifier is 0. -/
def lowestZero : List ResponseLine :=
  [.id .lowestUser (.ofDigits (ascii "0") (by decide) (by decide)
    (by decide) (by decide)), .other emptyLine]

theorem idFilter_exact_iff_highestTwenty :
    UserFilterExact { uidShift := 1000 } highestTwenty 1021 := by
  have hhighest : lastValue .highestUser highestTwenty = some 20 := by decide
  have hlowest : lastValue .lowestUser highestTwenty = none := by decide
  refine (idFilter_exact_iff { uidShift := 1000 } (by decide) (by decide)
    highestTwenty 1021 0).left.mpr ⟨by decide, ?_⟩
  rw [hhighest, hlowest]
  unfold ShiftKept
  rw [if_pos (by decide)]
  constructor
  · intro h
    cases h.left
  · intro h
    cases h

/-- With a shift of 1000 an unknown lowest identifier refuses 500. -/
theorem unknown_lowest_refuses :
    (receiveLines { uidShift := 1000 } {}
        (lowestZero.map ResponseLine.buffer)).map
          (fun b => userIdQueryAvailable b 500) = some false ∧
      ¬ Refused (lastValue .highestUser lowestZero)
        (lastValue .lowestUser lowestZero) 1000 500 ∧
      ¬ UserFilterExact { uidShift := 1000 } lowestZero 500 := by
  have hhighest : lastValue .highestUser lowestZero = none := by decide
  have hlowest : lastValue .lowestUser lowestZero = some 0 := by decide
  have hrefuses : (receiveLines { uidShift := 1000 } {}
      (lowestZero.map ResponseLine.buffer)).map
        (fun b => userIdQueryAvailable b 500) = some false := by decide
  have hadmitted : ¬ Refused (lastValue .highestUser lowestZero)
      (lastValue .lowestUser lowestZero) 1000 500 := by
    rw [hhighest, hlowest]
    rintro (⟨h, hvalue, _⟩ | ⟨l, hvalue, hne, _⟩)
    · cases hvalue
    · cases hvalue
      exact hne rfl
  refine ⟨hrefuses, hadmitted, ?_⟩
  rintro ⟨b, hreceived, hexact⟩
  rw [hreceived] at hrefuses
  exact hadmitted (hexact.mp (Option.some_inj.mp hrefuses))

end Stns
