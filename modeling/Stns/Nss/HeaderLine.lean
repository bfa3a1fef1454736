import Stns.Foundation.Tokens
import Stns.Nss.IdRange

/-!
# Header lines

The header callback gets the lines of a response as text.  It cuts a line at
the first colon and, behind the name of a bound, reads the number up to a dot.
The shift is added to the number in {lit}`int` arithmetic, and the sum is what
later identifiers are compared with.
-/

namespace Stns

open Decimal Tokens MachineInt

/-!
## The callback
-/

def colon : UInt8 := 58

def dot : UInt8 := 46

def crlf : Bytes := [13, 10]

/-- {lit}`trim` -/
def trim (text : Bytes) : Bytes :=
  strip (text.take maxBufferSize)

/-- A sum of type {lit}`int`; {lit}`none` where C leaves it undefined. -/
def addInt (a b : Int32) : Option Int32 :=
  if -2 ^ 31 <= a.toInt + b.toInt ∧ a.toInt + b.toInt < 2 ^ 31 then
    some (a + b)
  else
    none

/-- {lit}`SET_TRIM_ID`, on the text behind the colon; {lit}`none` where there
is no token to trim. -/
def setTrimId (rest : Bytes) (idShift : Int32) (set : Int32 -> IdBounds) :
    Option IdBounds :=
  match strtok dot rest with
  | none => none
  | some (tp, _) => (addInt (atoi (trim tp)) idShift).map set

/-- {lit}`header_callback` on the text of a line; {lit}`none` is undefined
behaviour. -/
def headerCallbackLine (c : StnsConf) (b : IdBounds) (buffer : CString) :
    Option IdBounds :=
  match strtok colon buffer.chars with
  | none => none
  | some (tp, rest) =>
      if tp = ascii "User-Highest-Id" then
        setTrimId rest c.uidShift (fun id => { b with highestUserId := id })
      else if tp = ascii "User-Lowest-Id" then
        setTrimId rest c.uidShift (fun id => { b with lowestUserId := id })
      else if tp = ascii "Group-Highest-Id" then
        setTrimId rest c.gidShift (fun id => { b with highestGroupId := id })
      else if tp = ascii "Group-Lowest-Id" then
        setTrimId rest c.gidShift (fun id => { b with lowestGroupId := id })
      else
        some b

/-- The callback on one line after the other. -/
def receiveLines (c : StnsConf) (b : IdBounds) (buffers : List CString) :
    Option IdBounds :=
  buffers.foldlM (headerCallbackLine c) b

/-!
## Lines of a response
-/

/-- A number from 0 to 2147483647 between white space.  The line that it is on
is no longer than the 100 KiB that curl passes on. -/
structure HeaderNumber where
  before : Bytes
  digits : Bytes
  after : Bytes
  before_space : forall c, c ∈ before -> isSpace c = true
  digits_digit : forall c, c ∈ digits -> isDigit c = true
  after_space : forall c, c ∈ after -> isSpace c = true
  digits_ne_nil : digits ≠ []
  number_lt : number digits < 2 ^ 31
  short : before.length + digits.length + after.length <= 100 * 1024

/-- A line that is not for one of the bounds: the status line, another header,
or the empty line at the end. -/
structure OtherLine where
  text : Bytes
  nulFree : 0 ∉ text
  named : forall rest, text ≠ colon :: rest
  unbound : forall (bound : IdBound) (rest : Bytes),
    text ≠ bound.header ++ colon :: rest

inductive ResponseLine where
  | id (bound : IdBound) (value : HeaderNumber)
  | other (line : OtherLine)

namespace HeaderNumber

def text (value : HeaderNumber) : Bytes :=
  value.before ++ value.digits ++ value.after

theorem mem_text {value : HeaderNumber} {c : UInt8} (h : c ∈ value.text) :
    isSpace c = true ∨ isDigit c = true := by
  unfold text at h
  rw [List.mem_append, List.mem_append] at h
  rcases h with (hbefore | hdigits) | hafter
  · exact .inl (value.before_space c hbefore)
  · exact .inr (value.digits_digit c hdigits)
  · exact .inl (value.after_space c hafter)

theorem not_mem_text (value : HeaderNumber) {c : UInt8}
    (hspace : isSpace c = false) (hdigit : isDigit c = false) :
    c ∉ value.text := by
  intro hmem
  rcases mem_text hmem with h | h
  · rw [hspace] at h
    cases h
  · rw [hdigit] at h
    cases h

end HeaderNumber

namespace IdBound

/-- Remember a value. -/
def set (b : IdBounds) : IdBound -> Int32 -> IdBounds
  | highestUser, id => { b with highestUserId := id }
  | lowestUser, id => { b with lowestUserId := id }
  | highestGroup, id => { b with highestGroupId := id }
  | lowestGroup, id => { b with lowestGroupId := id }

theorem header_ne_nil (bound : IdBound) : bound.header ≠ [] := by
  cases bound <;> decide

theorem nulFree_header (bound : IdBound) : 0 ∉ bound.header := by
  cases bound <;> decide

theorem colon_not_mem_header (bound : IdBound) : colon ∉ bound.header := by
  cases bound <;> decide

end IdBound

namespace ResponseLine

def text : ResponseLine -> Bytes
  | id bound value => bound.header ++ colon :: value.text
  | other line => line.text

theorem nulFree (line : ResponseLine) : 0 ∉ line.text ++ crlf := by
  have hend : (0 : UInt8) ∉ crlf := by decide
  rw [List.mem_append, not_or]
  refine ⟨?_, hend⟩
  cases line with
  | id bound value =>
      unfold text
      rw [List.mem_append, not_or, List.mem_cons, not_or]
      exact ⟨bound.nulFree_header, by decide,
        value.not_mem_text (by decide) (by decide)⟩
  | other line => exact line.nulFree

/-- The line as the callback gets it. -/
def buffer (line : ResponseLine) : CString :=
  ⟨line.text ++ crlf, line.nulFree⟩

/-- The value that a line has for a bound. -/
def valueFor (bound : IdBound) : ResponseLine -> Option Nat
  | id named value => if named = bound then some (number value.digits) else none
  | other _ => none

theorem valueFor_id {named bound : IdBound} {value : HeaderNumber}
    {v : Nat} : (id named value).valueFor bound = some v <->
      named = bound ∧ number value.digits = v := by
  show (if named = bound then some (number value.digits) else none) =
    some v <-> _
  rw [Option.ite_none_right_eq_some, Option.some_inj]

/-- The name before the colon and the number behind it. -/
def header : ResponseLine -> IdHeader
  | id bound value => ⟨bound.header, Int32.ofNat (number value.digits)⟩
  | other line =>
      ⟨(line.text ++ crlf).takeWhile (fun c => c != colon), 0⟩

/-- The value with the shift is an {lit}`int`. -/
def Fits (c : StnsConf) : ResponseLine -> Prop
  | id bound value =>
      (number value.digits : Int) + (bound.database.idShift c).toInt < 2 ^ 31
  | other _ => True

instance (c : StnsConf) : (line : ResponseLine) -> Decidable (line.Fits c)
  | id bound value =>
      inferInstanceAs (Decidable ((number value.digits : Int) +
        (bound.database.idShift c).toInt < 2 ^ 31))
  | other _ => .isTrue trivial

end ResponseLine

/-!
## One line
-/

section Line

variable {c : StnsConf} {b : IdBounds}

theorem strtok_boundLine (bound : IdBound) (value : HeaderNumber) :
    strtok colon (ResponseLine.id bound value).buffer.chars =
      some (bound.header, value.text ++ crlf) := by
  show strtok colon (bound.header ++ colon :: value.text ++ crlf) = _
  rw [List.append_assoc, List.cons_append]
  exact strtok_before bound.header_ne_nil bound.colon_not_mem_header _

theorem strtok_number (value : HeaderNumber) :
    strtok dot (value.text ++ crlf) = some (value.text ++ crlf, []) := by
  have hend : dot ∉ crlf := by decide
  apply strtok_whole
  · exact List.append_ne_nil_of_right_ne_nil _ (List.cons_ne_nil _ _)
  · rw [List.mem_append, not_or]
    exact ⟨value.not_mem_text (by decide) (by decide), hend⟩

theorem trim_number (value : HeaderNumber) :
    trim (value.text ++ crlf) = value.digits := by
  have hshort := value.short
  have htext : value.text ++ crlf =
      value.before ++ value.digits ++ (value.after ++ crlf) :=
    List.append_assoc _ _ _
  have hfits : (value.before ++ value.digits ++
      (value.after ++ crlf)).length <= maxBufferSize := by
    have hend : crlf.length = 2 := rfl
    rw [List.length_append, List.length_append, List.length_append, hend]
    unfold maxBufferSize
    omega
  have hafter : forall c, c ∈ value.after ++ crlf -> isSpace c = true := by
    intro c hc
    rcases List.mem_append.mp hc with hspace | hend
    · exact value.after_space c hspace
    · have hcrlf : crlf.all isSpace = true := by decide
      exact List.all_eq_true.mp hcrlf c hend
  unfold trim
  rw [htext, List.take_of_length_le hfits]
  exact strip_digits value.before_space value.digits_digit hafter
    value.digits_ne_nil

/-- The number of a line is read, and shifted if the sum fits. -/
theorem setTrimId_number (value : HeaderNumber) (idShift : Int32)
    (set : Int32 -> IdBounds) :
    setTrimId (value.text ++ crlf) idShift set =
      (addInt (Int32.ofNat (number value.digits)) idShift).map set := by
  have hvalue := value.number_lt
  have hread : atoi value.digits = Int32.ofNat (number value.digits) := by
    apply Int32.toInt_inj.mp
    rw [atoi_digits value.digits_ne_nil value.digits_digit hvalue,
      Int32.toInt_ofNat_of_lt hvalue]
  unfold setTrimId
  rw [strtok_number]
  dsimp only
  rw [trim_number, hread]

theorem otherLine_cons (line : OtherLine) :
    exists first rest, line.text ++ crlf = first :: rest ∧ first ≠ colon := by
  have hnamed := line.named
  cases htext : line.text with
  | nil => exact ⟨13, [10], rfl, by decide⟩
  | cons first rest =>
      refine ⟨first, rest ++ crlf, rfl, ?_⟩
      intro hcolon
      rw [hcolon] at htext
      exact hnamed rest htext

theorem strtok_otherLine (line : OtherLine) :
    exists rest, strtok colon (ResponseLine.other line).buffer.chars =
      some ((ResponseLine.other line).header.name, rest) := by
  rcases otherLine_cons line with ⟨first, rest, htext, hfirst⟩
  refine ⟨((first :: rest).dropWhile (fun c => c != colon)).tail, ?_⟩
  show strtok colon (line.text ++ crlf) =
    some ((line.text ++ crlf).takeWhile (fun c => c != colon), _)
  rw [htext]
  exact strtok_cons hfirst rest

theorem otherLine_name (line : OtherLine) (bound : IdBound) :
    (ResponseLine.other line).header.name ≠ bound.header := by
  intro hname
  have htoken : (line.text ++ crlf).takeWhile (fun c => c != colon) =
      bound.header := hname
  by_cases hcolon : colon ∈ line.text
  · rcases List.eq_append_cons_of_mem hcolon with ⟨name, rest, htext, hfree⟩
    rw [htext, List.append_assoc, List.cons_append,
      List.takeWhile_append_of_pos (all_ne_delimiter hfree),
      List.takeWhile_cons_of_neg (by simp), List.append_nil] at htoken
    rw [htoken] at htext
    exact line.unbound bound rest htext
  · have hfree : colon ∉ line.text ++ crlf := by
      rw [List.mem_append, not_or]
      exact ⟨hcolon, by decide⟩
    rw [List.takeWhile_eq_self_iff.mpr (all_ne_delimiter hfree)] at htoken
    have hbreak : (10 : UInt8) ∈ bound.header := by
      rw [← htoken]
      exact List.mem_append_right _ (by decide)
    cases bound <;> exact absurd hbreak (by decide)

theorem addInt_of_lt {value : Nat} {idShift : Int32} (hvalue : value < 2 ^ 31)
    (hshift : 0 <= idShift.toInt) :
    addInt (Int32.ofNat value) idShift =
      if (value : Int) + idShift.toInt < 2 ^ 31 then
        some (Int32.ofNat value + idShift)
      else none := by
  have hlow : -2 ^ 31 <= (value : Int) + idShift.toInt := by omega
  unfold addInt
  rw [Int32.toInt_ofNat_of_lt hvalue]
  simp only [hlow, true_and]

theorem headerCallbackLine_id (bound : IdBound) (value : HeaderNumber) :
    headerCallbackLine c b (ResponseLine.id bound value).buffer =
      (addInt (Int32.ofNat (number value.digits))
        (bound.database.idShift c)).map (bound.set b) := by
  unfold headerCallbackLine
  rw [strtok_boundLine]
  dsimp only
  cases bound with
  | highestUser => exact setTrimId_number value c.uidShift _
  | lowestUser => exact setTrimId_number value c.uidShift _
  | highestGroup => exact setTrimId_number value c.gidShift _
  | lowestGroup => exact setTrimId_number value c.gidShift _

theorem headerCallbackLine_other (line : OtherLine) :
    headerCallbackLine c b (ResponseLine.other line).buffer = some b := by
  rcases strtok_otherLine line with ⟨rest, hstrtok⟩
  have hname := otherLine_name line
  have hhighestUser := hname .highestUser
  have hlowestUser := hname .lowestUser
  have hhighestGroup := hname .highestGroup
  have hlowestGroup := hname .lowestGroup
  unfold IdBound.header at hhighestUser hlowestUser hhighestGroup hlowestGroup
  unfold headerCallbackLine
  rw [hstrtok]
  dsimp only
  rw [if_neg hhighestUser, if_neg hlowestUser, if_neg hhighestGroup,
    if_neg hlowestGroup]

/-- On any machine a line whose shifted value fits does what its name and
number do. -/
theorem headerCallbackLine_fits (M : Machine)
    (hshift : forall db : Database, 0 <= (db.idShift c).toInt)
    {line : ResponseLine} (h : line.Fits c) :
    headerCallbackLine c b line.buffer =
      some (headerCallback M c b line.header) := by
  cases line with
  | id bound value =>
      have hfits : (number value.digits : Int) +
          (bound.database.idShift c).toInt < 2 ^ 31 := h
      have hvalue := value.number_lt
      have hlow := hshift bound.database
      have hsum : M.intAdd (Int32.ofNat (number value.digits))
          (bound.database.idShift c) =
            Int32.ofNat (number value.digits) + bound.database.idShift c := by
        have hreadValue := Int32.toInt_ofNat_of_lt hvalue
        apply Int32.toInt_inj.mp
        rw [M.intAdd_exact _ _ (by omega) (by omega)]
        exact (Machine.wrapping.intAdd_exact _ _ (by omega) (by omega)).symm
      rw [headerCallbackLine_id, addInt_of_lt hvalue hlow, if_pos hfits,
        ← hsum]
      cases bound <;> rfl
  | other line =>
      rw [headerCallbackLine_other, headerCallback_other (otherLine_name line)]

theorem headerCallbackLine_not_fits
    (hshift : forall db : Database, 0 <= (db.idShift c).toInt)
    {line : ResponseLine} (h : ¬ line.Fits c) :
    headerCallbackLine c b line.buffer = none := by
  cases line with
  | id bound value =>
      have hvalue := value.number_lt
      have hlow := hshift bound.database
      have hlarge : ¬ (number value.digits : Int) +
          (bound.database.idShift c).toInt < 2 ^ 31 := h
      rw [headerCallbackLine_id, addInt_of_lt hvalue hlow, if_neg hlarge]
      rfl
  | other line => exact absurd trivial h

end Line

/-!
## All lines of a process
-/

/-- The last value received for a bound. -/
def lastValue (bound : IdBound) (lines : List ResponseLine) : Option Nat :=
  (lines.filterMap (fun line => line.valueFor bound)).getLast?

/-- What is remembered of the last value. -/
def remembered (idShift : Int) : Option Nat -> Int
  | none => 0
  | some value => value + idShift

@[simp] theorem remembered_none (idShift : Int) :
    remembered idShift none = 0 := rfl

@[simp] theorem remembered_some (idShift : Int) (value : Nat) :
    remembered idShift (some value) = value + idShift := rfl

section Lines

variable {c : StnsConf} {lines : List ResponseLine}

theorem lastValue_concat (bound : IdBound) (lines : List ResponseLine)
    (line : ResponseLine) :
    lastValue bound (lines ++ [line]) =
      (line.valueFor bound).or (lastValue bound lines) := by
  unfold lastValue
  rw [List.filterMap_append, List.getLast?_append]
  cases hvalue : line.valueFor bound with
  | none => rw [List.filterMap_cons_none hvalue]; rfl
  | some v => rw [List.filterMap_cons_some hvalue]; rfl

theorem receiveLines_eq_some
    (hshift : forall db : Database, 0 <= (db.idShift c).toInt)
    (M : Machine) (h : forall line, line ∈ lines -> line.Fits c)
    (b : IdBounds) :
    receiveLines c b (lines.map ResponseLine.buffer) =
      some (receiveHeaders M c b (lines.map ResponseLine.header)) := by
  induction lines generalizing b with
  | nil => rfl
  | cons line lines ih =>
      have hline := h line List.mem_cons_self
      show (headerCallbackLine c b line.buffer).bind
        (fun b => receiveLines c b (lines.map ResponseLine.buffer)) = _
      rw [headerCallbackLine_fits M hshift hline]
      exact ih (fun line hmem => h line (List.mem_cons_of_mem _ hmem)) _

/-- The run is defined if and only if every shifted value fits. -/
theorem receiveLines_isSome_iff
    (hshift : forall db : Database, 0 <= (db.idShift c).toInt)
    (b : IdBounds) :
    (receiveLines c b (lines.map ResponseLine.buffer)).isSome = true <->
      forall line, line ∈ lines -> line.Fits c := by
  constructor
  · intro h
    induction lines generalizing b with
    | nil =>
        intro line hmem
        cases hmem
    | cons first rest ih =>
        have hbind : ((headerCallbackLine c b first.buffer).bind
          (fun b => receiveLines c b (rest.map ResponseLine.buffer))).isSome =
            true := h
        by_cases hfirst : first.Fits c
        · rw [headerCallbackLine_fits Machine.wrapping hshift hfirst] at hbind
          intro line hmem
          rcases List.mem_cons.mp hmem with rfl | hrest
          · exact hfirst
          · exact ih _ hbind line hrest
        · rw [headerCallbackLine_not_fits hshift hfirst] at hbind
          cases hbind
  · intro h
    rw [receiveLines_eq_some hshift Machine.wrapping h]
    rfl

theorem header_of_valueFor {line : ResponseLine} {bound : IdBound} {v : Nat}
    (hfits : line.Fits c) (h : line.valueFor bound = some v) :
    line.header = ⟨bound.header, Int32.ofNat v⟩ ∧ v < 2 ^ 31 ∧
      (v : Int) + (bound.database.idShift c).toInt < 2 ^ 31 := by
  cases line with
  | id named value =>
      rcases ResponseLine.valueFor_id.mp h with ⟨rfl, rfl⟩
      exact ⟨rfl, value.number_lt, hfits⟩
  | other line => cases h

theorem name_of_valueFor_none {line : ResponseLine} {bound : IdBound}
    (h : line.valueFor bound = none) : line.header.name ≠ bound.header := by
  cases line with
  | id named value =>
      intro hname
      rw [ResponseLine.valueFor_id.mpr
        ⟨IdBound.header_injective hname, rfl⟩] at h
      cases h
  | other line => exact otherLine_name line bound

/-- Each bound remembers its last value. -/
theorem get_receiveHeaders
    (hshift : forall db : Database, 0 <= (db.idShift c).toInt)
    (M : Machine) (h : forall line, line ∈ lines -> line.Fits c)
    (bound : IdBound) :
    (bound.get (receiveHeaders M c {}
      (lines.map ResponseLine.header))).toInt =
        remembered (bound.database.idShift c).toInt (lastValue bound lines) := by
  induction lines using List.reverseRecOn with
  | nil => cases bound <;> rfl
  | append_singleton lines line ih =>
      have hline := h line (List.mem_append_right _ (List.mem_singleton_self _))
      have hbefore := ih (fun line hmem => h line (List.mem_append_left _ hmem))
      unfold receiveHeaders
      rw [List.map_append, List.foldl_append]
      show (bound.get (headerCallback M c _ line.header)).toInt = _
      rw [headerCallback_get, lastValue_concat]
      cases hvalue : line.valueFor bound with
      | none =>
          rw [if_neg (name_of_valueFor_none hvalue), Option.none_or]
          exact hbefore
      | some v =>
          have hlow := hshift bound.database
          rcases header_of_valueFor hline hvalue with ⟨hheader, hv, hfits⟩
          have hread := Int32.toInt_ofNat_of_lt hv
          rw [hheader, if_pos rfl, Option.some_or]
          dsimp only
          rw [M.intAdd_exact _ _ (by omega) (by omega), hread]
          rfl

end Lines

end Stns
