import Stns.Foundation.Decimal
import Stns.Nss.SingleValue
import Stns.Request.Command

/-!
# Queries under a query wrapper

Every lookup and enumeration asks for a path that it prints itself.  With a
query wrapper the path becomes the argument of a command, which must pass a
filter of its own.
-/

namespace Stns

/-!
## The paths of the library
-/

/-- The resource of a database. -/
def Database.resource : Database -> CString
  | .passwd => literal "users"
  | .group => literal "groups"
  | .spwd => literal "users"

/-- The path of a lookup; an identifier is printed as an {lit}`int`, after the
shift is taken off. -/
def lookupPath (c : StnsConf) (db : Database) : LookupKey -> CString
  | .name key =>
      CString.snprintf maxbuf
        ((db.resource.append (literal "?name=")).append key)
  | .id key =>
      CString.snprintf maxbuf
        ((db.resource.append (literal "?id=")).append
          (CString.ofBytes (Decimal.formatInt
            (key - (db.idShift c).toUInt32).toInt32)))

/-- The path of an enumeration. -/
def listPath (db : Database) : CString :=
  db.resource

/-- The filter of commands takes every path that the library asks for with the
name and the identifiers, and the name itself. -/
structure AcceptsQueries (c : StnsConf) (name : CString)
    (uid gid : UInt32) : Prop where
  names : forall db, nameQueryAvailable db name = true ->
    commandArgument (lookupPath c db (.name name)) = true
  userIds : forall db, db ≠ .group ->
    commandArgument (lookupPath c db (.id uid)) = true
  groupIds : commandArgument (lookupPath c .group (.id gid)) = true
  lists : forall db, commandArgument (listPath db) = true
  chained : nameQueryAvailable .passwd name = true ->
    commandArgument name = true

/-!
## What the filter takes
-/

theorem commandArgument_iff {arg : CString} :
    commandArgument arg = true <->
      arg.chars ≠ [] ∧ forall c, c ∈ arg.chars -> commandChar c = true := by
  unfold commandArgument
  rw [Bool.and_eq_true, decide_eq_true_eq, List.all_eq_true]

/-- A path is taken if and only if what is printed behind the resource is. -/
theorem commandArgument_path {front : CString} {text : CString}
    (hfront : commandArgument front = true)
    (hfits : (front.append text).length < maxbuf) :
    commandArgument (CString.snprintf maxbuf (front.append text)) = true <->
      forall c, c ∈ text.chars -> commandChar c = true := by
  have hwhole : (CString.snprintf maxbuf (front.append text)).chars =
      front.chars ++ text.chars :=
    List.take_of_length_le (Nat.le_sub_one_of_lt hfits)
  rcases commandArgument_iff.mp hfront with ⟨hne, hchars⟩
  rw [commandArgument_iff, hwhole]
  constructor
  · intro h c hc
    exact h.right c (List.mem_append_right _ hc)
  · intro h
    refine ⟨fun hnil => hne (List.append_eq_nil_iff.mp hnil).left, ?_⟩
    intro c hc
    rcases List.mem_append.mp hc with hleft | hright
    · exact hchars c hleft
    · exact h c hright

section Keys

variable {c : StnsConf} {name : CString}

/-- Of the characters of a name, only the dash is not taken. -/
theorem commandChar_name_iff (h : WellFormedName name) :
    (forall c, c ∈ name.chars -> commandChar c = true) <->
      45 ∉ name.chars := by
  constructor
  · intro hall hmem
    exact absurd (hall 45 hmem) (by decide)
  · intro hdash c hc
    unfold commandChar
    rcases h.plain c hc with halnum | hdash' | hunderscore
    · rw [halnum]
      rfl
    · rw [hdash'] at hc
      exact absurd hc hdash
    · rw [hunderscore]
      rfl

theorem wellFormed_of_available {db : Database}
    (h : nameQueryAvailable db name = true) :
    WellFormedName name ∧ name.length <= 32 := by
  cases db with
  | passwd => exact (isValidName_iff (by decide)).mp h
  | group => exact (isValidName_iff (by decide)).mp h
  | spwd => exact (isValidName_iff (by decide)).mp h

theorem nameFront (db : Database) :
    commandArgument (db.resource.append (literal "?name=")) = true ∧
      (db.resource.append (literal "?name=")).length <= 12 := by
  cases db <;> decide

theorem idFront (db : Database) :
    commandArgument (db.resource.append (literal "?id=")) = true ∧
      (db.resource.append (literal "?id=")).length <= 12 := by
  cases db <;> decide

theorem accepts_name_iff (db : Database)
    (h : nameQueryAvailable db name = true) :
    commandArgument (lookupPath c db (.name name)) = true <->
      45 ∉ name.chars := by
  rcases wellFormed_of_available h with ⟨hformed, hlength⟩
  rcases nameFront db with ⟨hfront, hshort⟩
  have hfits : ((db.resource.append (literal "?name=")).append name).length <
      maxbuf := by
    show ((db.resource.append (literal "?name=")).chars ++
      name.chars).length < _
    have hfront' : (db.resource.append (literal "?name=")).chars.length <= 12 :=
      hshort
    have hname : name.chars.length <= 32 := hlength
    rw [List.length_append]
    unfold maxbuf
    omega
  unfold lookupPath
  rw [commandArgument_path hfront hfits, commandChar_name_iff hformed]

theorem toInt32_nonneg_iff (i : UInt32) :
    0 <= i.toInt32.toInt <-> i.toNat < 2 ^ 31 := by
  have hlt := i.toNat_lt
  rcases Nat.lt_or_ge i.toNat (2 ^ 31) with hsmall | hlarge
  · rw [MachineInt.toInt_toInt32_of_lt hsmall]
    omega
  · rw [MachineInt.toInt_toInt32_of_le hlarge]
    omega

/-- The characters of a printed number are taken if and only if it has no
sign. -/
theorem commandChar_formatInt_iff (i : Int32) :
    (forall c, c ∈ Decimal.formatInt i -> commandChar c = true) <->
      0 <= i.toInt := by
  constructor
  · intro hall
    by_contra hneg
    rw [Decimal.formatInt_of_neg (Int.lt_of_not_ge hneg)] at hall
    exact absurd (hall Decimal.minus List.mem_cons_self) (by decide)
  · intro h c hc
    rw [Decimal.formatInt_of_nonneg h] at hc
    have hdigit := Decimal.isDigit_of_mem_formatNat hc
    unfold Decimal.isDigit at hdigit
    unfold commandChar Percent.isAlnum
    rw [hdigit]
    rfl

/-- A lookup by identifier is taken if and only if the identifier, less the
shift, is one of the lower half. -/
theorem accepts_id_iff (db : Database) (id : UInt32) :
    commandArgument (lookupPath c db (.id id)) = true <->
      (id - (db.idShift c).toUInt32).toNat < 2 ^ 31 := by
  rcases idFront db with ⟨hfront, hshort⟩
  unfold lookupPath
  dsimp only
  generalize id - (db.idShift c).toUInt32 = shifted
  have htext := CString.ofBytes_of_nulFree
    (Decimal.nulFree_formatInt shifted.toInt32)
  have hlength := Decimal.formatInt_length shifted.toInt32
  have hfits : ((db.resource.append (literal "?id=")).append
      (CString.ofBytes (Decimal.formatInt shifted.toInt32))).length <
        maxbuf := by
    show ((db.resource.append (literal "?id=")).chars ++
      (CString.ofBytes (Decimal.formatInt shifted.toInt32)).chars).length < _
    have hfront' : (db.resource.append (literal "?id=")).chars.length <= 12 :=
      hshort
    rw [htext, List.length_append]
    unfold maxbuf
    omega
  rw [commandArgument_path hfront hfits, htext, commandChar_formatInt_iff,
    toInt32_nonneg_iff]

end Keys

/-- The filter takes all queries of a name and two identifiers exactly when the
name, if it is a valid one, has no dash, and neither identifier is printed as a
negative number. -/
theorem acceptsQueries_iff (c : StnsConf) (name : CString)
    (uid gid : UInt32) :
    AcceptsQueries c name uid gid <->
      ((isValidUsername name = true ∨ isValidGroupname name = true) ->
          45 ∉ name.chars) ∧
        (uid - c.uidShift.toUInt32).toNat < 2 ^ 31 ∧
        (gid - c.gidShift.toUInt32).toNat < 2 ^ 31 := by
  constructor
  · intro h
    refine ⟨?_, ?_, ?_⟩
    · intro hvalid
      rcases hvalid with huser | hgroup
      · exact (accepts_name_iff .passwd huser).mp
          (h.names .passwd huser)
      · exact (accepts_name_iff .group hgroup).mp
          (h.names .group hgroup)
    · exact (accepts_id_iff .passwd uid).mp (h.userIds .passwd (by decide))
    · exact (accepts_id_iff .group gid).mp h.groupIds
  · intro h
    rcases h with ⟨hname, huid, hgid⟩
    constructor
    · intro db havailable
      apply (accepts_name_iff db havailable).mpr
      apply hname
      cases db with
      | passwd => exact .inl havailable
      | group => exact .inr havailable
      | spwd => exact .inl havailable
    · intro db hdb
      apply (accepts_id_iff db uid).mpr
      cases db with
      | passwd => exact huid
      | group => exact absurd rfl hdb
      | spwd => exact huid
    · exact (accepts_id_iff .group gid).mpr hgid
    · intro db
      cases db <;> decide
    · intro havailable
      rcases wellFormed_of_available havailable with ⟨hformed, _⟩
      exact commandArgument_iff.mpr ⟨hformed.ne_nil,
        (commandChar_name_iff hformed).mpr (hname (.inl havailable))⟩

/-- A name with a dash and an identifier below the shift are refused. -/
theorem refused_queries :
    isValidUsername (literal "a-b") = true ∧
      commandArgument (lookupPath {} .passwd (.name (literal "a-b"))) =
        false ∧
      commandArgument (lookupPath { uidShift := 1000 } .passwd (.id 999)) =
        false ∧
      ¬ AcceptsQueries {} (literal "a-b") 1000 1000 ∧
      ¬ AcceptsQueries { uidShift := 1000 } (literal "ab") 999 1000 := by
  refine ⟨by decide, by decide, by decide, ?_, ?_⟩
  · intro h
    exact absurd (h.names .passwd (by decide)) (by decide)
  · intro h
    exact absurd (h.userIds .passwd (by decide)) (by decide)

end Stns
