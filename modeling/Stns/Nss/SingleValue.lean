import Stns.Foundation.Percent
import Stns.Nss.Lookup
import Stns.Nss.Session

/-!
# The public lookup functions

A lookup asks the server only if its key passes a filter.  A name must be well
formed; an identifier must lie between the highest and the lowest one that the
headers of earlier responses named.
-/

namespace Stns

/-!
## Names
-/

/-- {lit}`MAX_GROUPNAME_LENGTH` -/
def maxGroupnameLength : Nat := 32

/-- {lit}`isalpha` in the C locale. -/
def isAlpha (c : UInt8) : Bool :=
  Percent.inRange 65 90 c || Percent.inRange 97 122 c

/-- The shared body of the two name checks: a letter, then letters, digits,
dashes and underscores. -/
def isValidName (maxLength : Nat) (name : CString) : Bool :=
  let len := name.strnlen maxBufferSize
  if len = 0 ∨ len > maxLength then
    false
  else
    match name.chars.take len with
    | [] => false
    | first :: rest =>
        isAlpha first &&
          rest.all (fun c => Percent.isAlnum c || c == 45 || c == 95)

/-- {lit}`is_valid_username`; true where the code returns 0. -/
def isValidUsername : CString -> Bool :=
  isValidName maxUsernameLength

/-- {lit}`is_valid_groupname`; true where the code returns 0. -/
def isValidGroupname : CString -> Bool :=
  isValidName maxGroupnameLength

/-!
## Bounds of identifiers
-/

/-- The four bounds that the process remembers; 0 is an unknown one. -/
structure IdBounds where
  highestUserId : Int32 := 0
  lowestUserId : Int32 := 0
  highestGroupId : Int32 := 0
  lowestGroupId : Int32 := 0

/-- A header line of a response: the name before the colon, and the number that
{lit}`atoi` reads from the trimmed rest. -/
structure IdHeader where
  name : Bytes
  value : Int32

/-- {lit}`header_callback`, from the split line on. -/
def headerCallback (M : Machine) (c : StnsConf) (b : IdBounds)
    (header : IdHeader) : IdBounds :=
  if header.name = ascii "User-Highest-Id" then
    { b with highestUserId := M.intAdd header.value c.uidShift }
  else if header.name = ascii "User-Lowest-Id" then
    { b with lowestUserId := M.intAdd header.value c.uidShift }
  else if header.name = ascii "Group-Highest-Id" then
    { b with highestGroupId := M.intAdd header.value c.gidShift }
  else if header.name = ascii "Group-Lowest-Id" then
    { b with lowestGroupId := M.intAdd header.value c.gidShift }
  else
    b

/-- The headers of one response, one after the other. -/
def receiveHeaders (M : Machine) (c : StnsConf) (b : IdBounds)
    (headers : List IdHeader) : IdBounds :=
  headers.foldl (headerCallback M c) b

/-- {lit}`ID_QUERY_AVAILABLE` with {lit}`<`. -/
def highestQueryAvailable (r id : Int32) : Bool :=
  if r ≠ 0 ∧ r < id then false else true

/-- {lit}`ID_QUERY_AVAILABLE` with {lit}`>`. -/
def lowestQueryAvailable (r id : Int32) : Bool :=
  if r ≠ 0 ∧ r > id then false else true

def stnsUserHighestQueryAvailable (b : IdBounds) : Int32 -> Bool :=
  highestQueryAvailable b.highestUserId

def stnsUserLowestQueryAvailable (b : IdBounds) : Int32 -> Bool :=
  lowestQueryAvailable b.lowestUserId

def stnsGroupHighestQueryAvailable (b : IdBounds) : Int32 -> Bool :=
  highestQueryAvailable b.highestGroupId

def stnsGroupLowestQueryAvailable (b : IdBounds) : Int32 -> Bool :=
  lowestQueryAvailable b.lowestGroupId

/-- {lit}`USER_ID_QUERY_AVAILABLE`; the identifier becomes an {lit}`int`. -/
def userIdQueryAvailable (b : IdBounds) (uid : UInt32) : Bool :=
  stnsUserHighestQueryAvailable b uid.toInt32 &&
    stnsUserLowestQueryAvailable b uid.toInt32

/-- {lit}`GROUP_ID_QUERY_AVAILABLE`; the identifier becomes an {lit}`int`. -/
def groupIdQueryAvailable (b : IdBounds) (gid : UInt32) : Bool :=
  stnsGroupHighestQueryAvailable b gid.toInt32 &&
    stnsGroupLowestQueryAvailable b gid.toInt32

/-!
## Lookups
-/

/-- {lit}`STNS_GET_SINGLE_VALUE_METHOD`; {lit}`none` is a crash of the search
loop. -/
def stnsGetSingleValueMethod (M : Machine) (db : Database) (key : LookupKey)
    (queryAvailable : Bool) (f : Fetch) (p : Packing db.Record) :
    Option (Reply db.Record) :=
  match f.config with
  | none => some (p.reply .unavail)
  | some c =>
      if queryAvailable = false then some (p.reply .notFound)
      else if f.result ≠ CurlCode.ok then
        some (p.reply
          (if f.statusCode = stnsHttpNotfound then .notFound else .unavail))
      else lookup M c db key f.document p

/-- {lit}`_nss_stns_getpwnam_r` -/
def nssStnsGetpwnamR (M : Machine) (name : CString) :
    Fetch -> Packing Passwd -> Option (Reply Passwd) :=
  stnsGetSingleValueMethod M .passwd (.name name) (isValidUsername name)

/-- {lit}`_nss_stns_getgrnam_r` -/
def nssStnsGetgrnamR (M : Machine) (name : CString) :
    Fetch -> Packing Group -> Option (Reply Group) :=
  stnsGetSingleValueMethod M .group (.name name) (isValidGroupname name)

/-- {lit}`_nss_stns_getspnam_r` -/
def nssStnsGetspnamR (M : Machine) (name : CString) :
    Fetch -> Packing Spwd -> Option (Reply Spwd) :=
  stnsGetSingleValueMethod M .spwd (.name name) (isValidUsername name)

/-- {lit}`_nss_stns_getpwuid_r` -/
def nssStnsGetpwuidR (M : Machine) (b : IdBounds) (uid : UInt32) :
    Fetch -> Packing Passwd -> Option (Reply Passwd) :=
  stnsGetSingleValueMethod M .passwd (.id uid) (userIdQueryAvailable b uid)

/-- {lit}`_nss_stns_getgrgid_r` -/
def nssStnsGetgrgidR (M : Machine) (b : IdBounds) (gid : UInt32) :
    Fetch -> Packing Group -> Option (Reply Group) :=
  stnsGetSingleValueMethod M .group (.id gid) (groupIdQueryAvailable b gid)

/-- {lit}`_nss_stns_getspuid_r`, without a filter. -/
def nssStnsGetspuidR (M : Machine) (uid : UInt32) :
    Fetch -> Packing Spwd -> Option (Reply Spwd) :=
  stnsGetSingleValueMethod M .spwd (.id uid) true

/-!
## By database
-/

/-- The filter of a lookup by name. -/
def nameQueryAvailable : Database -> CString -> Bool
  | .passwd => isValidUsername
  | .group => isValidGroupname
  | .spwd => isValidUsername

/-- The filter of a lookup by identifier. -/
def idQueryAvailable (b : IdBounds) : Database -> UInt32 -> Bool
  | .passwd => userIdQueryAvailable b
  | .group => groupIdQueryAvailable b
  | .spwd => fun _ => true

def nssStnsGetByName (M : Machine) (name : CString) :
    (db : Database) -> Fetch -> Packing db.Record ->
      Option (Reply db.Record)
  | .passwd => nssStnsGetpwnamR M name
  | .group => nssStnsGetgrnamR M name
  | .spwd => nssStnsGetspnamR M name

def nssStnsGetById (M : Machine) (b : IdBounds) (id : UInt32) :
    (db : Database) -> Fetch -> Packing db.Record ->
      Option (Reply db.Record)
  | .passwd => nssStnsGetpwuidR M b id
  | .group => nssStnsGetgrgidR M b id
  | .spwd => nssStnsGetspuidR M id

theorem nssStnsGetById_eq (M : Machine) (b : IdBounds) (id : UInt32)
    (db : Database) (f : Fetch) (p : Packing db.Record) :
    nssStnsGetById M b id db f p =
      stnsGetSingleValueMethod M db (.id id) (idQueryAvailable b db id) f
        p := by
  cases db with
  | passwd => rfl
  | group => rfl
  | spwd => rfl

/-!
## Valid names
-/

/-- A letter, then letters, digits, dashes and underscores. -/
def WellFormedName (name : CString) : Prop :=
  exists first rest, name.chars = first :: rest ∧ isAlpha first = true ∧
    forall c, c ∈ rest -> Percent.isAlnum c = true ∨ c = 45 ∨ c = 95

section Names

variable {name : CString}

theorem isAlnum_of_isAlpha {c : UInt8} (h : isAlpha c = true) :
    Percent.isAlnum c = true := by
  unfold isAlpha at h
  unfold Percent.isAlnum
  rw [Bool.or_assoc, h, Bool.or_true]

theorem WellFormedName.plain (h : WellFormedName name) :
    forall c, c ∈ name.chars ->
      Percent.isAlnum c = true ∨ c = 45 ∨ c = 95 := by
  rcases h with ⟨first, rest, hchars, hfirst, hrest⟩
  intro c hc
  rw [hchars] at hc
  rcases List.mem_cons.mp hc with rfl | hmem
  · exact .inl (isAlnum_of_isAlpha hfirst)
  · exact hrest c hmem

theorem WellFormedName.ne_nil (h : WellFormedName name) :
    name.chars ≠ [] := by
  rcases h with ⟨first, rest, hchars, _⟩
  rw [hchars]
  exact List.cons_ne_nil first rest

theorem isValidName_of_lt {maxLength : Nat} (hmax : maxLength < maxBufferSize)
    (hlong : maxLength < name.length) : isValidName maxLength name = false := by
  have hlen : name.strnlen maxBufferSize > maxLength :=
    Nat.lt_min.mpr ⟨hlong, hmax⟩
  unfold isValidName
  exact if_pos (.inr hlen)

theorem isValidName_of_le {maxLength : Nat} (hmax : maxLength < maxBufferSize)
    (hshort : name.length <= maxLength) :
    isValidName maxLength name = true <-> WellFormedName name := by
  have hlen : name.strnlen maxBufferSize = name.chars.length :=
    Nat.min_eq_left (Nat.le_trans hshort (Nat.le_of_lt hmax))
  have hfit : ¬ name.chars.length > maxLength := Nat.not_lt.mpr hshort
  unfold isValidName
  dsimp only
  rw [hlen, List.take_length]
  cases hchars : name.chars with
  | nil =>
      rw [if_pos (.inl rfl)]
      exact iff_of_false Bool.false_ne_true (fun h => h.ne_nil hchars)
  | cons first rest =>
      rw [hchars] at hfit
      have hsome : (first :: rest).length ≠ 0 := Nat.succ_ne_zero _
      rw [if_neg (not_or.mpr ⟨hsome, hfit⟩)]
      dsimp only
      simp only [Bool.and_eq_true, List.all_eq_true, Bool.or_eq_true,
        beq_iff_eq]
      constructor
      · intro h
        exact ⟨first, rest, hchars, h.left,
          fun c hc => or_assoc.mp (h.right c hc)⟩
      · intro h
        rcases h with ⟨first', rest', hcons, hfirst, hrest⟩
        rw [hchars] at hcons
        cases hcons
        exact ⟨hfirst, fun c hc => or_assoc.mpr (hrest c hc)⟩

theorem isValidName_iff {maxLength : Nat} (hmax : maxLength < maxBufferSize) :
    isValidName maxLength name = true <->
      WellFormedName name ∧ name.length <= maxLength := by
  rcases Nat.lt_or_ge maxLength name.length with hlong | hshort
  · rw [isValidName_of_lt hmax hlong]
    exact iff_of_false Bool.false_ne_true
      (fun h => absurd h.right (Nat.not_le.mpr hlong))
  · rw [isValidName_of_le hmax hshort, and_iff_left hshort]

end Names

/-!
## The filter
-/

section Filter

variable {r id : Int32}

theorem refuses_iff (p : Prop) [Decidable p] :
    (if p then false else true) = false <-> p := by
  by_cases h : p
  · rw [if_pos h]
    exact iff_of_true rfl h
  · rw [if_neg h]
    exact iff_of_false Bool.noConfusion h

theorem highestQueryAvailable_eq_false :
    highestQueryAvailable r id = false <-> r ≠ 0 ∧ r < id :=
  refuses_iff _

theorem lowestQueryAvailable_eq_false :
    lowestQueryAvailable r id = false <-> r ≠ 0 ∧ r > id :=
  refuses_iff _

end Filter

end Stns
