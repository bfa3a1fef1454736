import Stns.Nss.Members

/-!
# The layout of a packed record

For a well-formed element all three builders store one row of runs from the
start of the buffer on: the strings, and for a group the pointer area and the
members behind them.  The row fits exactly when the room is at least its
length.
-/

namespace Stns

open Memory MachineInt

/-- A value, or the default if it is missing or empty, cut to the fixed local
buffer. -/
def orDefault (value : Option CString) (default : CString) : CString :=
  match value with
  | some v => if v.chars = [] then default.take (maxbuf - 1) else v.take (maxbuf - 1)
  | none => default.take (maxbuf - 1)

namespace Database

/-- The strings that a record should hold, in the order of its fields. -/
def intendedStrings (name : CString) (entry : Option JsonObject) :
    Database -> List CString
  | passwd =>
      [name, literal "x",
        (jsonObjectGetString entry Key.gecos).getD CString.empty,
        orDefault (jsonObjectGetString entry Key.directory)
          ((literal "/home/").append name),
        orDefault (jsonObjectGetString entry Key.shell) (literal "/bin/bash")]
  | group => [name, literal "x"]
  | spwd =>
      [name, orDefault (jsonObjectGetString entry Key.password) (literal "!!")]

/-- The string fields of a record. -/
def stringFields : (db : Database) -> db.Record -> List Nat
  | passwd, rbuf =>
      [rbuf.pwName, rbuf.pwPasswd, rbuf.pwGecos, rbuf.pwDir, rbuf.pwShell]
  | group, rbuf => [rbuf.grName, rbuf.grPasswd]
  | spwd, rbuf => [rbuf.spNamp, rbuf.spPwdp]

end Database

/-- The room of a row of strings with their terminators. -/
def stringsRoom : List CString -> Nat
  | [] => 0
  | s :: rest => s.length + 1 + stringsRoom rest

/-- The areas of strings at given offsets. -/
def stringAreas (offsets : List Nat) (strings : List CString) :
    List (Area Cell) :=
  List.zipWith (fun o s => ⟨o, stringCells s⟩) offsets strings

namespace Database

/-- The room of a record: its strings, and for a group the pointer area and the
members. -/
def totalNeed (name : CString) (entry : Option JsonObject)
    (db : Database) : Nat :=
  stringsRoom (db.intendedStrings name entry) +
    match db with
    | group =>
        pointerSize * ((stringMembers entry).length + 1) +
          stringsRoom (stringMembers entry)
    | _ => 0

/-- All that a record points to; {lit}`offsets` are the members'. -/
def recordAreas (name : CString) (entry : Option JsonObject)
    (offsets : List Nat) (db : Database) (rbuf : db.Record) :
    List (Area Cell) :=
  stringAreas (db.stringFields rbuf) (db.intendedStrings name entry) ++
    match db, rbuf with
    | group, rbuf =>
        ⟨rbuf.grMem, slotCells offsets ++ pointerCells none⟩ ::
          stringAreas offsets (stringMembers entry)
    | _, _ => []

/-- An object with a name, no longer a string than a builder copies, and string
members only, few enough that their pointer area can be counted. -/
structure WellFormedEntry (name : CString) (entry : Option JsonObject)
    (db : Database) : Prop where
  named : jsonObjectGetString entry Key.name = some name
  short : forall key s, jsonObjectGetString entry key = some s ->
    s.length < maxBufferSize
  strings : db = group -> AllStrings (userElements entry)
  shortMembers : db = group -> forall user, user ∈ stringMembers entry ->
    user.length < maxBufferSize
  count : db = group -> (userElements entry).length < 2 ^ 28 - 1

end Database

/-- A builder succeeds exactly with enough room, and then lays out the record;
more room changes nothing. -/
structure PacksExactly (M : Machine) (c : StnsConf) (db : Database)
    (name : CString) (entry : Option JsonObject) (p : Packing db.Record) :
    Prop where
  threshold : (db.ensure M c entry p).status = .success <->
    db.totalNeed name entry <= p.buflen
  short : p.buflen < db.totalNeed name entry ->
    (db.ensure M c entry p).status = .tryAgain ∧
      (db.ensure M c entry p).errno = erange
  layout : db.totalNeed name entry <= p.buflen ->
    exists offsets, offsets.length = (stringMembers entry).length ∧
      LaidOut (db.ensure M c entry p).mem p.buf (p.buf + p.buflen)
        (db.recordAreas name entry offsets (db.ensure M c entry p).rbuf)
  grow : db.totalNeed name entry <= p.buflen -> forall room,
    p.buflen <= room ->
      db.ensure M c entry { p with buflen := room } = db.ensure M c entry p

/-!
## Rows of strings
-/

theorem orDefault_eq (value : Option CString) (default : CString) :
    stnsSetDefaultValue value default = orDefault value default := by
  unfold stnsSetDefaultValue orDefault
  cases value with
  | none => rfl
  | some v =>
      have hpositive : 0 < maxBufferSize := by decide
      have hempty : v.strnlen maxBufferSize > 0 <-> v.chars ≠ [] := by
        rw [← List.length_pos_iff]
        unfold CString.strnlen CString.length
        omega
      dsimp only
      by_cases hnil : v.chars = []
      · rw [if_pos hnil, if_neg (fun h => hempty.mp h hnil)]
        rfl
      · rw [if_neg hnil, if_pos (hempty.mpr hnil)]
        rfl

theorem take_take_same (s : CString) (n : Nat) :
    (s.take n).take n = s.take n := by
  apply CString.ext
  show (s.chars.take n).take n = s.chars.take n
  rw [List.take_take, Nat.min_self]

theorem orDefault_cut (value : Option CString) (default : CString) :
    orDefault value (CString.snprintf maxbuf default) =
      orDefault value default := by
  unfold orDefault CString.snprintf
  cases value with
  | none => exact take_take_same _ _
  | some v => rw [take_take_same]

theorem orDefault_length (value : Option CString) (default : CString) :
    (orDefault value default).length < maxBufferSize := by
  have hcut : forall s : CString, (s.take (maxbuf - 1)).length <
      maxBufferSize := by
    intro s
    have hle : (s.chars.take (maxbuf - 1)).length <= maxbuf - 1 :=
      List.length_take_le _ _
    have hlt : maxbuf - 1 < maxBufferSize := by decide
    exact Nat.lt_of_le_of_lt hle hlt
  unfold orDefault
  split
  · split
    · exact hcut _
    · exact hcut _
  · exact hcut _

theorem stringCells_length (s : CString) :
    (stringCells s).length = s.length + 1 := by
  simp [stringCells, CString.length]

theorem flatten_stringCells_length (strings : List CString) :
    (strings.map stringCells).flatten.length = stringsRoom strings := by
  induction strings with
  | nil => rfl
  | cons s rest ih =>
      rw [List.map_cons, List.flatten_cons, List.length_append, ih,
        stringCells_length]
      rfl

theorem row_append {cell : Type} (offset : Nat) (front back : List (List cell)) :
    row offset (front ++ back) =
      row offset front ++ row (offset + front.flatten.length) back := by
  induction front generalizing offset with
  | nil => rfl
  | cons run rest ih =>
      rw [List.flatten_cons, List.length_append, ← Nat.add_assoc]
      show _ :: row _ (rest ++ back) = _
      rw [ih]
      rfl

/-- Where strings end up that are stored one behind the other. -/
def stringOffsets : Nat -> List CString -> List Nat
  | _, [] => []
  | o, s :: rest => o :: stringOffsets (o + (s.length + 1)) rest

theorem stringAreas_eq_row (o : Nat) (strings : List CString) :
    stringAreas (stringOffsets o strings) strings =
      row o (strings.map stringCells) := by
  induction strings generalizing o with
  | nil => rfl
  | cons s rest ih =>
      unfold stringAreas at ih ⊢
      rw [stringOffsets, List.zipWith_cons_cons, ih, ← stringCells_length]
      rfl

/-!
## Attributes as strings
-/

section Attributes

variable {record : Type}

def ShortTexts (attrs : List (Attribute record)) : Prop :=
  forall a, a ∈ attrs -> a.text.length < maxBufferSize

theorem Attribute.size_of_short {a : Attribute record}
    (h : a.text.length < maxBufferSize) : a.size = a.text.length + 1 := by
  unfold Attribute.size CString.strnlen
  rw [Nat.min_eq_left (Nat.le_of_lt h)]

theorem Attribute.stored_of_short {a : Attribute record}
    (h : a.text.length < maxBufferSize) :
    a.stored.map Cell.byte = stringCells a.text := by
  have hrun := memberRun_of_short (Nat.le_of_lt h)
  exact hrun

theorem shortTexts_cons {a : Attribute record}
    {rest : List (Attribute record)} (h : ShortTexts (a :: rest)) :
    a.text.length < maxBufferSize ∧ ShortTexts rest :=
  ⟨h a List.mem_cons_self,
    fun b hb => h b (List.mem_cons_of_mem a hb)⟩

theorem attributesSize_of_short {attrs : List (Attribute record)}
    (h : ShortTexts attrs) :
    attributesSize attrs = stringsRoom (attrs.map Attribute.text) := by
  induction attrs with
  | nil => rfl
  | cons a rest ih =>
      rcases shortTexts_cons h with ⟨hfirst, hrest⟩
      rw [attributesSize_cons, Attribute.size_of_short hfirst, ih hrest]
      rfl

theorem stored_of_short {attrs : List (Attribute record)}
    (h : ShortTexts attrs) :
    (attrs.flatMap Attribute.stored).map Cell.byte =
      ((attrs.map Attribute.text).map stringCells).flatten := by
  induction attrs with
  | nil => rfl
  | cons a rest ih =>
      rcases shortTexts_cons h with ⟨hfirst, hrest⟩
      rw [List.flatMap_cons, List.map_append, ih hrest,
        Attribute.stored_of_short hfirst]
      rfl

/-- The offsets that a row of attributes is placed at. -/
def attributeOffsets : Nat -> List (Attribute record) -> List Nat
  | _, [] => []
  | o, a :: rest => o :: attributeOffsets (o + a.size) rest

theorem attributeOffsets_of_short (o : Nat) {attrs : List (Attribute record)}
    (h : ShortTexts attrs) :
    attributeOffsets o attrs =
      stringOffsets o (attrs.map Attribute.text) := by
  induction attrs generalizing o with
  | nil => rfl
  | cons a rest ih =>
      rcases shortTexts_cons h with ⟨hfirst, hrest⟩
      unfold attributeOffsets
      rw [Attribute.size_of_short hfirst, ih _ hrest]
      rfl

theorem placeAll_rbuf_congr {attrs : List (Attribute record)}
    {p q : Packing record} (hbuf : p.buf = q.buf) (hrbuf : p.rbuf = q.rbuf) :
    (placeAll attrs p).rbuf = (placeAll attrs q).rbuf := by
  induction attrs generalizing p q with
  | nil => exact hrbuf
  | cons a rest ih =>
      apply ih
      · show p.buf + a.size = q.buf + a.size
        rw [hbuf]
      · show a.assign p.buf p.rbuf = a.assign q.buf q.rbuf
        rw [hbuf, hrbuf]

end Attributes

/-!
## The row of a record
-/

/-- Where the members of a record that starts at {lit}`o` are stored. -/
def memberStart (name : CString) (entry : Option JsonObject) (o : Nat) : Nat :=
  o + stringsRoom (Database.group.intendedStrings name entry) +
    pointerSize * ((stringMembers entry).length + 1)

namespace Database

/-- The runs that a record consists of. -/
def recordRuns (name : CString) (entry : Option JsonObject) (o : Nat)
    (db : Database) : List (List Cell) :=
  (db.intendedStrings name entry).map stringCells ++
    match db with
    | group =>
        (slotCells (stringOffsets (memberStart name entry o)
            (stringMembers entry)) ++ pointerCells none) ::
          (stringMembers entry).map stringCells
    | _ => []

theorem stringOffsets_length (o : Nat) (strings : List CString) :
    (stringOffsets o strings).length = strings.length := by
  induction strings generalizing o with
  | nil => rfl
  | cons s rest ih => simp [stringOffsets, ih]

theorem flatten_recordRuns_length (name : CString) (entry : Option JsonObject)
    (o : Nat) (db : Database) :
    (db.recordRuns name entry o).flatten.length = db.totalNeed name entry := by
  unfold recordRuns totalNeed
  rw [List.flatten_append, List.length_append, flatten_stringCells_length]
  cases db with
  | group =>
      simp only [List.flatten_cons, List.length_append,
        flatten_stringCells_length, slotCells_length, pointerCells_length,
        stringOffsets_length, Nat.mul_succ]
  | _ => rfl

theorem stringAreas_append_row {name : CString} {entry : Option JsonObject}
    {o : Nat} (db : Database) {fields : List Nat}
    (hfields : fields = stringOffsets o (db.intendedStrings name entry))
    (runs : List (List Cell)) :
    stringAreas fields (db.intendedStrings name entry) ++
        row (o + stringsRoom (db.intendedStrings name entry)) runs =
      row o ((db.intendedStrings name entry).map stringCells ++ runs) := by
  rw [hfields, stringAreas_eq_row, row_append, flatten_stringCells_length]

theorem memberAreas_eq_row (name : CString) (entry : Option JsonObject)
    (o : Nat) :
    let offsets := stringOffsets (memberStart name entry o)
      (stringMembers entry)
    (⟨o + stringsRoom (group.intendedStrings name entry),
        slotCells offsets ++ pointerCells none⟩ : Area Cell) ::
        stringAreas offsets (stringMembers entry) =
      row (o + stringsRoom (group.intendedStrings name entry))
        ((slotCells offsets ++ pointerCells none) ::
          (stringMembers entry).map stringCells) := by
  dsimp only
  have hstart : o + stringsRoom (group.intendedStrings name entry) +
      (slotCells (stringOffsets (memberStart name entry o)
        (stringMembers entry)) ++ pointerCells none).length =
          memberStart name entry o := by
    rw [List.length_append, slotCells_length, pointerCells_length,
      stringOffsets_length]
    rfl
  rw [stringAreas_eq_row, row, hstart]

end Database

theorem Reply.eq_of_fields {record : Type} {r r' : Reply record}
    (hstatus : r.status = r'.status) (herrno : r.errno = r'.errno)
    (hrbuf : r.rbuf = r'.rbuf) (hmem : r.mem = r'.mem)
    (hunlocked : r.unlocked = r'.unlocked) : r = r' := by
  cases r
  cases r'
  cases hstatus
  cases herrno
  cases hrbuf
  cases hmem
  cases hunlocked
  rfl

/-!
## The builders store the row
-/

section Builders

variable {M : Machine} {c : StnsConf} {name : CString}
  {entry : Option JsonObject}

/-- A reply whose buffer and record are those of the row. -/
structure HoldsRow (name : CString) (entry : Option JsonObject)
    (db : Database) (p : Packing db.Record) (r : Reply db.Record) : Prop where
  mem : r.mem = p.mem.write p.buf (db.recordRuns name entry p.buf).flatten
  areas : db.recordAreas name entry
      (stringOffsets (memberStart name entry p.buf) (stringMembers entry))
      r.rbuf = row p.buf (db.recordRuns name entry p.buf)

theorem intendedStrings_short {db : Database}
    (h : db.WellFormedEntry name entry) :
    forall s, s ∈ db.intendedStrings name entry ->
      s.length < maxBufferSize := by
  have hname := h.short Key.name name h.named
  have hx : (literal "x").length < maxBufferSize := by decide
  have hgecos : ((jsonObjectGetString entry Key.gecos).getD
      CString.empty).length < maxBufferSize := by
    cases hvalue : jsonObjectGetString entry Key.gecos with
    | none => decide
    | some gecos => exact h.short Key.gecos gecos hvalue
  intro s hs
  cases db with
  | passwd =>
      simp only [Database.intendedStrings, List.mem_cons, List.not_mem_nil,
        or_false] at hs
      rcases hs with rfl | rfl | rfl | rfl | rfl
      · exact hname
      · exact hx
      · exact hgecos
      · exact orDefault_length _ _
      · exact orDefault_length _ _
  | group =>
      simp only [Database.intendedStrings, List.mem_cons, List.not_mem_nil,
        or_false] at hs
      rcases hs with rfl | rfl
      · exact hname
      · exact hx
  | spwd =>
      simp only [Database.intendedStrings, List.mem_cons, List.not_mem_nil,
        or_false] at hs
      rcases hs with rfl | rfl
      · exact hname
      · exact orDefault_length _ _

theorem shortTexts_of_texts {record : Type}
    {attrs : List (Attribute record)} {texts : List CString}
    (htexts : attrs.map Attribute.text = texts)
    (hshort : forall s, s ∈ texts -> s.length < maxBufferSize) :
    ShortTexts attrs := by
  intro a ha
  apply hshort
  rw [← htexts]
  exact List.mem_map_of_mem ha

theorem passwd_texts
    (hname : jsonObjectGetString entry Key.name = some name) :
    (passwdAttributes entry).map Attribute.text =
      Database.passwd.intendedStrings name entry := by
  simp only [passwdAttributes, Database.intendedStrings, List.map_cons,
    List.map_nil, Attribute.text, orDefault_eq, orDefault_cut, hname, printed,
    Option.getD_some]

theorem group_texts
    (hname : jsonObjectGetString entry Key.name = some name) :
    (groupAttributes entry).map Attribute.text =
      Database.group.intendedStrings name entry := by
  simp only [groupAttributes, Database.intendedStrings, List.map_cons,
    List.map_nil, Attribute.text, hname, Option.getD_some]

theorem shadow_texts
    (hname : jsonObjectGetString entry Key.name = some name) :
    (shadowAttributes entry).map Attribute.text =
      Database.spwd.intendedStrings name entry := by
  simp only [shadowAttributes, Database.intendedStrings, List.map_cons,
    List.map_nil, Attribute.text, orDefault_eq, hname, Option.getD_some]

theorem passwdEnsure_row (h : Database.passwd.WellFormedEntry name entry)
    {p : Packing Passwd}
    (hroom : attributesSize (passwdAttributes entry) <= p.buflen) :
    HoldsRow name entry .passwd p (passwdEnsure M c entry p) := by
  have htexts := passwd_texts h.named
  have hshort := shortTexts_of_texts htexts (intendedStrings_short h)
  rw [passwdEnsure_ok hroom]
  constructor
  · show (placeAll _ _).mem = _
    rw [placeAll_mem, stored_of_short hshort, htexts]
    simp only [Database.recordRuns, List.append_nil]
  · have hfields := attributeOffsets_of_short p.buf hshort
    rw [htexts] at hfields
    exact Database.stringAreas_append_row .passwd hfields []

theorem shadowEnsure_row (h : Database.spwd.WellFormedEntry name entry)
    {p : Packing Spwd}
    (hroom : attributesSize (shadowAttributes entry) <= p.buflen) :
    HoldsRow name entry .spwd p (shadowEnsure entry p) := by
  have htexts := shadow_texts h.named
  have hshort := shortTexts_of_texts htexts (intendedStrings_short h)
  rw [shadowEnsure_ok hroom]
  constructor
  · show (placeAll _ _).mem = _
    rw [placeAll_mem, stored_of_short hshort, htexts]
    simp only [Database.recordRuns, List.append_nil]
  · have hfields := attributeOffsets_of_short p.buf hshort
    rw [htexts] at hfields
    exact Database.stringAreas_append_row .spwd hfields []

theorem memberOffsets_of_short (o : Nat) {users : List CString}
    (h : forall user, user ∈ users -> user.length < maxBufferSize) :
    memberOffsets o users = stringOffsets o users := by
  induction users generalizing o with
  | nil => rfl
  | cons user rest ih =>
      have hfirst := memberRun_of_short
        (Nat.le_of_lt (h user List.mem_cons_self))
      rw [memberOffsets, hfirst, stringCells_length,
        ih _ (fun next hnext => h next (List.mem_cons_of_mem user hnext))]
      rfl

theorem flatMap_memberRun_of_short {users : List CString}
    (h : forall user, user ∈ users -> user.length < maxBufferSize) :
    users.flatMap memberRun = (users.map stringCells).flatten := by
  rw [List.flatMap_def]
  congr 1
  apply List.map_congr_left
  intro user huser
  exact memberRun_of_short (Nat.le_of_lt (h user huser))

theorem membersSize_of_short {items : List Json} (hstrings : AllStrings items)
    (h : forall user, user ∈ stringElements items ->
      user.length < maxBufferSize) :
    membersSize items = stringsRoom (stringElements items) := by
  induction items with
  | nil => rfl
  | cons element rest ih =>
      rcases allStrings_cons hstrings with ⟨⟨user, huser, husers⟩, hrest⟩
      rw [husers] at h
      have hmin : user.strnlen maxBufferSize = user.length :=
        Nat.min_eq_left (Nat.le_of_lt (h user List.mem_cons_self))
      have hfirst : memberSize element = user.length + 1 := by
        unfold memberSize
        rw [huser, ← hmin]
      rw [membersSize_cons, husers, hfirst, ih hrest
        (fun next hnext => h next (List.mem_cons_of_mem user hnext))]
      rfl

/-- The room a builder asks for is the length of the row. -/
theorem need_eq_totalNeed {db : Database}
    (h : db.WellFormedEntry name entry) :
    db.need entry = db.totalNeed name entry := by
  have hshort := intendedStrings_short h
  cases db with
  | passwd =>
      have htexts := passwd_texts h.named
      show attributesSize (passwdAttributes entry) = _
      rw [attributesSize_of_short (shortTexts_of_texts htexts hshort), htexts]
      rfl
  | spwd =>
      have htexts := shadow_texts h.named
      show attributesSize (shadowAttributes entry) = _
      rw [attributesSize_of_short (shortTexts_of_texts htexts hshort), htexts]
      rfl
  | group =>
      have htexts := group_texts h.named
      have harea := ptrAreaSize_exact
        (jsonObjectGetArray entry Key.users) (by
          rw [count_userElements]
          exact h.count rfl)
      rw [count_userElements] at harea
      have hmembers : membersSize (userElements entry) =
          stringsRoom (stringMembers entry) :=
        membersSize_of_short (h.strings rfl) (h.shortMembers rfl)
      have hlength : (stringMembers entry).length =
          (userElements entry).length := stringElements_length (h.strings rfl)
      have hsize : sizeOfInt (ptrAreaSize (jsonObjectGetArray entry
          Key.users)) = pointerSize * ((stringMembers entry).length + 1) := by
        have hnonneg := sizeOfInt_of_nonneg
          (i := ptrAreaSize (jsonObjectGetArray entry Key.users)) (by omega)
        rw [hlength]
        omega
      show attributesSize (groupAttributes entry) +
        (sizeOfInt _ + membersSize (userElements entry)) = _
      rw [attributesSize_of_short (shortTexts_of_texts htexts hshort), htexts,
        hsize, hmembers]
      rfl

theorem vectorStart_eq (h : Database.group.WellFormedEntry name entry)
    (p : Packing Group) :
    vectorStart entry p =
      p.buf + stringsRoom (Database.group.intendedStrings name entry) := by
  have htexts := group_texts h.named
  unfold vectorStart
  rw [attributesSize_of_short
    (shortTexts_of_texts htexts (intendedStrings_short h)), htexts]

theorem groupEnsure_row (h : Database.group.WellFormedEntry name entry)
    {p : Packing Group} (hsuccess : (groupEnsure M c entry p).status =
      .success) : HoldsRow name entry .group p (groupEnsure M c entry p) := by
  have htexts := group_texts h.named
  have hshort := shortTexts_of_texts htexts (intendedStrings_short h)
  have hmembers := h.shortMembers rfl
  have hstart := vectorStart_eq h p
  have hlength : (stringMembers entry).length =
      (userElements entry).length := stringElements_length (h.strings rfl)
  have hnames : vectorStart entry p +
      pointerSize * ((userElements entry).length + 1) =
        memberStart name entry p.buf := by
    rw [hstart, ← hlength]
    rfl
  constructor
  · have hmem := groupEnsure_mem (h.strings rfl) (h.count rfl) hsuccess
    dsimp only at hmem
    have harea : (slotCells (stringOffsets (memberStart name entry p.buf)
        (stringMembers entry)) ++ pointerCells none).length =
          pointerSize * ((stringMembers entry).length + 1) := by
      rw [List.length_append, slotCells_length, pointerCells_length,
        Database.stringOffsets_length, Nat.mul_succ]
    have hfront := flatten_stringCells_length
      (Database.group.intendedStrings name entry)
    rw [hmem, hnames, memberOffsets_of_short _ hmembers,
      flatMap_memberRun_of_short hmembers, groupFront_mem,
      stored_of_short hshort, htexts, hstart, ← hfront]
    unfold Database.recordRuns
    dsimp only
    generalize slotCells (stringOffsets (memberStart name entry p.buf)
      (stringMembers entry)) ++ pointerCells none = area at harea ⊢
    have hbehind : memberStart name entry p.buf =
        p.buf + ((Database.group.intendedStrings name entry).map
          stringCells).flatten.length + area.length := by
      rw [hfront, harea]
      rfl
    rw [List.flatten_append, List.flatten_cons, Memory.write_append,
      Memory.write_append, hbehind]
  · rcases groupEnsure_success hsuccess with ⟨_, _, _, hrbuf⟩
    have hfields := attributeOffsets_of_short p.buf hshort
    rw [htexts] at hfields
    unfold Database.recordAreas Database.recordRuns
    rw [hrbuf]
    dsimp only
    rw [hstart, Database.memberAreas_eq_row]
    exact Database.stringAreas_append_row .group hfields _

theorem Database.WellFormedEntry.accepts {db : Database}
    (h : db.WellFormedEntry name entry) : db.Accepts entry := by
  intro _
  rw [h.named]
  rfl

theorem ensure_row {db : Database} (h : db.WellFormedEntry name entry)
    {p : Packing db.Record} (hroom : db.need entry <= p.buflen) :
    HoldsRow name entry db p (db.ensure M c entry p) := by
  have hsuccess := (Database.ensure_ok (M := M) (c := c) p h.accepts
    hroom).left
  cases db with
  | passwd => exact passwdEnsure_row h hroom
  | group => exact groupEnsure_row h hsuccess
  | spwd => exact shadowEnsure_row h hroom

/-- With enough room, the record does not depend on how much there is. -/
theorem ensure_rbuf_congr {db : Database}
    (h : db.WellFormedEntry name entry) {p : Packing db.Record} {room : Nat}
    (hroom : db.need entry <= p.buflen) (hmore : p.buflen <= room) :
    (db.ensure M c entry { p with buflen := room }).rbuf =
      (db.ensure M c entry p).rbuf := by
  have hlarge : db.need entry <= ({ p with buflen := room } :
    Packing db.Record).buflen := Nat.le_trans hroom hmore
  cases db with
  | passwd =>
      show (passwdEnsure M c entry _).rbuf = (passwdEnsure M c entry p).rbuf
      rw [passwdEnsure_ok hlarge, passwdEnsure_ok hroom]
      exact placeAll_rbuf_congr rfl rfl
  | group =>
      have hsuccess := (Database.ensure_ok (M := M) (c := c) p h.accepts
        hroom).left
      have hsuccess' := (Database.ensure_ok (M := M) (c := c)
        { p with buflen := room } h.accepts hlarge).left
      rcases groupEnsure_success hsuccess with ⟨_, _, _, hrbuf⟩
      rcases groupEnsure_success hsuccess' with ⟨_, _, _, hrbuf'⟩
      have hfront : (groupFront M c entry { p with buflen := room }).rbuf =
          (groupFront M c entry p).rbuf := placeAll_rbuf_congr rfl rfl
      show (groupEnsure M c entry _).rbuf = (groupEnsure M c entry p).rbuf
      rw [hrbuf, hrbuf', hfront]
      rfl
  | spwd =>
      show (shadowEnsure entry _).rbuf = (shadowEnsure entry p).rbuf
      rw [shadowEnsure_ok hlarge, shadowEnsure_ok hroom]
      exact congrArg shadowAging (placeAll_rbuf_congr rfl rfl)

end Builders

/-- Every builder packs every well-formed element exactly when the room reaches
its need, into areas that lie apart inside the buffer and read back as the
intended strings, and no larger buffer changes the outcome. -/
theorem packs_exactly (M : Machine) (c : StnsConf) {db : Database}
    {name : CString} {entry : Option JsonObject}
    (h : db.WellFormedEntry name entry) (p : Packing db.Record) :
    PacksExactly M c db name entry p := by
  have hneed := need_eq_totalNeed h
  constructor
  · rw [Database.ensure_success_iff, hneed]
    exact ⟨fun hboth => hboth.right, fun hroom => ⟨h.accepts, hroom⟩⟩
  · intro hshort
    rw [← hneed] at hshort
    exact Database.ensure_short p h.accepts hshort
  · intro hroom
    have hrow := ensure_row (M := M) (c := c) h
      (Nat.le_trans (Nat.le_of_eq hneed) hroom)
    refine ⟨stringOffsets (memberStart name entry p.buf)
      (stringMembers entry), Database.stringOffsets_length _ _, ?_⟩
    rw [hrow.areas, hrow.mem]
    apply laidOut_row
    rw [Database.flatten_recordRuns_length]
    exact Nat.add_le_add_left hroom _
  · intro hroom room hmore
    rw [← hneed] at hroom
    have hlarge : db.need entry <= ({ p with buflen := room } :
      Packing db.Record).buflen := Nat.le_trans hroom hmore
    rcases Database.ensure_ok (M := M) (c := c) p h.accepts hroom with
      ⟨hstatus, herrno, hunlocked⟩
    rcases Database.ensure_ok (M := M) (c := c) { p with buflen := room }
      h.accepts hlarge with ⟨hstatus', herrno', hunlocked'⟩
    have hmem := (ensure_row (M := M) (c := c) h hroom).mem
    have hmem' := (ensure_row (M := M) (c := c) h hlarge).mem
    exact Reply.eq_of_fields (hstatus'.trans hstatus.symm)
      (herrno'.trans herrno.symm) (ensure_rbuf_congr h hroom hmore)
      (hmem'.trans hmem.symm) (hunlocked'.trans hunlocked.symm)

/-- Strings that are short in every member of an object are short under every
key. -/
theorem short_of_members {leaf : JsonObject}
    (h : forall member, member ∈ leaf ->
      (jsonValueGetString (some member.2)).all
        (fun s => decide (s.length < maxBufferSize)) = true) :
    forall key s, jsonObjectGetString (some leaf) key = some s ->
      s.length < maxBufferSize := by
  intro key s hs
  unfold jsonObjectGetString jsonObjectGetValue at hs
  rw [Option.bind_some] at hs
  cases hvalue : leaf.lookup key with
  | none =>
      rw [hvalue] at hs
      cases hs
  | some value =>
      rw [hvalue] at hs
      rcases List.lookup_eq_some_iff.mp hvalue with ⟨front, back, hleaf, _⟩
      have hmember := h (key, value) (by
        rw [hleaf]
        exact List.mem_append_right front List.mem_cons_self)
      rw [hs] at hmember
      exact of_decide_eq_true hmember

/-- A group with two users, in a buffer of exactly its need. -/
theorem packs_exactly_two_users :
    PacksExactly Machine.wrapping {} .group (literal "wheel")
      (some [(Key.name, .string (ascii "wheel")),
        (Key.users, .array [.string (ascii "user1"),
          .string (ascii "user2")])])
      (Database.group.blankPacking 44) := by
  apply packs_exactly
  exact ⟨by decide, short_of_members (by decide), fun _ => by decide,
    fun _ => by decide, fun _ => by decide⟩

end Stns
