import Mathlib.Data.List.Nodup
import Stns.Document.Config
import Stns.Foundation.Decimal

/-!
# TOML values

A parsed file is a tree of tables.  A table keeps a value as the raw text
between the equals sign and the end of the line, and a reader decodes that text
when the value is asked for.  A reader that fails may have stored something in
its destination or nothing.
-/

namespace Stns

open Decimal

/-!
## Tables
-/

/-- {lit}`toml_table_t`: the raw values and the subtables, each with its key.
Of an array only the key is kept. -/
inductive TomlTable where
  | mk (kval : List (CString × CString)) (arr : List CString)
      (tab : List (CString × TomlTable))

namespace TomlTable

def kval : TomlTable -> List (CString × CString)
  | mk kval _ _ => kval

def arr : TomlTable -> List CString
  | mk _ arr _ => arr

def tab : TomlTable -> List (CString × TomlTable)
  | mk _ _ tab => tab

/-- The keys of the values, the arrays and the tables, in this order. -/
def keys (t : TomlTable) : List CString :=
  t.kval.map Prod.fst ++ (t.arr ++ t.tab.map Prod.fst)

def empty : TomlTable :=
  mk [] [] []

end TomlTable

/-- {lit}`toml_key_in` -/
def tomlKeyIn (tab : TomlTable) (keyidx : Nat) : Option CString :=
  tab.keys[keyidx]?

/-- {lit}`toml_raw_in` -/
def tomlRawIn (tab : TomlTable) (key : CString) : Option CString :=
  (tab.kval.find? (fun kval => key = kval.1)).map Prod.snd

/-- {lit}`toml_table_in` -/
def tomlTableIn (tab : TomlTable) (key : CString) : Option TomlTable :=
  (tab.tab.find? (fun entry => key = entry.1)).map Prod.snd

section Tables

variable {tab : TomlTable}

/-- With distinct keys the value of a key is the one next to it. -/
theorem tomlRawIn_of_mem (hkeys : tab.keys.Nodup) {kval : CString × CString}
    (h : kval ∈ tab.kval) : tomlRawIn tab kval.1 = some kval.2 := by
  have hnodup : (tab.kval.map Prod.fst).Nodup :=
    (List.nodup_append.mp hkeys).left
  unfold tomlRawIn
  cases hfind : tab.kval.find? (fun entry => kval.1 = entry.1) with
  | none =>
      have hnone := List.find?_eq_none.mp hfind kval h
      exact absurd (decide_eq_true rfl) hnone
  | some entry =>
      have hfound := List.find?_some hfind
      have hkey : kval.1 = entry.1 := of_decide_eq_true hfound
      have hentry := List.mem_of_find?_eq_some hfind
      rw [List.inj_on_of_nodup_map hnodup hentry h hkey.symm, Option.map_some]

theorem tomlRawIn_eq_none {key : CString} (h : key ∉ tab.kval.map Prod.fst) :
    tomlRawIn tab key = none := by
  unfold tomlRawIn
  rw [Option.map_eq_none_iff, List.find?_eq_none]
  intro kval hmem hkey
  apply h
  rw [of_decide_eq_true hkey]
  exact List.mem_map_of_mem hmem

theorem tomlKeyIn_of_lt {keyidx : Nat} (h : keyidx < tab.kval.length) :
    tomlKeyIn tab keyidx = some tab.kval[keyidx].1 := by
  unfold tomlKeyIn TomlTable.keys
  rw [List.getElem?_append_left (by rw [List.length_map]; exact h),
    List.getElem?_map, List.getElem?_eq_getElem h, Option.map_some]

/-- Behind the values come keys that have none. -/
theorem tomlRawIn_of_le (hkeys : tab.keys.Nodup) {keyidx : Nat}
    (h : tab.kval.length <= keyidx) {key : CString}
    (hkey : tomlKeyIn tab keyidx = some key) : tomlRawIn tab key = none := by
  apply tomlRawIn_eq_none
  unfold tomlKeyIn TomlTable.keys at hkey
  rw [List.getElem?_append_right (by rw [List.length_map]; exact h)] at hkey
  intro hmem
  exact (List.nodup_append.mp hkeys).right.right key hmem key
    (List.mem_of_getElem? hkey) rfl

end Tables

/-!
## Readings
-/

/-- What a reader does: it returns 0 and has stored a value, or it returns
something else and has stored a value or left the destination as it was. -/
inductive Reading (alpha : Type) where
  | read (value : alpha)
  | failed (left : Option alpha)

namespace Reading

variable {alpha : Type}

/-- The destination afterwards. -/
def store (r : Reading alpha) (old : alpha) : alpha :=
  match r with
  | read value => value
  | failed (some value) => value
  | failed none => old

def value? : Reading alpha -> Option alpha
  | read value => some value
  | failed _ => none

end Reading

/-- A {lit}`char *`: NULL, a string, or a value that is no valid pointer. -/
inductive CharPtr where
  | null
  | string (s : CString)
  | wild
  deriving DecidableEq

/-!
## Booleans and integers
-/

/-- {lit}`toml_rtob` -/
def tomlRtob (src : CString) : Reading Int32 :=
  if src = literal "true" then .read 1
  else if src = literal "false" then .read 0
  else .failed none

def underscore : UInt8 := 95

/-- The copy without underscores into a buffer with {lit}`room` bytes, which
must not become full. -/
def stripUnderscores : Bytes -> Nat -> Option Bytes
  | _, 0 => none
  | [], _ + 1 => some []
  | c :: rest, room + 1 =>
      if c = underscore then stripUnderscores rest (room + 1)
      else (stripUnderscores rest room).map (fun copy => c :: copy)

/-- {lit}`toml_rtoi` -/
def tomlRtoi (src : CString) : Reading Int32 :=
  let signed := src.chars.head? = some plus ∨ src.chars.head? = some minus
  let sign := if signed then src.chars.take 1 else []
  let s := if signed then src.chars.tail else src.chars
  if s.head? = some 48 then
    if s.tail = [] then .read 0 else .failed none
  else
    match stripUnderscores s (100 - sign.length) with
    | none => .failed none
    | some digits =>
        let number := strtoll (sign ++ digits)
        let value := Int32.ofInt number.value
        if number.inRange = true ∧ number.rest = [] then .read value
        else .failed (some value)

/-!
## Strings
-/

def backslash : UInt8 := 92

def quote : UInt8 := 34

def apostrophe : UInt8 := 39

/-- The white space of {lit}`strspn(sp, " \t\r\n")`. -/
def isBlank (c : UInt8) : Bool :=
  c == 32 || c == 9 || c == 13 || c == 10

/-- One round of {lit}`kill_line_ending_backslash`: a backslash before the line
ending goes, with all the white space that follows. -/
def killBackslash (lineEnding : Bytes) : Bool -> Bytes -> Bytes
  | _, [] => []
  | skipping, c :: rest =>
      if skipping = true ∧ isBlank c = true then
        killBackslash lineEnding true rest
      else if c = backslash ∧ lineEnding.isPrefixOf rest = true then
        killBackslash lineEnding true rest
      else
        c :: killBackslash lineEnding false rest

/-- {lit}`kill_line_ending_backslash` -/
def killLineEndingBackslash (str : Bytes) : Bytes :=
  killBackslash [13, 10] false (killBackslash [10] false str)

/-- The lower six bits of a shifted code, as a continuation byte. -/
def utf8Tail (code shift : Nat) : UInt8 :=
  UInt8.ofNat (0x80 ||| ((code >>> shift) &&& 0x3f))

/-- {lit}`toml_ucs_to_utf8` -/
def tomlUcsToUtf8 (code : Nat) : Option Bytes :=
  if 0xd800 <= code ∧ code <= 0xdfff then none
  else if 0xfffe <= code ∧ code <= 0xffff then none
  else if code <= 0x7F then some [UInt8.ofNat code]
  else if code <= 0x000007FF then
    some [UInt8.ofNat (0xc0 ||| (code >>> 6)), utf8Tail code 0]
  else if code <= 0x0000FFFF then
    some [UInt8.ofNat (0xe0 ||| (code >>> 12)), utf8Tail code 6,
      utf8Tail code 0]
  else if code <= 0x001FFFFF then
    some [UInt8.ofNat (0xf0 ||| (code >>> 18)), utf8Tail code 12,
      utf8Tail code 6, utf8Tail code 0]
  else if code <= 0x03FFFFFF then
    some [UInt8.ofNat (0xf8 ||| (code >>> 24)), utf8Tail code 18,
      utf8Tail code 12, utf8Tail code 6, utf8Tail code 0]
  else if code <= 0x7FFFFFFF then
    some [UInt8.ofNat (0xfc ||| (code >>> 30)), utf8Tail code 24,
      utf8Tail code 18, utf8Tail code 12, utf8Tail code 6, utf8Tail code 0]
  else none

/-- The value of a digit or an upper-case letter up to F. -/
def upperHex (c : UInt8) : Option Nat :=
  if isDigit c = true then some (c.toNat - 48)
  else if Percent.inRange 65 70 c = true then some (c.toNat - 55)
  else none

/-- Where {lit}`normalize_string` is: between characters, behind a backslash,
in the white space behind a line ending, or in a {lit}`\u` with {lit}`more`
digits after the next one. -/
inductive EscapeState where
  | plain
  | escape
  | blank
  | hex (more ucs : Nat)

/-- The character that a backslash and a letter stand for. -/
def escaped (c : UInt8) : Option UInt8 :=
  if c = 98 then some 8
  else if c = 116 then some 9
  else if c = 110 then some 10
  else if c = 102 then some 12
  else if c = 114 then some 13
  else if c = quote then some quote
  else if c = backslash then some backslash
  else none

/-- {lit}`normalize_string` that kills line-ending backslashes. -/
def normalizeString : EscapeState -> Bytes -> Option Bytes
  | .plain, [] => some []
  | .blank, [] => some []
  | .escape, [] => none
  | .hex _ _, [] => none
  | .escape, c :: rest =>
      if c = 10 ∨ (c = 13 ∧ rest.head? = some 10) then
        normalizeString .blank rest
      else if c = 117 then normalizeString (.hex 3 0) rest
      else if c = 85 then normalizeString (.hex 7 0) rest
      else
        match escaped c with
        | none => none
        | some ch => (normalizeString .plain rest).map (fun dst => ch :: dst)
  | .hex more ucs, c :: rest =>
      match upperHex c with
      | none => none
      | some v =>
          match more with
          | more' + 1 => normalizeString (.hex more' (ucs * 16 + v)) rest
          | 0 =>
              match tomlUcsToUtf8 (ucs * 16 + v) with
              | none => none
              | some bytes =>
                  (normalizeString .plain rest).map (fun dst => bytes ++ dst)
  | .blank, c :: rest =>
      if isBlank c = true then normalizeString .blank rest
      else if c = backslash then normalizeString .escape rest
      else (normalizeString .plain rest).map (fun dst => c :: dst)
  | .plain, c :: rest =>
      if c = backslash then normalizeString .escape rest
      else (normalizeString .plain rest).map (fun dst => c :: dst)

/-- The text between two runs of three quotes, without a line ending right
behind the first. -/
def betweenTriple (mark : UInt8) (src : Bytes) : Option Bytes :=
  let triple := List.replicate 3 mark
  if 6 <= src.length ∧ src.drop (src.length - 3) = triple then
    let body := (src.drop 3).take (src.length - 6)
    some (if body.head? = some 10 then body.drop 1
      else if [13, 10].isPrefixOf body = true then body.drop 2
      else body)
  else none

/-- The text between two quotes. -/
def betweenSingle (mark : UInt8) (src : Bytes) : Option Bytes :=
  if 2 <= src.length ∧ src.getLast? = some mark then
    some ((src.drop 1).take (src.length - 2))
  else none

/-- A string of a reader that set its destination to NULL first. -/
def readString : Option Bytes -> Reading CharPtr
  | none => .failed (some .null)
  | some bytes => .read (.string (CString.ofBytes bytes))

/-- {lit}`toml_rtos` -/
def tomlRtos (src : CString) : Reading CharPtr :=
  if src.chars.head? = some apostrophe then
    if (List.replicate 3 apostrophe).isPrefixOf src.chars = true then
      readString ((betweenTriple apostrophe src.chars).map
        killLineEndingBackslash)
    else readString (betweenSingle apostrophe src.chars)
  else if src.chars.head? = some quote then
    if (List.replicate 3 quote).isPrefixOf src.chars = true then
      readString ((betweenTriple quote src.chars).bind
        (normalizeString .plain))
    else readString ((betweenSingle quote src.chars).bind
      (normalizeString .plain))
  else .failed none

/-- A string that is read is not NULL, and a value that is refused leaves NULL
or nothing. -/
theorem tomlRtos_cases (src : CString) :
    (exists s, tomlRtos src = .read (.string s)) ∨
      tomlRtos src = .failed none ∨ tomlRtos src = .failed (some .null) := by
  have hread : forall text : Option Bytes,
      (exists s, readString text = .read (.string s)) ∨
        readString text = .failed none ∨
          readString text = .failed (some .null) := by
    intro text
    cases text with
    | none => exact .inr (.inr rfl)
    | some bytes => exact .inl ⟨CString.ofBytes bytes, rfl⟩
  unfold tomlRtos
  split
  · split
    · exact hread _
    · exact hread _
  · split
    · split
      · exact hread _
      · exact hread _
    · exact .inr (.inl rfl)

theorem tomlRtos_read {src : CString} {value : CharPtr}
    (h : tomlRtos src = .read value) : exists s, value = .string s := by
  rcases tomlRtos_cases src with ⟨s, hread⟩ | hnone | hnull
  · rw [h] at hread
    exact ⟨s, Reading.read.inj hread⟩
  · rw [h] at hnone
    cases hnone
  · rw [h] at hnull
    cases hnull

end Stns
