import Stns.Document.TomlParse

/-!
# Writing a configuration file

A tree of tables as a text: a line for a member of the root, a header and lines
for a table of it, and braces and brackets below.  A key stands in quotes where
it is no bare key, and a string is written with escapes.
-/

namespace Stns

namespace TomlParser

instance : Append CString :=
  ⟨CString.append⟩

@[simp] theorem append_chars (s t : CString) :
    (s ++ t).chars = s.chars ++ t.chars :=
  rfl

/-!
## Strings and keys
-/

/-- A character between quotes. -/
def escapeChar (c : UInt8) : Bytes :=
  if c = quote then [backslash, quote]
  else if c = backslash then [backslash, backslash]
  else if c = lineFeed then [backslash, 110]
  else [c]

def escapeString (s : Bytes) : Bytes :=
  s.flatMap escapeChar

theorem escapeChar_cases (c : UInt8) :
    (exists e, escapeChar c = [backslash, e] ∧ escaped e = some c ∧
        e ∈ ascii "btnfr\"\\" ∧ e ≠ 10 ∧ e ≠ 13 ∧ e ≠ 117 ∧ e ≠ 85) ∨
      (escapeChar c = [c] ∧ c ≠ quote ∧ c ≠ backslash ∧ c ≠ lineFeed) := by
  unfold escapeChar
  split
  · rename_i hquote
    rw [hquote]
    exact .inl ⟨quote, rfl, by decide⟩
  · rename_i hquote
    split
    · rename_i hbackslash
      rw [hbackslash]
      exact .inl ⟨backslash, rfl, by decide⟩
    · rename_i hbackslash
      split
      · rename_i hline
        rw [hline]
        exact .inl ⟨110, rfl, by decide⟩
      · rename_i hline
        exact .inr ⟨rfl, hquote, hbackslash, hline⟩

theorem nulFree_escapeString {s : Bytes} (h : 0 ∉ s) : 0 ∉ escapeString s := by
  intro hmem
  rcases List.mem_flatMap.mp hmem with ⟨c, hc, hzero⟩
  have hne : c ≠ 0 := fun hc0 => h (hc0 ▸ hc)
  rcases escapeChar_cases c with ⟨e, heq, hescaped, _⟩ | ⟨heq, _⟩
  · rw [heq] at hzero
    rcases List.mem_cons.mp hzero with h0 | hzero
    · exact absurd h0 (by decide)
    · rw [← List.mem_singleton.mp hzero] at hescaped
      exact absurd hescaped (by simp [escaped, quote, backslash])
  · rw [heq] at hzero
    exact hne (List.mem_singleton.mp hzero).symm

/-- A string in quotes. -/
def quoted (s : CString) : CString where
  chars := quote :: (escapeString s.chars ++ [quote])
  nulFree := by
    intro hmem
    rcases List.mem_cons.mp hmem with hzero | hmem
    · exact absurd hzero (by decide)
    · rcases List.mem_append.mp hmem with hmem | hmem
      · exact nulFree_escapeString s.nulFree hmem
      · exact absurd (List.mem_singleton.mp hmem) (by decide)

/-- A bare key, or the key in quotes. -/
def renderKey (key : CString) : CString :=
  if key.chars ≠ [] ∧ key.chars.all isBareKey = true then key else quoted key

/-!
## Tables
-/

def entry (key value sep : CString) : CString :=
  renderKey key ++ (literal "=" ++ (value ++ sep))

mutual

/-- The members of a table, each with {lit}`sep` behind it. -/
def renderTable (sep : CString) : TableNode -> CString
  | .mk _ kval arr tab =>
      renderKvals sep kval ++ (renderArrs sep arr ++ renderTabs sep tab)

/-- The elements of an array, each with a comma behind it. -/
def renderArray : ArrayNode -> CString
  | .untyped => CString.empty
  | .values _ val => renderValues val
  | .arrays arr => renderArrays arr
  | .tables tab => renderTables tab

def renderKvals (sep : CString) : List (CString × CString) -> CString
  | [] => CString.empty
  | (key, raw) :: rest => entry key raw sep ++ renderKvals sep rest

def renderArrs (sep : CString) : List (CString × ArrayNode) -> CString
  | [] => CString.empty
  | (key, a) :: rest =>
      entry key (literal "[" ++ (renderArray a ++ literal "]")) sep ++
        renderArrs sep rest

def renderTabs (sep : CString) : List (CString × TableNode) -> CString
  | [] => CString.empty
  | (key, t) :: rest =>
      entry key (literal "\x7b" ++ (renderTable (literal ",") t ++
        literal "\x7d")) sep ++ renderTabs sep rest

def renderValues : List CString -> CString
  | [] => CString.empty
  | raw :: rest => raw ++ literal "," ++ renderValues rest

def renderArrays : List ArrayNode -> CString
  | [] => CString.empty
  | a :: rest =>
      literal "[" ++ (renderArray a ++ literal "]") ++ literal "," ++
        renderArrays rest

def renderTables : List TableNode -> CString
  | [] => CString.empty
  | t :: rest =>
      literal "\x7b" ++ (renderTable (literal ",") t ++ literal "\x7d") ++
        literal "," ++ renderTables rest

end

/-- The tables of the root, each behind its header. -/
def renderSections : List (CString × TableNode) -> CString
  | [] => CString.empty
  | (key, t) :: rest =>
      literal "[" ++ (renderKey key ++ (literal "]\n" ++
        renderTable (literal "\n") t)) ++ renderSections rest

/-- The file with a tree of tables. -/
def renderFile (t : TableNode) : CString :=
  renderKvals (literal "\n") t.kval ++ (renderArrs (literal "\n") t.arr ++
    renderSections t.tab)

/-!
## Members
-/

/-- What a table has under a key, or an array among its elements. -/
inductive Member where
  | value (raw : CString)
  | array (a : ArrayNode)
  | table (t : TableNode)

namespace Member

def render : Member -> CString
  | value raw => raw
  | array a => literal "[" ++ (renderArray a ++ literal "]")
  | table t =>
      literal "\x7b" ++ (renderTable (literal ",") t ++ literal "\x7d")

end Member

def valueMember (e : CString × CString) : CString × Member :=
  (e.1, .value e.2)

def arrayMember (e : CString × ArrayNode) : CString × Member :=
  (e.1, .array e.2)

def tableMember (e : CString × TableNode) : CString × Member :=
  (e.1, .table e.2)

def TableNode.members (t : TableNode) : List (CString × Member) :=
  t.kval.map valueMember ++ (t.arr.map arrayMember ++ t.tab.map tableMember)

def ArrayNode.elements : ArrayNode -> List Member
  | untyped => []
  | values _ val => val.map .value
  | arrays arr => arr.map .array
  | tables tab => tab.map .table

/-- The text of some members. -/
def renderMembers (sep : CString) (list : List (CString × Member)) : Bytes :=
  list.flatMap (fun m => (entry m.1 m.2.render sep).chars)

def renderElements (list : List Member) : Bytes :=
  list.flatMap (fun e => e.render.chars ++ [44])

section Members

variable {sep : CString}

theorem renderKvals_eq (list : List (CString × CString)) :
    (renderKvals sep list).chars = renderMembers sep (list.map valueMember) := by
  induction list with
  | nil => rfl
  | cons e rest ih =>
      show (entry e.1 e.2 sep).chars ++ (renderKvals sep rest).chars = _
      rw [ih]
      rfl

theorem renderArrs_eq (list : List (CString × ArrayNode)) :
    (renderArrs sep list).chars = renderMembers sep (list.map arrayMember) := by
  induction list with
  | nil => rfl
  | cons e rest ih =>
      show (entry e.1 (Member.array e.2).render sep).chars ++
        (renderArrs sep rest).chars = _
      rw [ih]
      rfl

theorem renderTabs_eq (list : List (CString × TableNode)) :
    (renderTabs sep list).chars = renderMembers sep (list.map tableMember) := by
  induction list with
  | nil => rfl
  | cons e rest ih =>
      show (entry e.1 (Member.table e.2).render sep).chars ++
        (renderTabs sep rest).chars = _
      rw [ih]
      rfl

theorem renderMembers_append (front back : List (CString × Member)) :
    renderMembers sep (front ++ back) =
      renderMembers sep front ++ renderMembers sep back :=
  List.flatMap_append

theorem renderTable_eq (t : TableNode) :
    (renderTable sep t).chars = renderMembers sep t.members := by
  cases t with
  | mk implicit kval arr tab =>
      show (renderKvals sep kval).chars ++ ((renderArrs sep arr).chars ++
        (renderTabs sep tab).chars) = _
      rw [renderKvals_eq, renderArrs_eq, renderTabs_eq,
        ← renderMembers_append, ← renderMembers_append]
      rfl

theorem renderArray_eq (a : ArrayNode) :
    (renderArray a).chars = renderElements a.elements := by
  cases a with
  | untyped => rfl
  | values type val =>
      show (renderValues val).chars = renderElements (val.map .value)
      induction val with
      | nil => rfl
      | cons raw rest ih =>
          show raw.chars ++ [44] ++ (renderValues rest).chars = _
          rw [ih]
          rfl
  | arrays list =>
      show (renderArrays list).chars = renderElements (list.map .array)
      induction list with
      | nil => rfl
      | cons a rest ih =>
          show (Member.array a).render.chars ++ [44] ++
            (renderArrays rest).chars = _
          rw [ih]
          rfl
  | tables list =>
      show (renderTables list).chars = renderElements (list.map .table)
      induction list with
      | nil => rfl
      | cons t rest ih =>
          show (Member.table t).render.chars ++ [44] ++
            (renderTables rest).chars = _
          rw [ih]
          rfl

end Members

end TomlParser

end Stns
