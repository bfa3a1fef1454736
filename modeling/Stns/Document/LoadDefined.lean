import Mathlib.Data.List.Forall2
import Stns.Document.LoadConfig

/-!
# Loading from the file alone

A load should depend on the file and the defaults only.  It does if every value
that a reader refuses has left the default behind, and if every header value is
read.
-/

namespace Stns

/-!
## What a load should give
-/

namespace Setting

variable {alpha : Type} {s : Setting alpha} {tab : TomlTable}

/-- The parsed value, or the default without one. -/
def expected (s : Setting alpha) (tab : TomlTable) : alpha :=
  ((s.raw tab).bind (fun raw => (s.method raw).value?)).getD s.empty

/-- A value that is refused has left the default in the field. -/
def Settled (s : Setting alpha) (tab : TomlTable) : Prop :=
  forall raw left, s.raw tab = some raw -> s.method raw = .failed left ->
    left = some s.empty

/-- The same for a variable that starts with the default. -/
def SettledFromDefault (s : Setting alpha) (tab : TomlTable) : Prop :=
  forall raw left, s.raw tab = some raw -> s.method raw = .failed left ->
    left = none ∨ left = some s.empty

theorem get_failed {raw : CString} {left : Option alpha}
    (hraw : s.raw tab = some raw) (hread : s.method raw = .failed left)
    (old : alpha) : s.get tab old = left.getD old := by
  unfold get
  rw [hraw]
  dsimp only
  rw [hread]
  cases left with
  | none => rfl
  | some value => rfl

theorem expected_failed {raw : CString} {left : Option alpha}
    (hraw : s.raw tab = some raw) (hread : s.method raw = .failed left) :
    s.expected tab = s.empty := by
  unfold expected
  rw [hraw, Option.bind_some, hread]
  rfl

/-- Only a refused value makes a difference. -/
theorem get_eq_expected_or_failed (s : Setting alpha) (tab : TomlTable) :
    (forall old, s.get tab old = s.expected tab) ∨
      exists raw left, s.raw tab = some raw ∧
        s.method raw = .failed left := by
  unfold get expected
  cases hraw : s.raw tab with
  | none => exact .inl (fun _ => rfl)
  | some raw =>
      rw [Option.bind_some]
      cases hread : s.method raw with
      | read value => exact .inl (fun old => by dsimp only; rw [hread]; rfl)
      | failed left => exact .inr ⟨raw, left, rfl, hread⟩

/-- A settled key gives its value or default, whatever the field held. -/
theorem get_of_settled (h : s.Settled tab) (old : alpha) :
    s.get tab old = s.expected tab := by
  rcases get_eq_expected_or_failed s tab with hall | ⟨raw, left, hraw, hread⟩
  · exact hall old
  · rw [get_failed hraw hread, expected_failed hraw hread,
      h raw left hraw hread]
    rfl

theorem settled_of_get {old : alpha} (hold : old ≠ s.empty)
    (h : s.get tab old = s.expected tab) : s.Settled tab := by
  intro raw left hraw hread
  rw [get_failed hraw hread, expected_failed hraw hread] at h
  cases left with
  | none => exact absurd h hold
  | some value => exact congrArg some h

theorem get_empty_iff :
    s.get tab s.empty = s.expected tab <-> s.SettledFromDefault tab := by
  constructor
  · intro h raw left hraw hread
    rw [get_failed hraw hread, expected_failed hraw hread] at h
    cases left with
    | none => exact .inl rfl
    | some value => exact .inr (congrArg some h)
  · intro h
    rcases get_eq_expected_or_failed s tab with
      hall | ⟨raw, left, hraw, hread⟩
    · exact hall s.empty
    · rw [get_failed hraw hread, expected_failed hraw hread]
      rcases h raw left hraw hread with hleft | hleft
      · rw [hleft]
        rfl
      · rw [hleft]
        rfl

end Setting

/-- The entries of {lit}`[http_headers]` that the loop takes. -/
def takenHeaders (inTab : TomlTable) : Nat -> Nat -> List (CString × CString)
  | 0, _ => []
  | more + 1, size =>
      match tomlKeyIn inTab size with
      | none => []
      | some key =>
          match tomlRawIn inTab key with
          | none => []
          | some raw => (key, raw) :: takenHeaders inTab more (size + 1)

def headerEntries (inTab : TomlTable) : List (CString × CString) :=
  takenHeaders inTab (maxbuf + 1) 0

theorem takenHeaders_eq {inTab : TomlTable} (hkeys : inTab.keys.Nodup)
    (more size : Nat) :
    takenHeaders inTab more size = (inTab.kval.drop size).take more := by
  induction more generalizing size with
  | zero => rw [takenHeaders, List.take_zero]
  | succ more ih =>
      rw [takenHeaders]
      rcases Nat.lt_or_ge size inTab.kval.length with hlt | hge
      · rw [tomlKeyIn_of_lt hlt]
        dsimp only
        rw [tomlRawIn_of_mem hkeys (List.getElem_mem hlt)]
        dsimp only
        rw [ih, List.drop_eq_getElem_cons hlt, List.take_succ_cons]
      · rw [List.drop_eq_nil_of_le hge, List.take_nil]
        cases hkey : tomlKeyIn inTab size with
        | none => rfl
        | some key =>
            dsimp only
            rw [tomlRawIn_of_le hkeys hge hkey]

/-- In a table with distinct keys the entries are the first 1025 values. -/
theorem headerEntries_eq {inTab : TomlTable} (hkeys : inTab.keys.Nodup) :
    headerEntries inTab = inTab.kval.take (maxbuf + 1) :=
  takenHeaders_eq hkeys (maxbuf + 1) 0

/-- A header has the key and the parsed value of its entry. -/
def HeaderParsed (entry : CString × CString) (header : HttpHeader) : Prop :=
  header.key = entry.1 ∧ tomlRtos entry.2 = .read header.value

namespace StringField

/-- The parsed value or the default, without a last slash where that is cut. -/
def expected (f : StringField) (tab : TomlTable) : CharPtr :=
  if f = apiEndpoint ∨ f = cacheDir then (f.setting.expected tab).trimmed
  else f.setting.expected tab

end StringField

/-- Every field is the parsed value or the default; with {lit}`use_cached` the
cache daemon is enabled. -/
structure Parsed (tab : TomlTable) (c : ConfImage) : Prop where
  string : forall f, c.string f = f.expected tab
  int : forall f, c.int f =
    if f = .cachedEnable ∧ IntField.useCached.setting.expected tab ≠ 0 then 1
    else f.setting.expected tab
  long : forall f, c.long f = (f.setting.expected tab).toInt64
  absent : tomlTableIn tab (literal "http_headers") = none ->
    c.httpHeaders = none
  headers : forall inTab,
    tomlTableIn tab (literal "http_headers") = some inTab ->
      exists headers, c.httpHeaders = some headers ∧
        List.Forall₂ HeaderParsed (headerEntries inTab) headers

/-- Two loads that return 0 agree in every field, whatever the memory held
before, and every field is the parsed value or the default. -/
def LoadsFromFile (tab : TomlTable) : Prop :=
  forall before before' fresh fresh' c c',
    stnsLoadConfig (some tab) before fresh = some (0, c) ->
      stnsLoadConfig (some tab) before' fresh' = some (0, c') ->
        c = c' ∧ Parsed tab c

/-- Every value that a reader refuses has left the default in its field, and
every header value is read.  The switch in the table {lit}`cached` does not
matter under {lit}`use_cached`. -/
structure Settled (tab : TomlTable) : Prop where
  string : forall f : StringField, f.setting.Settled tab
  int : forall f : IntField, f.setting.Settled tab ∨
    (f = .cachedEnable ∧
      IntField.useCached.setting.raw tab = some (literal "true"))
  long : forall f : LongField, f.setting.SettledFromDefault tab
  headers : forall inTab,
    tomlTableIn tab (literal "http_headers") = some inTab ->
      forall entry, entry ∈ headerEntries inTab ->
        exists value, tomlRtos entry.2 = .read value

theorem StringField.method_eq (f : StringField) :
    f.setting.method = tomlRtos := by
  cases f <;> rfl

theorem useCached_expected_iff (tab : TomlTable) :
    IntField.useCached.setting.expected tab ≠ 0 <->
      IntField.useCached.setting.raw tab = some (literal "true") := by
  unfold Setting.expected
  cases hraw : IntField.useCached.setting.raw tab with
  | none => simp [IntField.setting]
  | some raw =>
      rw [Option.bind_some, Option.some_inj]
      show ((tomlRtob raw).value?).getD 0 ≠ 0 <-> _
      unfold tomlRtob
      split
      · rename_i htrue
        exact iff_of_true (by decide) htrue
      · rename_i htrue
        refine iff_of_false ?_ htrue
        split
        · exact fun h => h rfl
        · exact fun h => h rfl

/-!
## Settled files
-/

section Load

variable {tab : TomlTable} {before : ConfImage} {fresh : Nat -> CharPtr}

theorem loadHeaders_parsed {inTab : TomlTable} (more size : Nat)
    (h : forall entry, entry ∈ takenHeaders inTab more size ->
      exists value, tomlRtos entry.2 = .read value) :
    List.Forall₂ HeaderParsed (takenHeaders inTab more size)
      (loadHeaders inTab fresh more size) := by
  induction more generalizing size with
  | zero => exact .nil
  | succ more ih =>
      unfold takenHeaders loadHeaders
      unfold takenHeaders at h
      cases hkey : tomlKeyIn inTab size with
      | none => exact .nil
      | some key =>
          rw [hkey] at h
          dsimp only at h ⊢
          cases hraw : tomlRawIn inTab key with
          | none => exact .nil
          | some raw =>
              rw [hraw] at h
              dsimp only at h ⊢
              rcases h (key, raw) List.mem_cons_self with ⟨value, hread⟩
              refine .cons ⟨rfl, ?_⟩ (ih (size + 1) ?_)
              · dsimp only at hread ⊢
                rw [hread]
                rfl
              · intro entry hmem
                exact h entry (List.mem_cons_of_mem _ hmem)

theorem read_of_parsed {entries : List (CString × CString)}
    {headers : List HttpHeader}
    (h : List.Forall₂ HeaderParsed entries headers)
    {entry : CString × CString} (hentry : entry ∈ entries) :
    exists value, tomlRtos entry.2 = .read value := by
  induction h with
  | nil => cases hentry
  | cons hfirst _ ih =>
      rcases List.mem_cons.mp hentry with rfl | hrest
      · exact ⟨_, hfirst.right⟩
      · exact ih hrest

theorem headers_unique {entries : List (CString × CString)}
    {headers headers' : List HttpHeader}
    (h : List.Forall₂ HeaderParsed entries headers)
    (h' : List.Forall₂ HeaderParsed entries headers') :
    headers = headers' := by
  refine List.right_unique_forall₂' ?_ h h'
  intro entry header header' hparsed hparsed'
  have hkey : header.key = header'.key :=
    hparsed.left.trans hparsed'.left.symm
  have hvalue := hparsed.right.symm.trans hparsed'.right
  cases header
  cases header'
  cases hkey
  cases hvalue
  rfl

/-- The file and the defaults leave nothing open. -/
theorem Parsed.unique {c c' : ConfImage} (h : Parsed tab c)
    (h' : Parsed tab c') : c = c' := by
  have hstring : c.string = c'.string :=
    funext fun f => (h.string f).trans (h'.string f).symm
  have hint : c.int = c'.int :=
    funext fun f => (h.int f).trans (h'.int f).symm
  have hlong : c.long = c'.long :=
    funext fun f => (h.long f).trans (h'.long f).symm
  have hheaders : c.httpHeaders = c'.httpHeaders := by
    cases htable : tomlTableIn tab (literal "http_headers") with
    | none => exact (h.absent htable).trans (h'.absent htable).symm
    | some inTab =>
        rcases h.headers inTab htable with ⟨headers, hsome, hparsed⟩
        rcases h'.headers inTab htable with ⟨headers', hsome', hparsed'⟩
        rw [hsome, hsome', headers_unique hparsed hparsed']
  cases c
  cases c'
  cases hstring
  cases hint
  cases hlong
  cases hheaders
  rfl

/-- A settled file fills every field from itself and the defaults. -/
theorem parsed_of_settled (h : Settled tab) (before : ConfImage)
    (fresh : Nat -> CharPtr) :
    Parsed tab (loaded tab before fresh) := by
  have hstring : forall f : StringField,
      f.uncut tab before = f.setting.expected tab :=
    fun f => Setting.get_of_settled (h.string f) _
  refine ⟨?_, ?_, ?_, ?_, ?_⟩
  · intro f
    unfold loaded StringField.expected
    dsimp only
    rw [hstring f]
  · intro f
    have hused : IntField.useCached.setting.get tab
        (before.int .useCached) = IntField.useCached.setting.expected tab := by
      rcases h.int .useCached with hsettled | hother
      · exact Setting.get_of_settled hsettled _
      · exact absurd hother.left (by decide)
    unfold loaded
    dsimp only
    rw [hused]
    rcases h.int f with hsettled | ⟨hfield, htrue⟩
    · rw [Setting.get_of_settled hsettled]
    · have hon := (useCached_expected_iff tab).mpr htrue
      rw [if_pos ⟨hfield, hon⟩, if_pos ⟨hfield, hon⟩]
  · intro f
    unfold loaded
    dsimp only
    rw [Setting.get_empty_iff.mpr (h.long f)]
  · intro hnone
    unfold loaded
    dsimp only
    rw [hnone]
    rfl
  · intro inTab htable
    refine ⟨loadHeaders inTab fresh (maxbuf + 1) 0, ?_, ?_⟩
    · unfold loaded
      dsimp only
      rw [htable]
      rfl
    · exact loadHeaders_parsed _ _ (h.headers inTab htable)

/-!
## Foreign memory
-/

/-- Memory in which no field holds its default and no pointer is invalid. -/
def foreign : ConfImage where
  string f := if f.setting.empty = .null then .string CString.empty else .null
  int f := f.setting.empty + 1
  long _ := 0
  httpHeaders := none

theorem foreign_string_ne (f : StringField) :
    foreign.string f ≠ f.setting.empty := by
  cases f <;> decide

theorem foreign_int_ne (f : IntField) : foreign.int f ≠ f.setting.empty := by
  cases f <;> decide

theorem trimmed_eq_null_iff (p : CharPtr) : p.trimmed = .null <-> p = .null := by
  cases p with
  | null => exact Iff.rfl
  | wild => exact Iff.rfl
  | string s =>
      unfold CharPtr.trimmed
      dsimp only
      split
      · exact iff_of_false (fun h => by cases h) (fun h => by cases h)
      · exact iff_of_false (fun h => by cases h) (fun h => by cases h)

theorem StringField.left_of_failed {f : StringField} {raw : CString}
    {left : Option CharPtr} (hread : f.setting.method raw = .failed left) :
    left = none ∨ left = some .null := by
  rw [f.method_eq] at hread
  rcases tomlRtos_cases raw with ⟨s, hok⟩ | hnone | hnull
  · rw [hok] at hread
    cases hread
  · rw [hnone] at hread
    cases hread
    exact .inl rfl
  · rw [hnull] at hread
    cases hread
    exact .inr rfl

theorem StringField.expected_ne_wild (f : StringField) :
    f.setting.expected tab ≠ .wild := by
  have hempty : f.setting.empty ≠ .wild := by
    cases f <;> decide
  unfold Setting.expected
  cases f.setting.raw tab with
  | none => exact hempty
  | some raw =>
      rw [Option.bind_some, f.method_eq]
      rcases tomlRtos_cases raw with ⟨s, hread⟩ | hread | hread
      · rw [hread]
        exact fun h => by cases h
      · rw [hread]
        exact hempty
      · rw [hread]
        exact hempty

theorem foreign_uncut_ne_wild (f : StringField) :
    f.uncut tab foreign ≠ .wild := by
  have hforeign : foreign.string f ≠ .wild := by
    cases f <;> decide
  unfold StringField.uncut
  rcases Setting.get_eq_expected_or_failed f.setting tab with
    hall | ⟨raw, left, hraw, hread⟩
  · rw [hall]
    exact f.expected_ne_wild
  · rw [Setting.get_failed hraw hread]
    rcases StringField.left_of_failed hread with rfl | rfl
    · exact hforeign
    · exact fun h => by cases h

/-- A string whose slash is cut has a default, and what a refused value leaves
over foreign memory is NULL. -/
theorem settled_of_trimmed {f : StringField}
    (hcut : f = .apiEndpoint ∨ f = .cacheDir)
    (h : (f.uncut tab foreign).trimmed = (f.setting.expected tab).trimmed) :
    f.setting.Settled tab := by
  have hempty : f.setting.empty ≠ .null := by
    rcases hcut with rfl | rfl <;> decide
  have hforeign : foreign.string f = .null := by
    rcases hcut with rfl | rfl <;> rfl
  intro raw left hraw hread
  exfalso
  have hleft : f.uncut tab foreign = .null := by
    unfold StringField.uncut
    rw [Setting.get_failed hraw hread, hforeign]
    rcases StringField.left_of_failed hread with rfl | rfl
    · rfl
    · rfl
  rw [hleft, Setting.expected_failed hraw hread] at h
  exact hempty ((trimmed_eq_null_iff _).mp h.symm)

theorem settled_of_parsed (h : Parsed tab (loaded tab foreign fresh)) :
    Settled tab := by
  refine ⟨?_, ?_, ?_, ?_⟩
  · intro f
    have hf := h.string f
    unfold loaded StringField.expected at hf
    dsimp only at hf
    by_cases hcut : f = .apiEndpoint ∨ f = .cacheDir
    · rw [if_pos hcut, if_pos hcut] at hf
      exact settled_of_trimmed hcut hf
    · rw [if_neg hcut, if_neg hcut] at hf
      exact Setting.settled_of_get (foreign_string_ne f) hf
  · intro f
    have hf := h.int f
    have hused := h.int .useCached
    unfold loaded at hf hused
    dsimp only at hf hused
    rw [if_neg (fun hboth => absurd hboth.left (by decide)),
      if_neg (fun hboth => absurd hboth.left (by decide))] at hused
    rw [hused] at hf
    by_cases hon : f = .cachedEnable ∧
        IntField.useCached.setting.expected tab ≠ 0
    · exact .inr ⟨hon.left, (useCached_expected_iff tab).mp hon.right⟩
    · rw [if_neg hon, if_neg hon] at hf
      exact .inl (Setting.settled_of_get (foreign_int_ne f) hf)
  · intro f
    have hf := h.long f
    have hvalue := congrArg Int64.toInt hf
    unfold loaded at hvalue
    dsimp only at hvalue
    rw [Int32.toInt_toInt64, Int32.toInt_toInt64] at hvalue
    exact Setting.get_empty_iff.mp (Int32.toInt_inj.mp hvalue)
  · intro inTab htable entry hentry
    rcases h.headers inTab htable with ⟨headers, _, hparsed⟩
    exact read_of_parsed hparsed hentry

end Load

/-- The configuration comes from the file alone if and only if the file is
settled. -/
theorem loadsFromFile_iff (tab : TomlTable) :
    LoadsFromFile tab <-> Settled tab := by
  constructor
  · intro h
    have hload : stnsLoadConfig (some tab) foreign (fun _ => .null) =
        some (0, loaded tab foreign (fun _ => .null)) :=
      stnsLoadConfig_eq_some.mpr
        ⟨⟨foreign_uncut_ne_wild _, foreign_uncut_ne_wild _⟩, rfl⟩
    exact settled_of_parsed (h _ _ _ _ _ _ hload hload).right
  · intro h before before' fresh fresh' c c' hload hload'
    rcases stnsLoadConfig_eq_some.mp hload with ⟨_, rfl⟩
    rcases stnsLoadConfig_eq_some.mp hload' with ⟨_, rfl⟩
    have hparsed := parsed_of_settled h before fresh
    have hparsed' := parsed_of_settled h before' fresh'
    exact ⟨hparsed.unique hparsed', hparsed⟩

/-- The file {lit}`uid_shift = 0x10`; the reader refuses a number in
hexadecimal. -/
def hexShift : TomlTable :=
  .mk [(literal "uid_shift", literal "0x10")] [] []

/-- Memory that holds the same number in every {lit}`int`. -/
def memoryOf (value : Int32) : ConfImage :=
  ⟨fun _ => .null, fun _ => value, fun _ => 0, none⟩

/-- The shift is then what the memory of the structure held. -/
theorem shift_from_memory :
    (stnsLoadConfig (some hexShift) (memoryOf 1000) (fun _ => .null)).map
        (fun result => (result.1, result.2.int .uidShift)) = some (0, 1000) ∧
      (stnsLoadConfig (some hexShift) (memoryOf 2000) (fun _ => .null)).map
        (fun result => (result.1, result.2.int .uidShift)) = some (0, 2000) ∧
      ¬ LoadsFromFile hexShift := by
  refine ⟨by decide, by decide, ?_⟩
  intro h
  have hload : forall value,
      stnsLoadConfig (some hexShift) (memoryOf value) (fun _ => .null) =
        some (0, loaded hexShift (memoryOf value) (fun _ => .null)) :=
    fun value => stnsLoadConfig_eq_some.mpr
      ⟨⟨CharPtr.noConfusion, CharPtr.noConfusion⟩, rfl⟩
  have hsame := (h _ _ _ _ _ _ (hload 1000) (hload 2000)).left
  have hshift := congrFun (congrArg ConfImage.int hsame) .uidShift
  exact absurd hshift (by decide)

/-!
## The configuration of the client
-/

/-- The string that a pointer leads to. -/
def CharPtr.text : CharPtr -> Option CString
  | string s => some s
  | null => none
  | wild => none

/-- What requests and lookups use of the structure. -/
def ConfImage.conf (c : ConfImage) : Option StnsConf :=
  (c.string .cacheDir).text.map (fun dir =>
    { cacheDir := dir
      queryWrapper := (c.string .queryWrapper).text
      chainSshWrapper := (c.string .chainSshWrapper).text
      cachedEnable := c.int .cachedEnable
      uidShift := c.int .uidShift
      gidShift := c.int .gidShift
      requestRetry := c.int .requestRetry
      requestLocktime := c.int .requestLocktime
      cache := c.int .cache
      cacheTtl := c.int .cacheTtl
      negativeCacheTtl := c.int .negativeCacheTtl })

theorem trimmed_string (s : CString) :
    exists t, (CharPtr.string s).trimmed = .string t := by
  unfold CharPtr.trimmed
  dsimp only
  split
  · exact ⟨_, rfl⟩
  · exact ⟨s, rfl⟩

theorem StringField.expected_string (f : StringField) (tab : TomlTable)
    {s : CString} (hempty : f.setting.empty = .string s) :
    exists t, f.setting.expected tab = .string t := by
  unfold Setting.expected
  cases f.setting.raw tab with
  | none => exact ⟨s, hempty⟩
  | some raw =>
      rw [Option.bind_some, f.method_eq]
      cases hread : tomlRtos raw with
      | read value => exact tomlRtos_read hread
      | failed left => exact ⟨s, hempty⟩

/-- What comes from the file alone is a configuration for requests and
lookups. -/
theorem Parsed.conf {tab : TomlTable} {c : ConfImage} (h : Parsed tab c) :
    exists conf, c.conf = some conf := by
  rcases StringField.expected_string .cacheDir tab rfl with ⟨s, hs⟩
  rcases trimmed_string s with ⟨dir, hdir⟩
  have hcache : c.string .cacheDir = .string dir := by
    rw [h.string, ← hdir, ← hs]
    rfl
  unfold ConfImage.conf
  rw [hcache]
  exact ⟨_, rfl⟩

/-- An empty file gives the defaults of a configuration. -/
theorem conf_of_empty {before c : ConfImage} {fresh : Nat -> CharPtr}
    (h : stnsLoadConfig (some .empty) before fresh = some (0, c)) :
    c.conf = some {} := by
  rcases stnsLoadConfig_eq_some.mp h with ⟨_, rfl⟩
  rfl

end Stns
