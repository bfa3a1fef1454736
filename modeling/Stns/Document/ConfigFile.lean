import Stns.Document.LoadDefined
import Stns.Document.TomlRoundTrip
import Stns.Foundation.DecimalText

/-!
# Configuration files

A load parses the file and reads the fields from the tables of the root.  In
the other direction a configuration is written as a file: a line for a field at
the top, and a table for the fields below one and for the headers.
-/

namespace Stns

open TomlParser

/-!
## The load of a file
-/

namespace TomlParser

mutual

/-- What the readers see of a table. -/
def TableNode.view : TableNode -> TomlTable
  | .mk _ kval arr tab => .mk kval (arr.map Prod.fst) (viewTabs tab)

def viewTabs : List (CString × TableNode) -> List (CString × TomlTable)
  | [] => []
  | (key, t) :: rest => (key, t.view) :: viewTabs rest

end

end TomlParser

/-- {lit}`stns_load_config` on a file with some content; {lit}`none` is
undefined behaviour, or a parse that does not return. -/
def stnsLoadConfigFile (valtype : CString -> Char) (content : Bytes)
    (before : ConfImage) (fresh : Nat -> CharPtr) : Option (Int × ConfImage) :=
  match tomlParseFile valtype content with
  | .ok tab => stnsLoadConfig (some tab.view) before fresh
  | .error (.error _) => stnsLoadConfig none before fresh
  | .error _ => none

/-!
## Writing a configuration
-/

/-- A field with a key in the file. -/
inductive ConfigKey where
  | string (f : StringField)
  | int (f : IntField)
  | long (f : LongField)

namespace ConfigKey

def all : List ConfigKey :=
  [.string .apiEndpoint, .string .cacheDir, .string .authToken, .string .user,
    .string .password, .string .queryWrapper, .string .chainSshWrapper,
    .string .httpProxy, .string .tlsKey, .string .tlsCert, .string .tlsCa,
    .string .cachedUnixSocket, .int .useCached, .int .cachedEnable,
    .int .uidShift, .int .gidShift, .int .cacheTtl, .int .negativeCacheTtl,
    .int .cache, .int .requestRetry, .int .requestLocktime,
    .long .sslVerify, .long .requestTimeout, .long .httpLocation]

theorem mem_all (k : ConfigKey) : k ∈ all := by
  cases k with
  | string f => cases f <;> simp [all]
  | int f => cases f <;> simp [all]
  | long f => cases f <;> simp [all]

def table : ConfigKey -> Option String
  | string f => f.setting.table
  | int f => f.setting.table
  | long f => f.setting.table

def key : ConfigKey -> CString
  | string f => literal f.setting.key
  | int f => literal f.setting.key
  | long f => literal f.setting.key

end ConfigKey

/-- A field that holds 0 or 1. -/
def IntField.isSwitch : IntField -> Bool
  | useCached => true
  | cachedEnable => true
  | cache => true
  | _ => false

def LongField.isSwitch : LongField -> Bool
  | sslVerify => true
  | httpLocation => true
  | requestTimeout => false

def switchText (value : Int32) : CString :=
  if value = 0 then literal "false" else literal "true"

def numberText (value : Int32) : CString :=
  ⟨Decimal.formatInt value, Decimal.nulFree_formatInt value⟩

def StringField.isCut (f : StringField) : Bool :=
  f = .apiEndpoint ∨ f = .cacheDir

/-- The value of a field in the file; a string that loses a slash gets one
more. -/
def ConfigKey.text (c : ConfImage) : ConfigKey -> Option CString
  | string f =>
      match c.string f with
      | .string s =>
          some (quoted (if f.isCut = true then s ++ literal "/" else s))
      | _ => none
  | int f =>
      some (if f.isSwitch = true then switchText (c.int f)
        else numberText (c.int f))
  | long f =>
      some (if f.isSwitch = true then switchText (c.long f).toInt32
        else numberText (c.long f).toInt32)

def HttpHeader.text (h : HttpHeader) : CString :=
  match h.value with
  | .string s => quoted s
  | _ => quoted CString.empty

/-- The lines of a table of the file. -/
def configLines (c : ConfImage) (table : Option String) :
    List (CString × CString) :=
  (ConfigKey.all.filter (fun k => k.table = table)).filterMap
    (fun k => (k.text c).map (fun raw => (k.key, raw)))

def headerTable (headers : List HttpHeader) : TableNode :=
  .mk false (headers.map (fun h => (h.key, h.text))) [] []

def configTables (c : ConfImage) : List (CString × TableNode) :=
  [(literal "tls", .mk false (configLines c (some "tls")) [] []),
    (literal "cached", .mk false (configLines c (some "cached")) [] [])] ++
  match c.httpHeaders with
  | none => []
  | some headers => [(literal "http_headers", headerTable headers)]

/-- The tables that hold a configuration. -/
def configTable (c : ConfImage) : TableNode :=
  .mk false (configLines c none) [] (configTables c)

/-- A configuration as a file holds one: a string is there or is NULL by
default, a switch is 0 or 1, a number fits into an {lit}`int`, and the headers
have distinct names. -/
structure Storable (c : ConfImage) : Prop where
  string : forall f, (exists s, c.string f = .string s) ∨
    (c.string f = .null ∧ f.setting.empty = .null)
  short : forall f s, f.isCut = true -> c.string f = .string s ->
    s.length < maxBufferSize
  switch : forall f, f.isSwitch = true -> c.int f = 0 ∨ c.int f = 1
  daemon : c.int .useCached = 1 -> c.int .cachedEnable = 1
  long : forall f, c.long f = (c.long f).toInt32.toInt64
  longSwitch : forall f, f.isSwitch = true -> c.long f = 0 ∨ c.long f = 1
  count : forall headers, c.httpHeaders = some headers ->
    headers.length <= maxbuf + 1
  names : forall headers, c.httpHeaders = some headers ->
    (headers.map HttpHeader.key).Nodup
  header : forall headers, c.httpHeaders = some headers ->
    forall h, h ∈ headers -> lineFeed ∉ h.key.chars ∧
      exists s, h.value = .string s

/-!
## Lines
-/

section Lines

theorem findMember_filterMap {item value : Type} {key : item -> CString}
    {text : item -> Option value} {list : List item}
    (hnodup : (list.map key).Nodup) {a : item} (ha : a ∈ list) :
    findMember (key a)
      (list.filterMap (fun a => (text a).map (fun v => (key a, v)))) =
        text a := by
  induction list with
  | nil => cases ha
  | cons b list ih =>
      rcases List.nodup_cons.mp hnodup with ⟨hb, hlist⟩
      rcases List.mem_cons.mp ha with rfl | ha
      · have hnone : findMember (key a) (list.filterMap
            (fun a => (text a).map (fun v => (key a, v)))) = none := by
          apply findMember_eq_none
          intro hmem
          rcases List.mem_map.mp hmem with ⟨e, he, hkey⟩
          rcases List.mem_filterMap.mp he with ⟨d, hd, hsome⟩
          rcases Option.map_eq_some_iff.mp hsome with ⟨v, _, rfl⟩
          apply hb
          rw [← hkey]
          exact List.mem_map_of_mem hd
        cases htext : text a with
        | none => simp only [List.filterMap_cons, htext, Option.map_none, hnone]
        | some v =>
            simp only [List.filterMap_cons, htext, Option.map_some, findMember,
              List.find?_cons, decide_true]
      · have hne : key a ≠ key b := by
          intro heq
          apply hb
          rw [← heq]
          exact List.mem_map_of_mem ha
        have hrest := ih hlist ha
        cases htext : text b with
        | none => simp only [List.filterMap_cons, htext, Option.map_none, hrest]
        | some v =>
            simp only [List.filterMap_cons, htext, Option.map_some]
            unfold findMember at hrest ⊢
            rw [List.find?_cons_of_neg (by simpa using hne), hrest]

theorem keys_filterMap {item value : Type} (key : item -> CString)
    (text : item -> Option value) (list : List item) :
    ((list.filterMap (fun a => (text a).map (fun v => (key a, v)))).map
      Prod.fst).Sublist (list.map key) := by
  induction list with
  | nil => exact .slnil
  | cons a list ih =>
      cases htext : text a with
      | none =>
          simp only [List.filterMap_cons, htext, Option.map_none]
          exact ih.cons _
      | some v =>
          simp only [List.filterMap_cons, htext, Option.map_some]
          exact ih.cons_cons _

variable {c : ConfImage}

/-- The keys of a table of the file, whatever it holds. -/
def fileKeys (table : Option String) : List CString :=
  (ConfigKey.all.filter (fun k => k.table = table)).map ConfigKey.key

theorem fileKeys_nodup (table : Option String) (h : table = none ∨
    table = some "tls" ∨ table = some "cached") :
    (fileKeys table).Nodup := by
  rcases h with rfl | rfl | rfl <;> decide

theorem lookup_configLines {k : ConfigKey} (h : k.table = none ∨
    k.table = some "tls" ∨ k.table = some "cached") :
    findMember k.key (configLines c k.table) = k.text c :=
  findMember_filterMap (fileKeys_nodup k.table h)
    (List.mem_filter.mpr ⟨k.mem_all, decide_eq_true rfl⟩)

end Lines

/-!
## Reading the lines
-/

section Read

variable {c : ConfImage}

namespace ConfigKey

/-- The raw value of a key in a file. -/
def raw (k : ConfigKey) (tab : TomlTable) : Option CString :=
  match k.table with
  | none => tomlRawIn tab k.key
  | some table =>
      match tomlTableIn tab (literal table) with
      | none => none
      | some inTab => tomlRawIn inTab k.key

theorem table_cases (k : ConfigKey) : k.table = none ∨
    k.table = some "tls" ∨ k.table = some "cached" := by
  cases k with
  | string f => cases f <;> decide
  | int f => cases f <;> decide
  | long f => cases f <;> decide

end ConfigKey

theorem view_tls : tomlTableIn (configTable c).view (literal "tls") =
    some (.mk (configLines c (some "tls")) [] []) := by
  rfl

theorem view_cached : tomlTableIn (configTable c).view (literal "cached") =
    some (.mk (configLines c (some "cached")) [] []) := by
  rfl

theorem view_headers : tomlTableIn (configTable c).view
    (literal "http_headers") =
      c.httpHeaders.map (fun headers => (headerTable headers).view) := by
  cases hheaders : c.httpHeaders with
  | none =>
      unfold configTable configTables
      rw [hheaders]
      rfl
  | some headers =>
      unfold configTable configTables
      rw [hheaders]
      rfl

/-- The file holds the text of every field. -/
theorem raw_configTable (k : ConfigKey) :
    k.raw (configTable c).view = k.text c := by
  have hlookup := lookup_configLines (c := c) k.table_cases
  unfold ConfigKey.raw
  rcases k.table_cases with htable | htable | htable
  · rw [htable] at hlookup ⊢
    exact hlookup
  · rw [htable] at hlookup ⊢
    dsimp only
    rw [view_tls]
    exact hlookup
  · rw [htable] at hlookup ⊢
    dsimp only
    rw [view_cached]
    exact hlookup

theorem tomlRtob_switchText {value : Int32} (h : value = 0 ∨ value = 1) :
    tomlRtob (switchText value) = .read value := by
  rcases h with rfl | rfl <;> rfl

theorem stripUnderscores_digits {digits : Bytes}
    (h : forall c, c ∈ digits -> c ≠ underscore) {room : Nat}
    (hroom : digits.length < room) :
    stripUnderscores digits room = some digits := by
  induction digits generalizing room with
  | nil =>
      cases room with
      | zero => exact absurd hroom (Nat.lt_irrefl 0)
      | succ room => rfl
  | cons c digits ih =>
      cases room with
      | zero => exact absurd hroom (Nat.not_lt_zero _)
      | succ room =>
          have hrest := ih (fun d hd => h d (List.mem_cons_of_mem _ hd))
            (Nat.lt_of_succ_lt_succ hroom)
          unfold stripUnderscores
          rw [if_neg (h c List.mem_cons_self), hrest]
          rfl

theorem formatNat_word (n : Nat) :
    (forall c, c ∈ Decimal.formatNat n -> c ≠ underscore) ∧
      (Decimal.formatNat n).head? ≠ some Decimal.plus ∧
      (Decimal.formatNat n).head? ≠ some Decimal.minus := by
  have hdigit : forall c, Decimal.isDigit c = false ->
      c ∉ Decimal.formatNat n := by
    intro c hc hmem
    rw [Decimal.isDigit_of_mem_formatNat hmem] at hc
    cases hc
  refine ⟨?_, ?_, ?_⟩
  · rintro c hc rfl
    exact hdigit _ rfl hc
  · intro hhead
    exact hdigit _ rfl (List.mem_of_mem_head? hhead)
  · intro hhead
    exact hdigit _ rfl (List.mem_of_mem_head? hhead)

/-- A number that is written is read back. -/
theorem tomlRtoi_numberText (value : Int32) :
    tomlRtoi (numberText value) = .read value := by
  have hlow := value.le_toInt
  have hhigh := value.toInt_lt
  rcases formatNat_word value.toInt.natAbs with ⟨hunderscore, hplus, hminus⟩
  have hlength := Decimal.formatNat_length (n := value.toInt.natAbs) (by omega)
  rcases Int.lt_trichotomy value.toInt 0 with hneg | hzero | hpos
  · have hchars : (numberText value).chars =
        Decimal.minus :: Decimal.formatNat value.toInt.natAbs :=
      Decimal.formatInt_of_neg hneg
    have hnatAbs : 0 < value.toInt.natAbs := by omega
    have hread := (Decimal.strtoll_formatNat hnatAbs (by omega)).right
    have hvalue : Int32.ofInt (-(value.toInt.natAbs : Int)) = value := by
      rw [← Int32.toInt_inj, Int32.toInt_ofInt_of_le (by omega) (by omega)]
      omega
    unfold tomlRtoi
    rw [hchars]
    simp only [List.head?_cons, or_true, if_true, List.tail_cons,
      List.take_succ_cons, List.take_zero, List.length_singleton]
    rw [if_neg (Decimal.formatNat_head hnatAbs),
      stripUnderscores_digits hunderscore (by omega)]
    dsimp only
    rw [List.singleton_append, hread, hvalue]
    exact if_pos ⟨rfl, rfl⟩
  · have hvalue : value = 0 := Int32.toInt_inj.mp hzero
    rw [hvalue]
    rfl
  · have hchars : (numberText value).chars =
        Decimal.formatNat value.toInt.natAbs :=
      Decimal.formatInt_of_nonneg (Int.le_of_lt hpos)
    have hnatAbs : 0 < value.toInt.natAbs := by omega
    have hread := (Decimal.strtoll_formatNat hnatAbs (by omega)).left
    have hvalue : Int32.ofInt (value.toInt.natAbs : Int) = value := by
      rw [← Int32.toInt_inj, Int32.toInt_ofInt_of_le (by omega) (by omega)]
      omega
    unfold tomlRtoi
    rw [hchars]
    simp only [hplus, hminus, or_self, if_false]
    rw [if_neg (Decimal.formatNat_head hnatAbs),
      stripUnderscores_digits hunderscore
        (by rw [List.length_nil]; omega)]
    dsimp only
    rw [List.nil_append, hread, hvalue]
    exact if_pos ⟨rfl, rfl⟩

end Read

/-!
## Every configuration has a file
-/

section Storable

variable {c : ConfImage}

theorem isToken_switchText (value : Int32) :
    IsToken false (switchText value).chars := by
  unfold switchText
  split
  · exact isToken_bare (by decide) (by decide)
  · exact isToken_bare (by decide) (by decide)

theorem isToken_numberText (value : Int32) :
    IsToken false (numberText value).chars := by
  have hbare : forall d, Decimal.isDigit d = true ->
      isBare false d = true := by
    intro d hd
    have halnum : Percent.isAlnum d = true := by
      show (Decimal.isDigit d || _ || _) = true
      rw [hd, Bool.true_or, Bool.true_or]
    unfold isBare
    rw [if_neg (fun h => Bool.noConfusion h.right), halnum, Bool.true_or]
  have hdigits : forall d, d ∈ Decimal.formatNat value.toInt.natAbs ->
      isBare false d = true :=
    fun d hd => hbare d (Decimal.isDigit_of_mem_formatNat hd)
  rcases Int.lt_or_le value.toInt 0 with hneg | hpos
  · have hchars : (numberText value).chars =
        Decimal.minus :: Decimal.formatNat value.toInt.natAbs :=
      Decimal.formatInt_of_neg hneg
    rw [hchars]
    refine isToken_bare (List.cons_ne_nil _ _) (List.all_eq_true.mpr ?_)
    intro d hd
    rcases List.mem_cons.mp hd with rfl | hd
    · decide
    · exact hdigits d hd
  · have hchars : (numberText value).chars =
        Decimal.formatNat value.toInt.natAbs :=
      Decimal.formatInt_of_nonneg hpos
    rw [hchars]
    exact isToken_bare (Decimal.formatNat_ne_nil _)
      (List.all_eq_true.mpr hdigits)

theorem isToken_text {k : ConfigKey} {raw : CString}
    (h : k.text c = some raw) : IsToken false raw.chars := by
  cases k with
  | string f =>
      unfold ConfigKey.text at h
      dsimp only at h
      split at h
      · cases h
        exact isToken_quoted false _
      · cases h
  | int f =>
      cases h
      split
      · exact isToken_switchText _
      · exact isToken_numberText _
  | long f =>
      cases h
      split
      · exact isToken_switchText _
      · exact isToken_numberText _

theorem isToken_headerText (h : HttpHeader) : IsToken false h.text.chars := by
  unfold HttpHeader.text
  split
  · exact isToken_quoted false _
  · exact isToken_quoted false _

theorem keys_configLines (c : ConfImage) (table : Option String) :
    ((configLines c table).map Prod.fst).Sublist (fileKeys table) :=
  keys_filterMap ConfigKey.key (ConfigKey.text c) _

/-- A table with values only can be written. -/
theorem writtenTable_values {valtype : CString -> Char}
    {kval : List (CString × CString)} (hkeys : (kval.map Prod.fst).Nodup)
    (hlines : forall key, key ∈ kval.map Prod.fst -> lineFeed ∉ key.chars)
    (hkval : forall e, e ∈ kval -> IsToken false e.2.chars) :
    WrittenTable valtype (.mk false kval [] []) := by
  have hsame : (TableNode.mk false kval [] []).keys = kval.map Prod.fst :=
    List.append_nil _
  refine .mk rfl ?_ ?_ hkval (fun _ h => absurd h List.not_mem_nil)
    (fun _ h => absurd h List.not_mem_nil)
  · rw [hsame]
    exact hkeys
  · rw [hsame]
    exact hlines

theorem writtenTable_configLines (valtype : CString -> Char) (c : ConfImage)
    {table : Option String} (h : table = none ∨ table = some "tls" ∨
      table = some "cached") :
    WrittenTable valtype (.mk false (configLines c table) [] []) := by
  have hsub := keys_configLines c table
  refine writtenTable_values (hsub.nodup (fileKeys_nodup table h)) ?_ ?_
  · intro key hkey
    have hline : (fileKeys table).all
        (fun key => !(key.chars.contains lineFeed)) = true := by
      rcases h with rfl | rfl | rfl <;> decide
    have hthis := List.all_eq_true.mp hline key (hsub.subset hkey)
    intro hmem
    rw [List.contains_iff_mem.mpr hmem] at hthis
    cases hthis
  · intro e he
    rcases List.mem_filterMap.mp he with ⟨k, _, hsome⟩
    rcases Option.map_eq_some_iff.mp hsome with ⟨raw, htext, rfl⟩
    exact isToken_text htext

theorem writtenTable_headers {valtype : CString -> Char} (h : Storable c)
    {headers : List HttpHeader} (hheaders : c.httpHeaders = some headers) :
    WrittenTable valtype (headerTable headers) := by
  have hkeys : (headers.map (fun h => (h.key, h.text))).map Prod.fst =
      headers.map HttpHeader.key := by
    rw [List.map_map]
    rfl
  refine writtenTable_values ?_ ?_ ?_
  · rw [hkeys]
    exact h.names headers hheaders
  · intro key hkey
    rw [hkeys] at hkey
    rcases List.mem_map.mp hkey with ⟨header, hmem, rfl⟩
    exact (h.header headers hheaders header hmem).left
  · intro e he
    rcases List.mem_map.mp he with ⟨header, _, rfl⟩
    exact isToken_headerText header

/-- The keys of the root, with all the tables. -/
def rootKeys : List CString :=
  fileKeys none ++ [literal "tls", literal "cached", literal "http_headers"]

theorem keys_configTable (c : ConfImage) :
    (configTable c).keys.Sublist rootKeys := by
  have htables : ((configTables c).map Prod.fst).Sublist
      [literal "tls", literal "cached", literal "http_headers"] := by
    unfold configTables
    cases c.httpHeaders with
    | none => exact ((List.nil_sublist _).cons_cons _).cons_cons _
    | some headers => exact List.Sublist.refl _
  exact (keys_configLines c none).append htables

theorem writtenTable_configTable (valtype : CString -> Char)
    (h : Storable c) : WrittenTable valtype (configTable c) := by
  have hsub := keys_configTable c
  have hroot := writtenTable_configLines valtype c (.inl rfl)
  refine .mk rfl (hsub.nodup (by decide)) ?_ ?_
    (fun _ h => absurd h List.not_mem_nil) ?_
  · intro key hkey
    have hline : rootKeys.all
        (fun key => !(key.chars.contains lineFeed)) = true := by decide
    have hthis := List.all_eq_true.mp hline key (hsub.subset hkey)
    intro hmem
    rw [List.contains_iff_mem.mpr hmem] at hthis
    cases hthis
  · rcases hroot with ⟨_, _, _, hkval, _, _⟩
    exact hkval
  · intro e he
    rcases List.mem_append.mp he with he | he
    · simp only [List.mem_cons, List.not_mem_nil, or_false] at he
      rcases he with rfl | rfl
      · exact writtenTable_configLines valtype c (.inr (.inl rfl))
      · exact writtenTable_configLines valtype c (.inr (.inr rfl))
    · cases hheaders : c.httpHeaders with
      | none =>
          rw [hheaders] at he
          cases he
      | some headers =>
          rw [hheaders] at he
          rw [List.mem_singleton.mp he]
          exact writtenTable_headers h hheaders

theorem trimmed_slash {s : CString} (h : s.length < maxBufferSize) :
    (CharPtr.string (s ++ literal "/")).trimmed = .string s := by
  have hlength : (s ++ literal "/").length = s.length + 1 :=
    List.length_append
  have hlen : (s ++ literal "/").strnlen maxBufferSize = s.length + 1 := by
    unfold CString.strnlen
    rw [hlength]
    exact Nat.min_eq_left h
  have hlast : (s ++ literal "/").chars[s.length]? = some 47 := by
    show (s.chars ++ [47])[s.chars.length]? = some 47
    rw [List.getElem?_append_right (Nat.le_refl _), Nat.sub_self]
    rfl
  have htake : (s ++ literal "/").take s.length = s := by
    apply CString.ext
    exact List.take_left
  unfold CharPtr.trimmed
  dsimp only
  rw [hlen, Nat.add_sub_cancel, if_pos ⟨Nat.succ_pos _, hlast⟩, htake]

theorem string_raw (h : Storable c) (f : StringField) :
    (exists s, c.string f = .string s ∧
      f.setting.raw (configTable c).view =
        some (quoted (if f.isCut = true then s ++ literal "/" else s))) ∨
    (c.string f = .null ∧ f.setting.empty = .null ∧
      f.setting.raw (configTable c).view = none) := by
  have hraw : f.setting.raw (configTable c).view =
      (ConfigKey.string f).text c := raw_configTable (.string f)
  unfold ConfigKey.text at hraw
  dsimp only at hraw
  rcases h.string f with ⟨s, hs⟩ | ⟨hnull, hempty⟩
  · rw [hs] at hraw
    exact .inl ⟨s, hs, hraw⟩
  · rw [hnull] at hraw
    exact .inr ⟨hnull, hempty, hraw⟩

theorem int_raw (h : Storable c) (f : IntField) :
    exists raw, f.setting.raw (configTable c).view = some raw ∧
      f.setting.method raw = .read (c.int f) := by
  refine ⟨_, raw_configTable (.int f), ?_⟩
  cases hswitch : f.isSwitch with
  | true =>
      rw [if_pos rfl]
      have hread := tomlRtob_switchText (h.switch f hswitch)
      cases f <;> first | exact hread | cases hswitch
  | false =>
      rw [if_neg Bool.noConfusion]
      have hread := tomlRtoi_numberText (c.int f)
      cases f <;> first | exact hread | cases hswitch

theorem long_raw (h : Storable c) (f : LongField) :
    exists raw, f.setting.raw (configTable c).view = some raw ∧
      f.setting.method raw = .read (c.long f).toInt32 := by
  refine ⟨_, raw_configTable (.long f), ?_⟩
  cases hswitch : f.isSwitch with
  | true =>
      rw [if_pos rfl]
      have hvalue : (c.long f).toInt32 = 0 ∨ (c.long f).toInt32 = 1 := by
        rcases h.longSwitch f hswitch with hzero | hone
        · rw [hzero]
          exact .inl rfl
        · rw [hone]
          exact .inr rfl
      have hread := tomlRtob_switchText hvalue
      cases f <;> first | exact hread | cases hswitch
  | false =>
      rw [if_neg Bool.noConfusion]
      have hread := tomlRtoi_numberText (c.long f).toInt32
      cases f <;> first | exact hread | cases hswitch

theorem expected_of_read {alpha : Type} {s : Setting alpha} {tab : TomlTable}
    {raw : CString} {value : alpha} (hraw : s.raw tab = some raw)
    (hread : s.method raw = .read value) : s.expected tab = value := by
  unfold Setting.expected
  rw [hraw, Option.bind_some, hread]
  rfl

theorem settled_of_read {alpha : Type} {s : Setting alpha} {tab : TomlTable}
    {raw : CString} {value : alpha} (hraw : s.raw tab = some raw)
    (hread : s.method raw = .read value) : s.Settled tab := by
  intro raw' left hraw' hfailed
  rw [hraw] at hraw'
  cases hraw'
  rw [hread] at hfailed
  cases hfailed

theorem string_expected (h : Storable c) (f : StringField) :
    f.setting.Settled (configTable c).view ∧
      f.expected (configTable c).view = c.string f := by
  rcases string_raw h f with ⟨s, hs, hraw⟩ | ⟨hnull, hempty, hraw⟩
  · have hread : f.setting.method (quoted
        (if f.isCut = true then s ++ literal "/" else s)) =
          .read (.string (if f.isCut = true then s ++ literal "/" else s)) := by
      rw [f.method_eq]
      exact tomlRtos_quoted _
    refine ⟨settled_of_read hraw hread, ?_⟩
    unfold StringField.expected
    rw [expected_of_read hraw hread, hs]
    cases hcut : f.isCut with
    | true =>
        rw [if_pos (of_decide_eq_true hcut), if_pos rfl]
        exact trimmed_slash (h.short f s hcut hs)
    | false =>
        rw [if_neg (of_decide_eq_false hcut), if_neg Bool.noConfusion]
  · have hexpected : f.setting.expected (configTable c).view = .null := by
      unfold Setting.expected
      rw [hraw]
      exact hempty
    refine ⟨?_, ?_⟩
    · intro raw left hsome
      rw [hraw] at hsome
      cases hsome
    · unfold StringField.expected
      rw [hexpected, hnull]
      exact ite_self _

theorem headers_parsed (h : Storable c) {headers : List HttpHeader}
    (hheaders : c.httpHeaders = some headers) :
    List.Forall₂ HeaderParsed (headerEntries (headerTable headers).view)
      headers := by
  have hkeys : (headerTable headers).view.keys =
      headers.map HttpHeader.key := by
    show (headers.map (fun h => (h.key, h.text))).map Prod.fst ++ ([] ++ []) = _
    rw [List.append_nil, List.append_nil, List.map_map]
    rfl
  have hentries : headerEntries (headerTable headers).view =
      headers.map (fun h => (h.key, h.text)) := by
    rw [headerEntries_eq (by rw [hkeys]; exact h.names headers hheaders)]
    apply List.take_of_length_le
    show (headers.map _).length <= _
    rw [List.length_map]
    exact h.count headers hheaders
  rw [hentries, List.forall₂_map_left_iff, List.forall₂_same]
  intro header hmem
  rcases (h.header headers hheaders header hmem).right with ⟨s, hs⟩
  refine ⟨rfl, ?_⟩
  unfold HttpHeader.text
  rw [hs]
  exact tomlRtos_quoted s

/-- The file of a configuration leaves nothing open, and gives the
configuration. -/
theorem parsed_configTable (h : Storable c) :
    Settled (configTable c).view ∧ Parsed (configTable c).view c := by
  have hint := fun f => int_raw h f
  have hexpected : forall f : IntField,
      f.setting.expected (configTable c).view = c.int f := by
    intro f
    rcases hint f with ⟨raw, hraw, hread⟩
    exact expected_of_read hraw hread
  constructor
  · refine ⟨fun f => (string_expected h f).left, ?_, ?_, ?_⟩
    · intro f
      rcases hint f with ⟨raw, hraw, hread⟩
      exact .inl (settled_of_read hraw hread)
    · intro f raw left hraw hfailed
      rcases long_raw h f with ⟨raw', hraw', hread⟩
      exact .inr (settled_of_read hraw' hread raw left hraw hfailed)
    · intro inTab htable entry hentry
      rw [view_headers] at htable
      rcases Option.map_eq_some_iff.mp htable with ⟨headers, hheaders, rfl⟩
      exact read_of_parsed (headers_parsed h hheaders) hentry
  · refine ⟨fun f => (string_expected h f).right.symm, ?_, ?_, ?_, ?_⟩
    · intro f
      rw [hexpected, hexpected]
      split
      · rename_i hdaemon
        have hused := h.switch .useCached rfl
        rw [hdaemon.left]
        exact h.daemon (hused.resolve_left hdaemon.right)
      · rfl
    · intro f
      rcases long_raw h f with ⟨raw, hraw, hread⟩
      rw [expected_of_read hraw hread]
      exact h.long f
    · intro hnone
      rw [view_headers] at hnone
      exact Option.map_eq_none_iff.mp hnone
    · intro inTab htable
      rw [view_headers] at htable
      rcases Option.map_eq_some_iff.mp htable with ⟨headers, hheaders, rfl⟩
      exact ⟨headers, hheaders, headers_parsed h hheaders⟩

/-- A configuration that is written as a file is loaded from it, whatever the
memory held before. -/
theorem stnsLoadConfigFile_configTable (valtype : CString -> Char)
    (h : Storable c) (before : ConfImage) (fresh : Nat -> CharPtr) :
    stnsLoadConfigFile valtype (renderFile (configTable c)).chars before
      fresh = some (0, c) := by
  rcases parsed_configTable h with ⟨hsettled, hparsed⟩
  have hvalid : forall f : StringField, f.isCut = true ->
      f.uncut (configTable c).view before ≠ .wild := by
    intro f hcut
    have huncut : f.uncut (configTable c).view before =
        f.setting.expected (configTable c).view :=
      Setting.get_of_settled (hsettled.string f) _
    rw [huncut]
    intro hwild
    have hstring := hparsed.string f
    unfold StringField.expected at hstring
    rw [if_pos (of_decide_eq_true hcut), hwild] at hstring
    rcases h.string f with ⟨s, hs⟩ | ⟨hnull, _⟩
    · rw [hs] at hstring
      cases hstring
    · rw [hnull] at hstring
      cases hstring
  have hload : stnsLoadConfig (some (configTable c).view) before fresh =
      some (0, c) := by
    rw [stnsLoadConfig_eq_some]
    exact ⟨⟨hvalid .apiEndpoint rfl, hvalid .cacheDir rfl⟩,
      (parsed_of_settled hsettled before fresh).unique hparsed⟩
  unfold stnsLoadConfigFile tomlParseFile
  rw [CString.ofBytes_chars, tomlParse_renderFile valtype _
    (writtenTable_configTable valtype h)]
  exact hload

/-- The defaults, with a header. -/
def defaultsWithHeader : ConfImage where
  string f := f.setting.empty
  int f := f.setting.empty
  long f := f.setting.empty.toInt64
  httpHeaders := some [⟨literal "X-Stns-Key", .string (literal "a \"b\"")⟩]

theorem storable_defaultsWithHeader : Storable defaultsWithHeader where
  string f := by
    cases f <;> first | exact .inl ⟨_, rfl⟩ | exact .inr ⟨rfl, rfl⟩
  short f s hcut hs := by
    cases f <;> first | exact Bool.noConfusion hcut | (cases hs; decide)
  switch f hswitch := by
    cases f <;> first | exact Bool.noConfusion hswitch | decide
  daemon h := absurd h (by decide)
  long f := by cases f <;> decide
  longSwitch f hswitch := by
    cases f <;> first | exact Bool.noConfusion hswitch | decide
  count headers h := by
    cases h
    decide
  names headers h := by
    cases h
    decide
  header headers h := by
    cases h
    intro header hmem
    rw [List.mem_singleton.mp hmem]
    exact ⟨by decide, _, rfl⟩

theorem stnsLoadConfigFile_defaultsWithHeader :
    Storable defaultsWithHeader ∧
      stnsLoadConfigFile (fun _ => 'i')
        (renderFile (configTable defaultsWithHeader)).chars (memoryOf 7)
        (fun _ => .wild) = some (0, defaultsWithHeader) :=
  ⟨storable_defaultsWithHeader,
    stnsLoadConfigFile_configTable _ storable_defaultsWithHeader _ _⟩

end Storable

end Stns
