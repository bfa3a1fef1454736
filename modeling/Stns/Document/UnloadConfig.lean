import Stns.Document.LoadDefined
import Stns.Foundation.Lifetime

/-!
# Unloading the configuration

The blocks of a loaded configuration are its strings, the keys and the values
of its headers, the array of the headers, and the structure that keeps the
array.  Unloading frees the array in every round of the loop over the headers.
-/

namespace Stns

inductive ConfBlock where
  | string (f : StringField)
  | headerKey (i : Nat)
  | headerValue (i : Nat)
  | headerArray
  | headerTable
  deriving DecidableEq

/-- What a loaded configuration keeps on the heap: the strings that are not
NULL, and with {lit}`[http_headers]` a number of headers. -/
structure ConfBlocks where
  present : StringField -> Bool
  headers : Option Nat

/-- There is no array for no headers. -/
def ConfBlocks.Allocated (blocks : ConfBlocks) : ConfBlock -> Prop
  | .string f => blocks.present f = true
  | .headerKey i => exists n, blocks.headers = some n ∧ i < n
  | .headerValue i => exists n, blocks.headers = some n ∧ i < n
  | .headerArray => exists n, blocks.headers = some n ∧ 0 < n
  | .headerTable => exists n, blocks.headers = some n

/-!
## The trace
-/

/-- {lit}`UNLOAD_TOML_BYKEY` of a string. -/
def unloadTomlByKey (blocks : ConfBlocks) (f : StringField) :
    List (BlockEvent ConfBlock) :=
  if blocks.present f = true then [.release (.string f)] else []

/-- The strings in the order in which they are unloaded. -/
def unloadOrder : List StringField :=
  [.apiEndpoint, .cacheDir, .authToken, .user, .password, .queryWrapper,
    .chainSshWrapper, .httpProxy, .tlsCert, .tlsKey, .tlsCa,
    .cachedUnixSocket]

/-- A round of the loop, with the comparison of {lit}`i` and the size in
front: the value, the key and the array are freed. -/
def unloadHeader (i : Nat) : List (BlockEvent ConfBlock) :=
  [.read .headerTable,
    .read .headerTable, .read .headerArray, .release (.headerValue i),
    .read .headerTable, .read .headerArray, .release (.headerKey i),
    .read .headerTable, .release .headerArray]

/-- The loop, up to the comparison that ends it. -/
def unloadHeaders (n : Nat) : List (BlockEvent ConfBlock) :=
  (List.range n).flatMap unloadHeader ++ [.read .headerTable]

/-- The headers, and {lit}`UNLOAD_TOML_BYKEY` of their structure. -/
def unloadTable : Option Nat -> List (BlockEvent ConfBlock)
  | none => []
  | some n => unloadHeaders n ++ [.release .headerTable]

/-- {lit}`stns_unload_config` -/
def stnsUnloadConfig (blocks : ConfBlocks) : List (BlockEvent ConfBlock) :=
  unloadOrder.flatMap (unloadTomlByKey blocks) ++ unloadTable blocks.headers

/-- An allocated block is released once and not used afterwards, and another
one is not touched. -/
def Handled (blocks : ConfBlocks) (b : ConfBlock) : Prop :=
  (blocks.Allocated b -> ReleasedOnce (stnsUnloadConfig blocks) b) ∧
    (¬ blocks.Allocated b -> Untouched (stnsUnloadConfig blocks) b)

def ReleasesOnce (blocks : ConfBlocks) : Prop :=
  forall b, Handled blocks b

/-!
## Strings
-/

section Unload

variable {blocks : ConfBlocks} {b : ConfBlock} {n : Nat}

theorem mem_unloadOrder (f : StringField) : f ∈ unloadOrder := by
  cases f <;> decide

theorem unloadOrder_nodup : unloadOrder.Nodup := by
  decide

theorem unloadTomlByKey_untouched {f : StringField} (h : b ≠ .string f) :
    Untouched (unloadTomlByKey blocks f) b := by
  unfold unloadTomlByKey
  split
  · exact untouched_singleton h.symm
  · exact untouched_nil b

theorem unloadStrings_untouched (blocks : ConfBlocks)
    (h : forall f, b ≠ .string f) :
    Untouched (unloadOrder.flatMap (unloadTomlByKey blocks)) b :=
  untouched_flatMap (fun f _ => unloadTomlByKey_untouched (h f))

theorem unloadStrings_absent {f : StringField}
    (h : ¬ blocks.present f = true) :
    Untouched (unloadOrder.flatMap (unloadTomlByKey blocks)) (.string f) := by
  apply untouched_flatMap
  intro other _
  by_cases heq : f = other
  · rw [← heq]
    unfold unloadTomlByKey
    rw [if_neg h]
    exact untouched_nil _
  · exact unloadTomlByKey_untouched
      (fun hblock => heq (ConfBlock.string.inj hblock))

theorem unloadStrings_present {f : StringField}
    (h : blocks.present f = true) :
    ReleasedOnce (unloadOrder.flatMap (unloadTomlByKey blocks))
      (.string f) := by
  refine releasedOnce_flatMap unloadOrder_nodup (mem_unloadOrder f) ?_ ?_
  · unfold unloadTomlByKey
    rw [if_pos h]
    exact releasedOnce_singleton _
  · intro other _ hne
    exact unloadTomlByKey_untouched
      (fun hblock => hne (ConfBlock.string.inj hblock).symm)

/-!
## Headers
-/

theorem unloadHeader_untouched_iff {i : Nat} :
    Untouched (unloadHeader i) b <->
      b ≠ .headerTable ∧ b ≠ .headerArray ∧ b ≠ .headerValue i ∧
        b ≠ .headerKey i := by
  unfold Untouched unloadHeader
  simp only [List.forall_mem_cons, BlockEvent.block, ne_comm (a := b)]
  tauto

theorem unloadHeaders_untouched (htable : b ≠ .headerTable)
    (h : forall i, i < n -> Untouched (unloadHeader i) b) :
    Untouched (unloadHeaders n) b := by
  have hloop : Untouched ((List.range n).flatMap unloadHeader) b :=
    untouched_flatMap (fun i hi => h i (List.mem_range.mp hi))
  exact untouched_append_iff.mpr ⟨hloop, untouched_singleton htable.symm⟩

/-- What only the round of one header touches is freed where that round frees
it. -/
theorem unloadHeaders_releasedOnce {i : Nat} (hi : i < n)
    (hround : ReleasedOnce (unloadHeader i) b) (htable : b ≠ .headerTable)
    (hothers : forall j, j ≠ i -> Untouched (unloadHeader j) b) :
    ReleasedOnce (unloadHeaders n) b := by
  have hloop : ReleasedOnce ((List.range n).flatMap unloadHeader) b :=
    releasedOnce_flatMap List.nodup_range (List.mem_range.mpr hi) hround
      (fun j _ hne => hothers j hne)
  exact hloop.before (untouched_singleton htable.symm)

theorem unloadHeader_value (i : Nat) :
    ReleasedOnce (unloadHeader i) (.headerValue i) := by
  refine ⟨(unloadHeader i).take 3, (unloadHeader i).drop 4, rfl, ?_, ?_⟩
  · simp [unloadHeader]
  · simp [unloadHeader, Untouched, BlockEvent.block]

theorem unloadHeader_key (i : Nat) :
    ReleasedOnce (unloadHeader i) (.headerKey i) := by
  refine ⟨(unloadHeader i).take 6, (unloadHeader i).drop 7, rfl, ?_, ?_⟩
  · simp [unloadHeader]
  · simp [unloadHeader, Untouched, BlockEvent.block]

theorem table_not_released : BlockEvent.release .headerTable ∉
    unloadHeaders n := by
  unfold unloadHeaders
  rw [List.mem_append, not_or, List.mem_flatMap]
  constructor
  · rintro ⟨i, _, hmem⟩
    simp [unloadHeader] at hmem
  · decide

/-- One header: the array is freed in the only round. -/
theorem unloadHeaders_array :
    ReleasedOnce (unloadHeaders 1) .headerArray :=
  ⟨(unloadHeader 0).take 8, [.read .headerTable], rfl, by decide,
    untouched_singleton ConfBlock.noConfusion⟩

theorem unloadHeaders_count (n : Nat) :
    (unloadHeaders n).count (.release .headerArray) = n := by
  have hround : forall i,
      (unloadHeader i).count (.release .headerArray) = 1 := fun _ => rfl
  unfold unloadHeaders
  rw [List.count_append, List.count_flatMap]
  show ((List.range n).map
    (fun i => (unloadHeader i).count (.release .headerArray))).sum + 0 = n
  simp only [hround, List.map_const', List.length_range, List.sum_replicate_nat]
  simp

theorem unloadTable_untouched {headers : Option Nat}
    (htable : b = .headerTable -> headers = none)
    (h : forall n, headers = some n -> Untouched (unloadHeaders n) b) :
    Untouched (unloadTable headers) b := by
  cases headers with
  | none => exact untouched_nil b
  | some n =>
      refine untouched_append_iff.mpr ⟨h n rfl, untouched_singleton ?_⟩
      intro hblock
      cases htable hblock.symm

theorem unloadTable_releasedOnce (hheaders : blocks.headers = some n)
    (htable : b ≠ .headerTable) (h : ReleasedOnce (unloadHeaders n) b) :
    ReleasedOnce (unloadTable blocks.headers) b := by
  rw [hheaders]
  exact h.before (untouched_singleton htable.symm)

/-!
## Block by block
-/

theorem handled_string (blocks : ConfBlocks) (f : StringField) :
    Handled blocks (.string f) := by
  have htable : Untouched (unloadTable blocks.headers) (.string f) := by
    refine unloadTable_untouched (fun h => by cases h) ?_
    intro n _
    refine unloadHeaders_untouched ConfBlock.noConfusion ?_
    intro i _
    exact unloadHeader_untouched_iff.mpr ⟨ConfBlock.noConfusion,
      ConfBlock.noConfusion, ConfBlock.noConfusion, ConfBlock.noConfusion⟩
  constructor
  · intro h
    exact (unloadStrings_present h).before htable
  · intro h
    exact untouched_append_iff.mpr ⟨unloadStrings_absent h, htable⟩

theorem handled_of_table (hstring : forall f, b ≠ .string f)
    (hin : blocks.Allocated b -> ReleasedOnce (unloadTable blocks.headers) b)
    (hout : ¬ blocks.Allocated b ->
      Untouched (unloadTable blocks.headers) b) : Handled blocks b := by
  have hfront := unloadStrings_untouched blocks hstring
  constructor
  · intro h
    exact (hin h).after hfront.not_mem
  · intro h
    exact untouched_append_iff.mpr ⟨hfront, hout h⟩

/-- A block of one header, which no other round touches. -/
theorem handled_of_round {i : Nat} (hstring : forall f, b ≠ .string f)
    (htable : b ≠ .headerTable)
    (hallocated : blocks.Allocated b <->
      exists n, blocks.headers = some n ∧ i < n)
    (hround : ReleasedOnce (unloadHeader i) b)
    (hothers : forall j, j ≠ i -> Untouched (unloadHeader j) b) :
    Handled blocks b := by
  refine handled_of_table hstring ?_ ?_
  · intro h
    rcases hallocated.mp h with ⟨n, hn, hi⟩
    exact unloadTable_releasedOnce hn htable
      (unloadHeaders_releasedOnce hi hround htable hothers)
  · intro hnone
    refine unloadTable_untouched (fun h => absurd h htable) ?_
    intro n hn
    refine unloadHeaders_untouched htable ?_
    intro j hj
    apply hothers
    intro heq
    rw [heq] at hj
    exact hnone (hallocated.mpr ⟨n, hn, hj⟩)

theorem handled_headerKey (blocks : ConfBlocks) (i : Nat) :
    Handled blocks (.headerKey i) := by
  refine handled_of_round (fun _ => ConfBlock.noConfusion)
    ConfBlock.noConfusion Iff.rfl (unloadHeader_key i) ?_
  intro j hne
  refine unloadHeader_untouched_iff.mpr ⟨ConfBlock.noConfusion,
    ConfBlock.noConfusion, ConfBlock.noConfusion, ?_⟩
  intro h
  exact hne (ConfBlock.headerKey.inj h).symm

theorem handled_headerValue (blocks : ConfBlocks) (i : Nat) :
    Handled blocks (.headerValue i) := by
  refine handled_of_round (fun _ => ConfBlock.noConfusion)
    ConfBlock.noConfusion Iff.rfl (unloadHeader_value i) ?_
  intro j hne
  refine unloadHeader_untouched_iff.mpr ⟨ConfBlock.noConfusion,
    ConfBlock.noConfusion, ?_, ConfBlock.noConfusion⟩
  intro h
  exact hne (ConfBlock.headerValue.inj h).symm

theorem handled_headerTable (blocks : ConfBlocks) :
    Handled blocks .headerTable := by
  refine handled_of_table (fun _ => ConfBlock.noConfusion) ?_ ?_
  · rintro ⟨n, hn⟩
    rw [hn]
    exact (releasedOnce_singleton _).after table_not_released
  · intro hnone
    have hheaders : blocks.headers = none := by
      cases hn : blocks.headers with
      | none => rfl
      | some n => exact absurd ⟨n, hn⟩ hnone
    rw [hheaders]
    exact untouched_nil _

/-- The array is freed as often as there are headers. -/
theorem stnsUnloadConfig_count (h : blocks.headers = some n) :
    (stnsUnloadConfig blocks).count (.release .headerArray) = n := by
  have hfront : BlockEvent.release ConfBlock.headerArray ∉
      unloadOrder.flatMap (unloadTomlByKey blocks) :=
    (unloadStrings_untouched blocks
      (fun _ => ConfBlock.noConfusion)).not_mem
  unfold stnsUnloadConfig
  rw [h, List.count_append, List.count_eq_zero.mpr hfront, Nat.zero_add]
  unfold unloadTable
  dsimp only
  rw [List.count_append, unloadHeaders_count]
  rfl

theorem handled_headerArray_iff (blocks : ConfBlocks) :
    Handled blocks .headerArray <->
      forall n, blocks.headers = some n -> n <= 1 := by
  constructor
  · intro h n hn
    by_contra hmany
    have hcount := (h.left ⟨n, hn, by omega⟩).count
    rw [stnsUnloadConfig_count hn] at hcount
    exact hmany (Nat.le_of_eq hcount)
  · intro hone
    refine handled_of_table (fun _ => ConfBlock.noConfusion) ?_ ?_
    · rintro ⟨n, hn, hpos⟩
      have hexact : n = 1 := Nat.le_antisymm (hone n hn) hpos
      rw [hexact] at hn
      exact unloadTable_releasedOnce hn ConfBlock.noConfusion
        unloadHeaders_array
    · intro hnone
      refine unloadTable_untouched (fun h => by cases h) ?_
      intro n hn
      have hzero : n = 0 := by
        by_contra hpos
        exact hnone ⟨n, hn, Nat.pos_of_ne_zero hpos⟩
      rw [hzero]
      exact unloadHeaders_untouched ConfBlock.noConfusion
        (fun i hi => absurd hi (Nat.not_lt_zero i))

end Unload

/-- Every block is released once and not used afterwards if and only if there
is at most one header. -/
theorem releasesOnce_iff (blocks : ConfBlocks) :
    ReleasesOnce blocks <-> forall n, blocks.headers = some n -> n <= 1 := by
  constructor
  · intro h
    exact (handled_headerArray_iff blocks).mp (h .headerArray)
  · intro hone b
    cases b with
    | string f => exact handled_string blocks f
    | headerKey i => exact handled_headerKey blocks i
    | headerValue i => exact handled_headerValue blocks i
    | headerArray => exact (handled_headerArray_iff blocks).mpr hone
    | headerTable => exact handled_headerTable blocks

/-!
## The blocks of a load
-/

def ConfImage.blocks (c : ConfImage) : ConfBlocks where
  present f := decide (c.string f ≠ .null)
  headers := c.httpHeaders.map List.length

/-- The values of the known keys and of the headers have the right types. -/
structure WellTyped (tab : TomlTable) : Prop where
  string : forall f : StringField, forall raw, f.setting.raw tab = some raw ->
    exists value, f.setting.method raw = .read value
  int : forall f : IntField, forall raw, f.setting.raw tab = some raw ->
    exists value, f.setting.method raw = .read value
  long : forall f : LongField, forall raw, f.setting.raw tab = some raw ->
    exists value, f.setting.method raw = .read value
  headers : forall inTab,
    tomlTableIn tab (literal "http_headers") = some inTab ->
      forall entry, entry ∈ headerEntries inTab ->
        exists value, tomlRtos entry.2 = .read value

/-- A file with two entries in {lit}`[http_headers]`. -/
def twoHeaders : TomlTable :=
  .mk [] [] [(literal "http_headers",
    .mk [(literal "Accept", literal "'text'"),
      (literal "Via", literal "'proxy'")] [] [])]

/-- Its array is freed twice. -/
theorem two_headers_freed_twice :
    exists c, stnsLoadConfig (some twoHeaders) foreign (fun _ => .null) =
        some (0, c) ∧
      (stnsUnloadConfig c.blocks).count (.release .headerArray) = 2 ∧
        ¬ ReleasesOnce c.blocks := by
  refine ⟨loaded twoHeaders foreign (fun _ => .null), ?_, ?_, ?_⟩
  · exact stnsLoadConfig_eq_some.mpr
      ⟨⟨foreign_uncut_ne_wild _, foreign_uncut_ne_wild _⟩, rfl⟩
  · exact stnsUnloadConfig_count rfl
  · intro h
    have hone := (handled_headerArray_iff _).mp (h .headerArray)
    exact absurd (hone 2 rfl) (by decide)

section Load

variable {tab : TomlTable} {before c : ConfImage} {fresh : Nat -> CharPtr}

theorem Setting.not_failed {alpha : Type} {s : Setting alpha}
    (h : forall raw, s.raw tab = some raw ->
      exists value, s.method raw = .read value)
    {raw : CString} {left : Option alpha} (hraw : s.raw tab = some raw) :
    s.method raw ≠ .failed left := by
  rcases h raw hraw with ⟨value, hvalue⟩
  rw [hvalue]
  intro hread
  cases hread

theorem WellTyped.settled (h : WellTyped tab) : Settled tab := by
  refine ⟨?_, ?_, ?_, h.headers⟩
  · intro f raw left hraw hread
    exact absurd hread (Setting.not_failed (h.string f) hraw)
  · intro f
    refine .inl ?_
    intro raw left hraw hread
    exact absurd hread (Setting.not_failed (h.int f) hraw)
  · intro f raw left hraw hread
    exact absurd hread (Setting.not_failed (h.long f) hraw)

theorem WellTyped.expected_eq_null_iff (h : WellTyped tab) (f : StringField) :
    f.setting.expected tab = .null <->
      f.setting.raw tab = none ∧ f.setting.empty = .null := by
  unfold Setting.expected
  cases hraw : f.setting.raw tab with
  | none => simp
  | some raw =>
      rcases h.string f raw hraw with ⟨value, hread⟩
      rw [f.method_eq] at hread
      rcases tomlRtos_read hread with ⟨s, rfl⟩
      refine iff_of_false ?_ (fun hboth => by cases hboth.left)
      rw [Option.bind_some, f.method_eq, hread]
      exact CharPtr.noConfusion

theorem StringField.expected_eq_null_iff (f : StringField) :
    f.expected tab = .null <-> f.setting.expected tab = .null := by
  unfold StringField.expected
  split
  · exact trimmed_eq_null_iff _
  · exact Iff.rfl

theorem value_of_parsed {entries : List (CString × CString)}
    {headers : List HttpHeader}
    (h : List.Forall₂ HeaderParsed entries headers) {header : HttpHeader}
    (hmem : header ∈ headers) : exists s, header.value = .string s := by
  induction h with
  | nil => cases hmem
  | cons hfirst _ ih =>
      rcases List.mem_cons.mp hmem with rfl | hrest
      · exact tomlRtos_read hfirst.right
      · exact ih hrest

/-- A well-typed file gives a block to each string key that it has or that has
a default, and to the key and the value of each of its headers. -/
theorem blocks_of_load (h : WellTyped tab)
    (hload : stnsLoadConfig (some tab) before fresh = some (0, c)) :
    (forall f, c.blocks.present f = true <->
      f.setting.raw tab ≠ none ∨ f.setting.empty ≠ .null) ∧
    c.blocks.headers = (tomlTableIn tab (literal "http_headers")).map
      (fun inTab => (headerEntries inTab).length) ∧
    (forall headers, c.httpHeaders = some headers ->
      forall header, header ∈ headers ->
        exists s, header.value = .string s) := by
  rcases stnsLoadConfig_eq_some.mp hload with ⟨_, rfl⟩
  have hparsed := parsed_of_settled h.settled before fresh
  refine ⟨?_, ?_, ?_⟩
  · intro f
    unfold ConfImage.blocks
    rw [decide_eq_true_eq, hparsed.string f, Ne, f.expected_eq_null_iff,
      h.expected_eq_null_iff f, not_and_or]
  · unfold ConfImage.blocks
    dsimp only
    cases htable : tomlTableIn tab (literal "http_headers") with
    | none =>
        rw [hparsed.absent htable]
        rfl
    | some inTab =>
        rcases hparsed.headers inTab htable with ⟨headers, hsome, hall⟩
        rw [hsome, Option.map_some, Option.map_some, hall.length_eq]
  · intro headers hsome header hmem
    cases htable : tomlTableIn tab (literal "http_headers") with
    | none =>
        rw [hparsed.absent htable] at hsome
        cases hsome
    | some inTab =>
        rcases hparsed.headers inTab htable with ⟨headers', hsome', hall⟩
        rw [hsome'] at hsome
        cases hsome
        exact value_of_parsed hall hmem

end Load

end Stns
