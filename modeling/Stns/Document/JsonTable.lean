import Mathlib.Data.List.Nodup
import Stns.Document.JsonGrammar
import Stns.Foundation.Probing

/-!
# Objects as hash tables

The vendored library keeps the members of an object in arrays, in their order,
and their indices in the cells of a hash table.  The table grows before its
arrays are full.  Reading and adding members does what the lists of members do
that the other modules use.  Allocations succeed.
-/

namespace Stns

open Probing

/-- {lit}`json_object_t`.  A cell holds the index of a member, or
{lit}`OBJECT_INVALID_IX`.  The arrays of members are as long as the count. -/
structure JsonTable where
  cells : List (Option Nat)
  hashes : List UInt64
  names : List CString
  values : List Json
  cellIxs : List Nat
  itemCapacity : Nat

namespace JsonTable

def count (t : JsonTable) : Nat :=
  t.names.length

def cellCapacity (t : JsonTable) : Nat :=
  t.cells.length

def startingCapacity : Nat := 16

def hashFrom (hash : UInt64) : Bytes -> UInt64
  | [] => hash
  | c :: rest =>
      if c = 0 then hash
      else hashFrom ((hash <<< 5) + hash + c.toUInt64) rest

/-- {lit}`hash_string` -/
def hashString (name : CString) : UInt64 :=
  hashFrom 5381 name.chars

/-- A table without members. -/
def empty (capacity : Nat) : JsonTable where
  cells := List.replicate capacity none
  hashes := []
  names := []
  values := []
  cellIxs := []
  itemCapacity := capacity * 7 / 10 % 2 ^ 32

/-- {lit}`json_object_init`; NULL when it does not return: the 32-bit counter
of its loop over the cells never gets to {lit}`2 ^ 32`. -/
def init (capacity : Nat) : Option JsonTable :=
  if 2 ^ 32 <= capacity then none else some (empty capacity)

/-- The table of {lit}`json_object_make`. -/
def make : JsonTable :=
  empty 0

example : init 0 = some make := rfl

/-- The cell that a search for a hash looks at in the given round. -/
def position (capacity : Nat) (hash : UInt64) (i : Nat) : Nat :=
  ((hash.toNat &&& (capacity - 1)) + i) &&& (capacity - 1)

/-- The member of an index has the hash and the name. -/
def isMember (t : JsonTable) (name : CString) (hash : UInt64)
    (cell : Nat) : Bool :=
  decide (t.hashes[cell]? = some hash ∧ t.names[cell]? = some name)

/-- {lit}`json_object_get_cell_ix` -/
def getCellIx (t : JsonTable) (name : CString) (hash : UInt64) : Probe :=
  probe t.cells (t.isMember name hash) (position t.cellCapacity hash)
    t.cellCapacity 0

/-- What {lit}`json_object_add` ends with.  A write outside of an array, a
table that grows while it grows and a loop without an end are kept apart from a
failure. -/
inductive Outcome where
  | added (t : JsonTable)
  | failure
  | outOfBounds
  | tooDeep
  | endless

/-- The writes at the end of {lit}`json_object_add`, to the given cell. -/
def put (t : JsonTable) (ix : Nat) (name : CString) (hash : UInt64)
    (value : Json) : JsonTable where
  cells := t.cells.set ix (some t.count)
  hashes := t.hashes ++ [hash]
  names := t.names ++ [name]
  values := t.values ++ [value]
  cellIxs := t.cellIxs ++ [ix]
  itemCapacity := t.itemCapacity

/-- A member is put where the search for it ended.  The member count has to be
an index of the arrays of members, and the cell one of the cells. -/
def store (t : JsonTable) (cell : Probe) (name : CString) (hash : UInt64)
    (value : Json) : Outcome :=
  if t.itemCapacity <= t.count then .outOfBounds
  else
    match cell with
    | .full => .outOfBounds
    | .found ix => .added (t.put ix name hash value)
    | .free ix => .added (t.put ix name hash value)

/-- Add members one after the other, up to the first that is not added. -/
def addAll (add : JsonTable -> CString -> Json -> Outcome) :
    JsonTable -> List (CString × Json) -> Outcome
  | t, [] => .added t
  | t, member :: rest =>
      match add t member.1 member.2 with
      | .added t' => addAll add t' rest
      | other => other

/-- {lit}`json_object_grow_and_rehash` -/
def growAndRehash (add : JsonTable -> CString -> Json -> Outcome)
    (t : JsonTable) : Outcome :=
  match init (max (t.cellCapacity * 2) startingCapacity) with
  | some newObject => addAll add newObject (t.names.zip t.values)
  | none => .endless

/-- The steps of {lit}`json_object_add`, with what grows a full table. -/
def addWith (grow : JsonTable -> Outcome) (t : JsonTable) (name : CString)
    (value : Json) : Outcome :=
  let hash := hashString name
  let cell := t.getCellIx name hash
  if cell.isFound = true then .failure
  else if t.itemCapacity <= t.count then
    match grow t with
    | .added t' => store t' (t'.getCellIx name hash) name hash value
    | other => other
  else store t cell name hash value

/-- {lit}`json_object_add`.  The table that a full one grows to is filled by the
same function, and may grow itself up to the given depth. -/
def add : Nat -> JsonTable -> CString -> Json -> Outcome
  | 0 => addWith (fun _ => .tooDeep)
  | depth + 1 => addWith (growAndRehash (add depth))

/-- {lit}`json_object_getn_value` -/
def getnValue (t : JsonTable) (name : CString) : Option Json :=
  match t.getCellIx name (hashString name) with
  | .found ix => (cellAt t.cells ix).bind (fun item => t.values[item]?)
  | _ => none

/-!
## What a table stands for
-/

/-- The members, in their order. -/
def members (t : JsonTable) : List (Bytes × Json) :=
  (t.names.map CString.chars).zip t.values

/-- What every operation keeps: the arrays have one length, which is at most
their capacity, the cells hold the indices of the members, and a search for a
member comes to its cell. -/
structure Inv (t : JsonTable) : Prop where
  capacity : (t.cellCapacity = 0 ∧ t.itemCapacity = 0) ∨
    exists k, 4 <= k ∧ k <= 31 ∧ t.cellCapacity = 2 ^ k ∧
      t.itemCapacity = t.cellCapacity * 7 / 10
  count : t.count <= t.itemCapacity
  values : t.values.length = t.count
  hashes : t.hashes = t.names.map hashString
  bound : forall ix item, cellAt t.cells ix = some item -> item < t.count
  occupied : occupied t.cells = t.count
  stored : forall item name, t.names[item]? = some name ->
    Stored t.cells (position t.cellCapacity (hashString name)) item
  distinct : t.names.Nodup
  cellIxs : t.cellIxs.length = t.count ∧ forall item ix,
    t.cellIxs[item]? = some ix -> cellAt t.cells ix = some item

/-!
## Positions
-/

section Position

variable {k : Nat}

theorem position_eq (hash : UInt64) (i : Nat) :
    position (2 ^ k) hash i = (hash.toNat % 2 ^ k + i) % 2 ^ k := by
  unfold position
  rw [Nat.and_two_pow_sub_one_eq_mod, Nat.and_two_pow_sub_one_eq_mod]

theorem position_lt (hash : UInt64) (i : Nat) :
    position (2 ^ k) hash i < 2 ^ k := by
  rw [position_eq]
  exact Nat.mod_lt _ (Nat.two_pow_pos k)

/-- The search looks at every cell. -/
theorem exists_position (hash : UInt64) {ix : Nat} (h : ix < 2 ^ k) :
    exists i, i < 2 ^ k ∧ position (2 ^ k) hash i = ix := by
  have hpos := Nat.two_pow_pos k
  have hhome := Nat.mod_lt hash.toNat hpos
  refine ⟨(ix + (2 ^ k - hash.toNat % 2 ^ k)) % 2 ^ k, Nat.mod_lt _ hpos, ?_⟩
  have hsum : hash.toNat % 2 ^ k + (ix + (2 ^ k - hash.toNat % 2 ^ k)) =
      ix + 2 ^ k := by omega
  rw [position_eq, Nat.add_mod_mod, hsum, Nat.add_mod_right,
    Nat.mod_eq_of_lt h]

end Position

/-!
## Searching and storing
-/

section Search

variable {t : JsonTable} {name : CString} {value : Json} {item : Nat}

theorem lt_count (h : t.names[item]? = some name) : item < t.count :=
  (List.getElem?_eq_some_iff.mp h).1

theorem isMember_iff (hinv : Inv t) :
    t.isMember name (hashString name) item = true <->
      t.names[item]? = some name := by
  unfold isMember
  rw [decide_eq_true_eq, hinv.hashes, List.getElem?_map]
  constructor
  · intro h
    exact h.right
  · intro h
    rw [h]
    exact ⟨rfl, rfl⟩

theorem item_unique (hinv : Inv t) {item' : Nat}
    (h : t.names[item]? = some name) (h' : t.names[item']? = some name) :
    item' = item := by
  rcases List.getElem?_eq_some_iff.mp h with ⟨hlt, heq⟩
  rcases List.getElem?_eq_some_iff.mp h' with ⟨hlt', heq'⟩
  exact (hinv.distinct.getElem_inj_iff).mp (heq'.trans heq.symm)

/-- A member is found. -/
theorem getCellIx_found (hinv : Inv t) (h : t.names[item]? = some name) :
    exists ix, t.getCellIx name (hashString name) = .found ix ∧
      cellAt t.cells ix = some item := by
  apply probe_stored (hinv.stored item name h) ((isMember_iff hinv).mpr h)
  intro ix item' _ htest
  exact item_unique hinv h ((isMember_iff hinv).mp htest)

theorem lt_capacity (hinv : Inv t) (h : t.cellCapacity ≠ 0) :
    t.count < t.cellCapacity := by
  rcases hinv.capacity with ⟨hzero, _⟩ | ⟨k, _, _, _, hitems⟩
  · exact absurd hzero h
  · have hcount := hinv.count
    rw [hitems] at hcount
    omega

/-- The search for another name ends at a free cell, if there are cells. -/
theorem getCellIx_free (hinv : Inv t) (hnew : name ∉ t.names)
    (hcells : t.cellCapacity ≠ 0) :
    exists i, i < t.cells.length ∧
      position t.cellCapacity (hashString name) i < t.cells.length ∧
      cellAt t.cells (position t.cellCapacity (hashString name) i) = none ∧
      Behind t.cells (position t.cellCapacity (hashString name)) i ∧
      t.getCellIx name (hashString name) =
        .free (position t.cellCapacity (hashString name) i) := by
  rcases hinv.capacity with ⟨hzero, _⟩ | ⟨k, _, _, hpower, _⟩
  · exact absurd hzero hcells
  · have hlength : t.cells.length = 2 ^ k := hpower
    have hroom : Probing.occupied t.cells < t.cells.length := by
      rw [hinv.occupied]
      exact lt_capacity hinv hcells
    have hfails : forall ix item, cellAt t.cells ix = some item ->
        t.isMember name (hashString name) item = false := by
      intro ix item _
      cases htest : t.isMember name (hashString name) item with
      | false => rfl
      | true =>
          have hmem := List.mem_of_getElem? ((isMember_iff hinv).mp htest)
          exact absurd hmem hnew
    have hfree : exists i, i < t.cells.length ∧
        cellAt t.cells (position t.cellCapacity (hashString name) i) =
          none := by
      rcases exists_free hroom with ⟨ix, hix, hnone⟩
      rw [hlength] at hix ⊢
      rcases exists_position (hashString name) hix with ⟨i, hi, heq⟩
      rw [hpower]
      exact ⟨i, hi, by rw [heq]; exact hnone⟩
    rcases probe_missing hfails hfree with ⟨i, hi, hnone, hbehind, hprobe⟩
    refine ⟨i, hi, ?_, hnone, hbehind, hprobe⟩
    rw [hpower, hlength]
    exact position_lt _ i

theorem getCellIx_new (hinv : Inv t) (hnew : name ∉ t.names) :
    (t.getCellIx name (hashString name)).isFound = false := by
  by_cases hcells : t.cellCapacity = 0
  · unfold getCellIx
    rw [hcells]
    rfl
  · rcases getCellIx_free hinv hnew hcells with ⟨i, _, _, _, _, hprobe⟩
    rw [hprobe]
    rfl

theorem put_cellCapacity (ix : Nat) (hash : UInt64) :
    (t.put ix name hash value).cellCapacity = t.cellCapacity :=
  List.length_set

theorem put_count (ix : Nat) (hash : UInt64) :
    (t.put ix name hash value).count = t.count + 1 :=
  List.length_append

theorem put_members (hinv : Inv t) (ix : Nat) (hash : UInt64) :
    (t.put ix name hash value).members =
      t.members ++ [(name.chars, value)] := by
  show ((t.names ++ [name]).map CString.chars).zip (t.values ++ [value]) = _
  rw [List.map_append, List.zip_append]
  · rfl
  · rw [List.length_map]
    exact hinv.values.symm

/-- The last item of a list one longer. -/
theorem getElem?_concat_cases {α : Type} {l : List α} {x y : α} {n : Nat}
    (h : (l ++ [x])[n]? = some y) :
    l[n]? = some y ∨ (n = l.length ∧ y = x) := by
  rw [List.getElem?_append] at h
  split at h
  · exact .inl h
  · right
    rcases List.getElem?_eq_some_iff.mp h with ⟨hone, heq⟩
    rw [List.length_singleton] at hone
    rw [List.getElem_singleton] at heq
    exact ⟨by omega, heq.symm⟩

/-- The invariant is kept by a member with a new name in a free cell to which
the search for it comes. -/
theorem put_inv (hinv : Inv t) (hroom : t.count < t.itemCapacity)
    (hnew : name ∉ t.names) {i : Nat} (hi : i < t.cells.length)
    (hbound : position t.cellCapacity (hashString name) i < t.cells.length)
    (hnone : cellAt t.cells (position t.cellCapacity (hashString name) i) =
      none)
    (hbehind : Behind t.cells
      (position t.cellCapacity (hashString name)) i) :
    Inv (t.put (position t.cellCapacity (hashString name) i) name
      (hashString name) value) where
  capacity := by
    rw [put_cellCapacity]
    exact hinv.capacity
  count := by
    rw [put_count]
    exact hroom
  values := by
    rw [put_count, ← hinv.values]
    exact List.length_append
  hashes := by
    show t.hashes ++ [hashString name] = (t.names ++ [name]).map hashString
    rw [List.map_append, hinv.hashes]
    rfl
  bound := by
    intro ix item hcell
    rw [put_count]
    rcases cellAt_set_cases hcell with ⟨_, rfl⟩ | hold
    · exact Nat.lt_succ_self _
    · exact Nat.lt_succ_of_lt (hinv.bound ix item hold)
  occupied := by
    rw [put_count, ← hinv.occupied]
    exact occupied_set hbound hnone
  stored := by
    intro item name' hitem
    rw [put_cellCapacity]
    rcases getElem?_concat_cases hitem with hold | ⟨rfl, rfl⟩
    · exact (hinv.stored item name' hold).set hnone
    · exact stored_set hi hbound hnone hbehind
  distinct := by
    show (t.names ++ [name]).Nodup
    rw [List.nodup_append]
    refine ⟨hinv.distinct, List.pairwise_singleton _ _, ?_⟩
    intro a ha b hb heq
    rw [List.mem_singleton.mp hb] at heq
    exact hnew (heq ▸ ha)
  cellIxs := by
    constructor
    · rw [put_count, ← hinv.cellIxs.left]
      exact List.length_append
    · intro item ix hix
      rcases getElem?_concat_cases hix with hold | ⟨rfl, rfl⟩
      · exact cellAt_set_free hnone (hinv.cellIxs.right item ix hold)
      · rw [hinv.cellIxs.left]
        exact cellAt_set_self hbound

/-- A new member is put behind the others. -/
theorem store_new (hinv : Inv t) (hroom : t.count < t.itemCapacity)
    (hnew : name ∉ t.names) (value : Json) :
    exists t', store t (t.getCellIx name (hashString name)) name
        (hashString name) value = .added t' ∧ Inv t' ∧
      t'.members = t.members ++ [(name.chars, value)] ∧
      t'.names = t.names ++ [name] ∧ t'.itemCapacity = t.itemCapacity := by
  have hcells : t.cellCapacity ≠ 0 := by
    intro hzero
    rcases hinv.capacity with ⟨_, hitems⟩ | ⟨k, _, _, hpower, _⟩
    · omega
    · have hpos := Nat.two_pow_pos k
      omega
  rcases getCellIx_free hinv hnew hcells with
    ⟨i, hi, hbound, hnone, hbehind, hprobe⟩
  rw [hprobe]
  unfold store
  rw [if_neg (Nat.not_le.mpr hroom)]
  exact ⟨_, rfl, put_inv hinv hroom hnew hi hbound hnone hbehind,
    put_members hinv _ _, rfl, rfl⟩

end Search

/-!
## Adding
-/

section Add

variable {t : JsonTable} {name : CString}

theorem addWith_present (hinv : Inv t) (h : name ∈ t.names)
    (grow : JsonTable -> Outcome) (value : Json) :
    addWith grow t name value = .failure := by
  rcases List.mem_iff_getElem?.mp h with ⟨item, hitem⟩
  rcases getCellIx_found hinv hitem with ⟨ix, hix, _⟩
  unfold addWith
  dsimp only
  rw [hix]
  exact if_pos rfl

/-- With room for a member, nothing grows. -/
theorem addWith_room (hinv : Inv t) (hroom : t.count < t.itemCapacity)
    (hnew : name ∉ t.names) (grow : JsonTable -> Outcome) (value : Json) :
    exists t', addWith grow t name value = .added t' ∧ Inv t' ∧
      t'.members = t.members ++ [(name.chars, value)] ∧
      t'.names = t.names ++ [name] ∧ t'.itemCapacity = t.itemCapacity := by
  unfold addWith
  dsimp only
  rw [getCellIx_new hinv hnew, if_neg Bool.noConfusion,
    if_neg (Nat.not_le.mpr hroom)]
  exact store_new hinv hroom hnew value

theorem add_room (hinv : Inv t) (hroom : t.count < t.itemCapacity)
    (hnew : name ∉ t.names) (depth : Nat) (value : Json) :
    exists t', add depth t name value = .added t' ∧ Inv t' ∧
      t'.members = t.members ++ [(name.chars, value)] ∧
      t'.names = t.names ++ [name] ∧ t'.itemCapacity = t.itemCapacity := by
  cases depth with
  | zero => exact addWith_room hinv hroom hnew _ value
  | succ depth => exact addWith_room hinv hroom hnew _ value

/-- A member as the lists of members have it. -/
def plain (member : CString × Json) : Bytes × Json :=
  (member.1.chars, member.2)

/-- New members that fit into the arrays are added without growing. -/
theorem addAll_room {list : List (CString × Json)} (hinv : Inv t)
    (hroom : t.count + list.length <= t.itemCapacity)
    (hnew : (t.names ++ list.map Prod.fst).Nodup) (depth : Nat) :
    exists t', addAll (add depth) t list = .added t' ∧ Inv t' ∧
      t'.members = t.members ++ list.map plain ∧
      t'.names = t.names ++ list.map Prod.fst ∧
      t'.itemCapacity = t.itemCapacity := by
  induction list generalizing t with
  | nil =>
      refine ⟨t, rfl, hinv, ?_, ?_, rfl⟩
      · rw [List.map_nil, List.append_nil]
      · rw [List.map_nil, List.append_nil]
  | cons member list ih =>
      rw [List.length_cons] at hroom
      have hfirst : member.1 ∉ t.names := by
        intro hmem
        rw [List.nodup_append] at hnew
        exact hnew.right.right _ hmem _ List.mem_cons_self rfl
      rcases add_room hinv (by omega) hfirst depth member.2 with
        ⟨t', hadd, hinv', hmembers, hnames, hitems⟩
      have hcount : t'.count = t.count + 1 := by
        unfold count
        rw [hnames, List.length_append]
        rfl
      have hnew' : (t'.names ++ list.map Prod.fst).Nodup := by
        rw [hnames, List.append_assoc]
        exact hnew
      rcases ih hinv' (by omega) hnew' with
        ⟨t'', hrest, hinv'', hmembers', hnames', hitems'⟩
      refine ⟨t'', ?_, hinv'', ?_, ?_, hitems'.trans hitems⟩
      · unfold addAll
        rw [hadd]
        exact hrest
      · rw [hmembers', hmembers, List.append_assoc]
        rfl
      · rw [hnames', hnames, List.append_assoc]
        rfl

theorem make_inv : Inv make where
  capacity := .inl ⟨rfl, rfl⟩
  count := Nat.le_refl 0
  values := rfl
  hashes := rfl
  bound := fun _ _ h => absurd (lt_of_cellAt h) (Nat.not_lt_zero _)
  occupied := rfl
  stored := nofun
  distinct := .nil
  cellIxs := ⟨rfl, nofun⟩

theorem empty_items {k : Nat} (hk : k <= 31) :
    2 ^ k * 7 / 10 % 2 ^ 32 = 2 ^ k * 7 / 10 := by
  apply Nat.mod_eq_of_lt
  have hle : 2 ^ k <= 2 ^ 31 := Nat.pow_le_pow_right (by decide) hk
  omega

theorem init_pow {k : Nat} (hk : k <= 31) :
    init (2 ^ k) = some (empty (2 ^ k)) := by
  apply if_neg
  have hle : 2 ^ k <= 2 ^ 31 := Nat.pow_le_pow_right (by decide) hk
  omega

theorem empty_inv {k : Nat} (hlow : 4 <= k) (hhigh : k <= 31) :
    Inv (empty (2 ^ k)) where
  capacity := by
    refine .inr ⟨k, hlow, hhigh, List.length_replicate, ?_⟩
    show 2 ^ k * 7 / 10 % 2 ^ 32 = _
    rw [empty_items hhigh]
    exact congrArg (fun n => n * 7 / 10) List.length_replicate.symm
  count := Nat.zero_le _
  values := rfl
  hashes := rfl
  bound := by
    intro ix item hcell
    change cellAt (List.replicate _ none) ix = some item at hcell
    rw [cellAt_replicate] at hcell
    cases hcell
  occupied := occupied_replicate (2 ^ k)
  stored := nofun
  distinct := .nil
  cellIxs := ⟨rfl, nofun⟩

/-- The most members that a table can hold. -/
def maxMembers : Nat := 2 ^ 31 * 7 / 10

/-- The capacity that a full table grows to. -/
theorem grow_capacity (hinv : Inv t) (hfull : t.itemCapacity <= t.count)
    (hsmall : t.count < maxMembers) :
    exists k, 4 <= k ∧ k <= 31 ∧
      max (t.cellCapacity * 2) startingCapacity = 2 ^ k ∧
      t.count < 2 ^ k * 7 / 10 := by
  have hcount := hinv.count
  unfold startingCapacity
  unfold maxMembers at hsmall
  rcases hinv.capacity with ⟨hzero, hitems⟩ | ⟨k, hlow, _, hpower, hitems⟩
  · exact ⟨4, by omega, by omega, by rw [hzero]; rfl, by omega⟩
  · have hsixteen : 2 ^ 4 <= 2 ^ k := Nat.pow_le_pow_right (by decide) hlow
    have hk : k + 1 <= 31 := by
      by_contra hlarge
      have hle : 2 ^ 31 <= 2 ^ k := Nat.pow_le_pow_right (by decide) (by omega)
      omega
    refine ⟨k + 1, by omega, hk, ?_, ?_⟩
    · rw [hpower, Nat.pow_succ]
      omega
    · rw [Nat.pow_succ]
      omega

/-- A full table grows to one with the same members and room for another. -/
theorem growAndRehash_spec (hinv : Inv t) (hfull : t.itemCapacity <= t.count)
    (hsmall : t.count < maxMembers) (depth : Nat) :
    exists t', growAndRehash (add depth) t = .added t' ∧ Inv t' ∧
      t'.members = t.members ∧ t'.names = t.names ∧
      t'.count < t'.itemCapacity := by
  rcases grow_capacity hinv hfull hsmall with ⟨k, hlow, hhigh, hgrown, hroom⟩
  have hzip : (t.names.zip t.values).map Prod.fst = t.names :=
    List.map_fst_zip (Nat.le_of_eq hinv.values.symm)
  have hlength : (t.names.zip t.values).length = t.count := by
    rw [List.length_zip, hinv.values]
    exact Nat.min_self _
  have hitems : (empty (2 ^ k)).itemCapacity = 2 ^ k * 7 / 10 :=
    empty_items hhigh
  have hfits : (empty (2 ^ k)).count + (t.names.zip t.values).length <=
      (empty (2 ^ k)).itemCapacity := by
    rw [hlength, hitems]
    show 0 + t.count <= _
    omega
  have hnew : ((empty (2 ^ k)).names ++
      (t.names.zip t.values).map Prod.fst).Nodup := by
    rw [hzip]
    exact hinv.distinct
  rcases addAll_room (empty_inv hlow hhigh) hfits hnew depth with
    ⟨t', hadd, hinv', hmembers, hnames, hcapacity⟩
  have hnames' : t'.names = t.names := by
    rw [hnames, hzip]
    rfl
  refine ⟨t', ?_, hinv', ?_, hnames', ?_⟩
  · unfold growAndRehash
    rw [hgrown, init_pow hhigh]
    exact hadd
  · show t'.members = (t.names.map CString.chars).zip t.values
    rw [hmembers, List.zip_map_left]
    rfl
  · rw [hcapacity, hitems]
    unfold count
    rw [hnames']
    exact hroom

/-- A new member is added, growing the table once at most. -/
theorem add_new (hinv : Inv t) (hnew : name ∉ t.names)
    (hsmall : t.count < maxMembers) (value : Json) :
    exists t', add 1 t name value = .added t' ∧ Inv t' ∧
      t'.members = t.members ++ [(name.chars, value)] ∧
      t'.names = t.names ++ [name] := by
  by_cases hfull : t.itemCapacity <= t.count
  · rcases growAndRehash_spec hinv hfull hsmall 0 with
      ⟨t', hgrown, hinv', hmembers, hnames, hroom⟩
    unfold add addWith
    dsimp only
    rw [getCellIx_new hinv hnew, if_neg Bool.noConfusion, if_pos hfull, hgrown]
    dsimp only
    rcases store_new hinv' hroom (by rw [hnames]; exact hnew) value with
      ⟨t'', hstore, hinv'', hmembers', hnames', _⟩
    exact ⟨t'', hstore, hinv'', by rw [hmembers', hmembers],
      by rw [hnames', hnames]⟩
  · rcases add_room hinv (Nat.lt_of_not_le hfull) hnew 1 value with
      ⟨t', hadd, hinv', hmembers, hnames, _⟩
    exact ⟨t', hadd, hinv', hmembers, hnames⟩

/-- A table of the most members does not get another: growing it never ends. -/
theorem add_endless (hinv : Inv t) (hmost : t.count = maxMembers)
    (hnew : name ∉ t.names) (depth : Nat) (value : Json) :
    add (depth + 1) t name value = .endless := by
  have hcount := hinv.count
  rw [hmost] at hcount
  unfold maxMembers at hcount
  rcases hinv.capacity with ⟨_, hitems⟩ | ⟨k, hlow, hhigh, hpower, hitems⟩
  · omega
  · have hk : k = 31 := by
      by_contra hne
      have hle : 2 ^ k <= 2 ^ 30 := Nat.pow_le_pow_right (by decide) (by omega)
      omega
    have hfull : t.itemCapacity <= t.count := by
      rw [hitems, hpower, hk, hmost]
      exact Nat.le_refl _
    have hgrown : max (t.cellCapacity * 2) startingCapacity = 2 ^ 32 := by
      rw [hpower, hk]
      rfl
    unfold add addWith
    dsimp only
    rw [getCellIx_new hinv hnew, if_neg Bool.noConfusion, if_pos hfull]
    unfold growAndRehash
    rw [hgrown]
    rfl

end Add

/-!
## Tables and lists of members
-/

section Refinement

variable {t : JsonTable} {name : CString}

theorem mem_names (hinv : Inv t) :
    name.chars ∈ t.members.map Prod.fst <-> name ∈ t.names := by
  unfold members
  rw [List.map_fst_zip]
  · constructor
    · intro h
      rcases List.mem_map.mp h with ⟨name', hmem, heq⟩
      rwa [← CString.ext heq]
    · intro h
      exact List.mem_map.mpr ⟨name, h, rfl⟩
  · rw [List.length_map]
    exact Nat.le_of_eq hinv.values.symm

theorem members_getElem (hinv : Inv t) {item : Nat}
    (h : t.names[item]? = some name) :
    exists value, t.values[item]? = some value ∧
      t.members[item]? = some (name.chars, value) := by
  have hlt : item < t.values.length := by
    rw [hinv.values]
    exact lt_count h
  refine ⟨t.values[item], List.getElem?_eq_getElem hlt, ?_⟩
  unfold members
  rw [List.getElem?_zip_eq_some, List.getElem?_map, h]
  exact ⟨rfl, List.getElem?_eq_getElem hlt⟩

theorem names_nodup (hinv : Inv t) : (t.members.map Prod.fst).Nodup := by
  unfold members
  rw [List.map_fst_zip]
  · exact List.Pairwise.map _ (fun a b hne heq => hne (CString.ext heq))
      hinv.distinct
  · rw [List.length_map]
    exact Nat.le_of_eq hinv.values.symm

theorem lookup_of_getElem {list : List (Bytes × Json)} {key : Bytes}
    {value : Json} {item : Nat} (hnodup : (list.map Prod.fst).Nodup)
    (h : list[item]? = some (key, value)) : list.lookup key = some value := by
  rcases List.getElem?_eq_some_iff.mp h with ⟨hlt, heq⟩
  have hsplit : list =
      list.take item ++ (key, value) :: list.drop (item + 1) := by
    rw [← heq, List.getElem_cons_drop, List.take_append_drop]
  rw [List.lookup_eq_some_iff]
  refine ⟨_, _, hsplit, ?_⟩
  intro m hm
  rw [hsplit, List.map_append, List.nodup_append] at hnodup
  rw [bne_iff_ne]
  intro hkey
  exact hnodup.right.right _ (List.mem_map_of_mem hm) key
    List.mem_cons_self hkey.symm

/-- The table is read as the list of its members. -/
theorem getnValue_eq (hinv : Inv t) (name : CString) :
    t.getnValue name = jsonObjectGetValue (some t.members) name.chars := by
  show t.getnValue name = t.members.lookup name.chars
  unfold getnValue
  by_cases hmem : name ∈ t.names
  · rcases List.mem_iff_getElem?.mp hmem with ⟨item, hitem⟩
    rcases getCellIx_found hinv hitem with ⟨ix, hix, hcell⟩
    rcases members_getElem hinv hitem with ⟨value, hvalue, hmember⟩
    rw [hix, lookup_of_getElem (names_nodup hinv) hmember]
    dsimp only
    rw [hcell]
    exact hvalue
  · have hnone : t.members.lookup name.chars = none := by
      rw [List.lookup_eq_none_iff]
      intro m hm
      rw [bne_iff_ne]
      intro heq
      apply hmem
      rw [← mem_names hinv, heq]
      exact List.mem_map_of_mem hm
    rw [hnone]
    have hmissing := getCellIx_new hinv hmem
    cases hcell : t.getCellIx name (hashString name) with
    | found ix =>
        rw [hcell] at hmissing
        cases hmissing
    | free ix => rfl
    | full => rfl

/-- Adding to the table is adding to the list of its members: it ends with the
same members, or fails, and never writes outside of an array. -/
theorem add_refines (hinv : Inv t) (hsmall : t.count < maxMembers)
    (name : CString) (value : Json) :
    match Parson.jsonObjectAdd t.members (name.chars, value) with
    | none => add 1 t name value = .failure
    | some out => exists t', add 1 t name value = .added t' ∧ Inv t' ∧
        t'.members = out ∧ t'.count = t.count + 1 := by
  cases hadd : Parson.jsonObjectAdd t.members (name.chars, value) with
  | none =>
      have hmem : name ∈ t.names := by
        by_contra hnew
        rw [Parson.jsonObjectAdd_iff.mpr
          ⟨mt (mem_names hinv).mp hnew, rfl⟩] at hadd
        cases hadd
      exact addWith_present hinv hmem _ value
  | some out =>
      rcases Parson.jsonObjectAdd_iff.mp hadd with ⟨hnew, rfl⟩
      rcases add_new hinv (mt (mem_names hinv).mpr hnew) hsmall value with
        ⟨t', hadd', hinv', hmembers, hnames⟩
      refine ⟨t', hadd', hinv', hmembers, ?_⟩
      unfold count
      rw [hnames]
      exact List.length_append

theorem addAll_refines (list : List (CString × Json)) (hinv : Inv t)
    (hsmall : t.count + list.length <= maxMembers) :
    match (list.map plain).foldlM Parson.jsonObjectAdd t.members with
    | none => addAll (add 1) t list = .failure
    | some out => exists t', addAll (add 1) t list = .added t' ∧ Inv t' ∧
        t'.members = out := by
  induction list generalizing t with
  | nil => exact ⟨t, rfl, hinv, rfl⟩
  | cons member list ih =>
      rw [List.length_cons] at hsmall
      have hone := add_refines hinv (by omega) member.1 member.2
      rw [List.map_cons, List.foldlM_cons]
      unfold addAll
      cases hadd : Parson.jsonObjectAdd t.members (plain member) with
      | none =>
          change Parson.jsonObjectAdd t.members
            (member.1.chars, member.2) = none at hadd
          rw [hadd] at hone
          dsimp only at hone ⊢
          rw [hone]
          rfl
      | some out =>
          change Parson.jsonObjectAdd t.members
            (member.1.chars, member.2) = some out at hadd
          rw [hadd] at hone
          rcases hone with ⟨t', hadd', hinv', hmembers, hcount⟩
          have hrest := ih hinv' (by omega)
          rw [hmembers] at hrest
          rw [hadd']
          exact hrest

/-- A new object to which members are added one after the other does, with
every search, what the list of the members does. -/
theorem addAll_init {list : List (CString × Json)}
    (hsmall : list.length <= maxMembers) :
    match (list.map plain).foldlM Parson.jsonObjectAdd [] with
    | none => addAll (add 1) make list = .failure
    | some out => exists t, addAll (add 1) make list = .added t ∧
        t.members = out ∧ forall name, t.getnValue name =
          jsonObjectGetValue (some out) name.chars := by
  have hcount : make.count + list.length <= maxMembers :=
    (Nat.zero_add list.length).symm ▸ hsmall
  have hrun := addAll_refines list make_inv hcount
  have hempty : make.members = [] := rfl
  rw [hempty] at hrun
  cases hadd : (list.map plain).foldlM Parson.jsonObjectAdd [] with
  | none =>
      rw [hadd] at hrun
      exact hrun
  | some out =>
      rw [hadd] at hrun
      rcases hrun with ⟨t, hadd', hinv, rfl⟩
      exact ⟨t, hadd', rfl, getnValue_eq hinv⟩

/-- Two members of one name. -/
def twice : List (CString × Json) :=
  [(literal "id", .null), (literal "name", .null), (literal "id", .null)]

theorem addAll_init_twice : addAll (add 1) make twice = .failure :=
  addAll_init (show twice.length <= maxMembers by decide)

end Refinement

end JsonTable

end Stns
