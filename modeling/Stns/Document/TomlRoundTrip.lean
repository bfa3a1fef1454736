import Stns.Document.TomlLegal
import Stns.Document.TomlTokens

/-!
# A written file is read back

The parser reads the text of a tree of tables member by member.  What it has
built is the tree so far with the members added that it has read; at the end of
the file it is the whole tree.
-/

namespace Stns

namespace TomlParser

/-!
## Trees that can be written
-/

mutual

/-- The keys of the table are distinct, and every value is one token. -/
inductive WrittenTable (valtype : CString -> Char) : TableNode -> Prop where
  | mk {t : TableNode} (explicit : t.implicit = false) (keys : t.keys.Nodup)
      (lines : forall key, key ∈ t.keys -> lineFeed ∉ key.chars)
      (kval : forall e, e ∈ t.kval -> IsToken false e.2.chars)
      (arr : forall e, e ∈ t.arr -> WrittenArray valtype e.2)
      (tab : forall e, e ∈ t.tab -> WrittenTable valtype e.2) :
      WrittenTable valtype t

/-- An array without elements has no kind, and values have the type of the
array. -/
inductive WrittenArray (valtype : CString -> Char) : ArrayNode -> Prop where
  | untyped : WrittenArray valtype .untyped
  | values {type : Char} {val : List CString} (hne : val ≠ [])
      (htype : forall v, v ∈ val -> valtype v = type)
      (h : forall v, v ∈ val -> IsToken false v.chars) :
      WrittenArray valtype (.values type val)
  | arrays {list : List ArrayNode} (hne : list ≠ [])
      (h : forall a, a ∈ list -> WrittenArray valtype a) :
      WrittenArray valtype (.arrays list)
  | tables {list : List TableNode} (hne : list ≠ [])
      (h : forall t, t ∈ list -> WrittenTable valtype t) :
      WrittenArray valtype (.tables list)

end

def WrittenMember (valtype : CString -> Char) : Member -> Prop
  | .value raw => IsToken false raw.chars
  | .array a => WrittenArray valtype a
  | .table t => WrittenTable valtype t

/-- The table with a member more. -/
def TableNode.add (t : TableNode) (m : CString × Member) : TableNode :=
  match m.2 with
  | .value raw => t.addKval m.1 raw
  | .array a => t.addArr m.1 a
  | .table next => t.addTab m.1 next

/-- An array takes an element. -/
inductive Pushes (valtype : CString -> Char) :
    ArrayNode -> Member -> ArrayNode -> Prop where
  | firstValue {raw : CString} :
      Pushes valtype .untyped (.value raw) (.values (valtype raw) [raw])
  | value {type : Char} {val : List CString} {raw : CString}
      (h : valtype raw = type) :
      Pushes valtype (.values type val) (.value raw)
        (.values type (val ++ [raw]))
  | firstArray {a : ArrayNode} :
      Pushes valtype .untyped (.array a) (.arrays [a])
  | array {list : List ArrayNode} {a : ArrayNode} :
      Pushes valtype (.arrays list) (.array a) (.arrays (list ++ [a]))
  | firstTable {t : TableNode} :
      Pushes valtype .untyped (.table t) (.tables [t])
  | table {list : List TableNode} {t : TableNode} :
      Pushes valtype (.tables list) (.table t) (.tables (list ++ [t]))

/-- An array takes one element after the other. -/
inductive Grows (valtype : CString -> Char) :
    ArrayNode -> List Member -> ArrayNode -> Prop where
  | nil {a : ArrayNode} : Grows valtype a [] a
  | cons {a a' b : ArrayNode} {e : Member} {list : List Member}
      (h : Pushes valtype a e a') (hrest : Grows valtype a' list b) :
      Grows valtype a (e :: list) b

section Trees

variable {valtype : CString -> Char}

theorem keys_members (t : TableNode) :
    t.members.map Prod.fst = t.keys := by
  unfold TableNode.members TableNode.keys
  rw [List.map_append, List.map_append, List.map_map, List.map_map,
    List.map_map]
  rfl

theorem WrittenTable.explicit {t : TableNode} (h : WrittenTable valtype t) :
    t.implicit = false := by
  rcases h with ⟨h, _⟩
  exact h

theorem WrittenTable.nodup {t : TableNode} (h : WrittenTable valtype t) :
    t.keys.Nodup := by
  rcases h with ⟨_, h, _⟩
  exact h

theorem WrittenTable.member {t : TableNode} (h : WrittenTable valtype t)
    {m : CString × Member} (hm : m ∈ t.members) :
    lineFeed ∉ m.1.chars ∧ WrittenMember valtype m.2 := by
  rcases h with ⟨_, _, hlines, hkval, harr, htab⟩
  refine ⟨hlines m.1 ?_, ?_⟩
  · rw [← keys_members]
    exact List.mem_map_of_mem hm
  · rcases List.mem_append.mp hm with hm | hm
    · rcases List.mem_map.mp hm with ⟨e, he, rfl⟩
      exact hkval e he
    · rcases List.mem_append.mp hm with hm | hm
      · rcases List.mem_map.mp hm with ⟨e, he, rfl⟩
        exact harr e he
      · rcases List.mem_map.mp hm with ⟨e, he, rfl⟩
        exact htab e he

theorem WrittenArray.element {a : ArrayNode} (h : WrittenArray valtype a)
    {e : Member} (he : e ∈ a.elements) : WrittenMember valtype e := by
  cases h with
  | untyped => cases he
  | values _ _ h =>
      rcases List.mem_map.mp he with ⟨v, hv, rfl⟩
      exact h v hv
  | arrays _ h =>
      rcases List.mem_map.mp he with ⟨b, hb, rfl⟩
      exact h b hb
  | tables _ h =>
      rcases List.mem_map.mp he with ⟨t, ht, rfl⟩
      exact h t ht

theorem foldl_addKval (implicit : Bool) (front kval : List (CString × CString))
    (arr : List (CString × ArrayNode)) (tab : List (CString × TableNode)) :
    (kval.map valueMember).foldl TableNode.add (.mk implicit front arr tab) =
      .mk implicit (front ++ kval) arr tab := by
  induction kval generalizing front with
  | nil => rw [List.append_nil]; rfl
  | cons e kval ih =>
      refine (ih (front ++ [e])).trans ?_
      rw [List.append_assoc]
      rfl

theorem foldl_addArr (implicit : Bool) (kval : List (CString × CString))
    (front arr : List (CString × ArrayNode))
    (tab : List (CString × TableNode)) :
    (arr.map arrayMember).foldl TableNode.add (.mk implicit kval front tab) =
      .mk implicit kval (front ++ arr) tab := by
  induction arr generalizing front with
  | nil => rw [List.append_nil]; rfl
  | cons e arr ih =>
      refine (ih (front ++ [e])).trans ?_
      rw [List.append_assoc]
      rfl

theorem foldl_addTab (implicit : Bool) (kval : List (CString × CString))
    (arr : List (CString × ArrayNode))
    (front tab : List (CString × TableNode)) :
    (tab.map tableMember).foldl TableNode.add (.mk implicit kval arr front) =
      .mk implicit kval arr (front ++ tab) := by
  induction tab generalizing front with
  | nil => rw [List.append_nil]; rfl
  | cons e tab ih =>
      refine (ih (front ++ [e])).trans ?_
      rw [List.append_assoc]
      rfl

theorem foldl_members {t : TableNode} (h : t.implicit = false) :
    t.members.foldl TableNode.add TableNode.empty = t := by
  cases t with
  | mk implicit kval arr tab =>
      change implicit = false at h
      rw [h]
      show ((kval.map valueMember) ++ (arr.map arrayMember ++
        tab.map tableMember)).foldl TableNode.add (.mk false [] [] []) = _
      rw [List.foldl_append, List.foldl_append, foldl_addKval, foldl_addArr,
        foldl_addTab]
      rfl

theorem mem_keys_add {t : TableNode} {m : CString × Member} {key : CString} :
    key ∈ (t.add m).keys <-> key ∈ t.keys ∨ key = m.1 := by
  rcases m with ⟨k, v⟩
  cases v <;>
    simp only [TableNode.add, TableNode.addKval, TableNode.addArr,
      TableNode.addTab, TableNode.keys, TableNode.kval, TableNode.arr,
      TableNode.tab, List.map_append, List.mem_append, List.map_cons,
      List.map_nil, List.mem_singleton] <;>
    tauto

theorem grows_values {type : Char} {front val : List CString}
    (h : forall v, v ∈ val -> valtype v = type) :
    Grows valtype (.values type front) (val.map .value)
      (.values type (front ++ val)) := by
  induction val generalizing front with
  | nil =>
      rw [List.append_nil]
      exact .nil
  | cons v val ih =>
      have hrest := @ih (front ++ [v])
        (fun w hw => h w (List.mem_cons_of_mem _ hw))
      rw [List.append_assoc] at hrest
      exact .cons (.value (h v List.mem_cons_self)) hrest

theorem grows_arrays {front list : List ArrayNode} :
    Grows valtype (.arrays front) (list.map .array)
      (.arrays (front ++ list)) := by
  induction list generalizing front with
  | nil =>
      rw [List.append_nil]
      exact .nil
  | cons a list ih =>
      have hrest := @ih (front ++ [a])
      rw [List.append_assoc] at hrest
      exact .cons .array hrest

theorem grows_tables {front list : List TableNode} :
    Grows valtype (.tables front) (list.map .table)
      (.tables (front ++ list)) := by
  induction list generalizing front with
  | nil =>
      rw [List.append_nil]
      exact .nil
  | cons t list ih =>
      have hrest := @ih (front ++ [t])
      rw [List.append_assoc] at hrest
      exact .cons .table hrest

theorem WrittenArray.grows {a : ArrayNode} (h : WrittenArray valtype a) :
    Grows valtype .untyped a.elements a := by
  cases h with
  | untyped => exact .nil
  | @values type val hne htype _ =>
      cases val with
      | nil => exact absurd rfl hne
      | cons v val =>
          have hv := htype v List.mem_cons_self
          rw [← hv] at htype ⊢
          exact .cons .firstValue (@grows_values _ _ [v] val
            (fun w hw => htype w (List.mem_cons_of_mem _ hw)))
  | @arrays list hne _ =>
      cases list with
      | nil => exact absurd rfl hne
      | cons a list => exact .cons .firstArray (@grows_arrays _ [a] list)
  | @tables list hne _ =>
      cases list with
      | nil => exact absurd rfl hne
      | cons t list => exact .cons .firstTable (@grows_tables _ [t] list)

end Trees

/-!
## What follows a token
-/

/-- The parser gets a token at the front of a text. -/
def Readable (dot : Bool) (text : Bytes) : Prop :=
  forall t : Token, t.rest = text -> Reads (nextToken dot t) (At dot text)

section Readable

variable {dot : Bool} {c : UInt8} {rest more : Bytes} {tok : TokenType}

theorem readable_of_reads {text : Bytes}
    (h : forall t : Token, t.rest = text ->
      exists good, Reads (nextToken dot t) good) : Readable dot text := by
  intro t ht
  rcases h t ht with ⟨good, hgood⟩
  cases hnext : nextToken dot t with
  | error e =>
      rw [hnext] at hgood
      exact hgood
  | ok t' => exact ⟨t, ht, hnext⟩

theorem readable_sign (hc : punctuation c = some tok) :
    Readable dot (c :: rest) :=
  readable_of_reads (fun _ ht => ⟨_, nextToken_sign hc ht⟩)

theorem readable_word {raw : Bytes} (hraw : IsToken dot raw)
    (hc : punctuation c ≠ none) : Readable dot (raw ++ c :: rest) :=
  readable_of_reads (fun _ ht => ⟨_, nextToken_word hraw hc ht⟩)

theorem readable_end : Readable dot [] :=
  readable_of_reads (fun _ ht => ⟨_, nextToken_end ht⟩)

theorem renderMembers_cons (sep : CString) (m : CString × Member)
    (ms : List (CString × Member)) (more : Bytes) :
    renderMembers sep (m :: ms) ++ more = (renderKey m.1).chars ++
      61 :: (m.2.render.chars ++ (sep.chars ++ (renderMembers sep ms ++ more)))
      := by
  show (renderKey m.1).chars ++ (61 :: (m.2.render.chars ++ sep.chars)) ++
    renderMembers sep ms ++ more = _
  simp only [List.append_assoc, List.cons_append]

theorem readable_members (sep : CString) (ms : List (CString × Member))
    (h : Readable dot more) : Readable dot (renderMembers sep ms ++ more) := by
  cases ms with
  | nil => exact h
  | cons m ms =>
      rw [renderMembers_cons]
      exact readable_word (isToken_renderKey dot m.1) (by decide)

theorem renderElements_cons (e : Member) (es : List Member) (more : Bytes) :
    renderElements (e :: es) ++ more =
      e.render.chars ++ 44 :: (renderElements es ++ more) := by
  show e.render.chars ++ [44] ++ renderElements es ++ more = _
  simp only [List.append_assoc, List.cons_append, List.nil_append]

theorem render_array (a : ArrayNode) (more : Bytes) :
    (Member.array a).render.chars ++ more =
      91 :: (renderElements a.elements ++ 93 :: more) := by
  rw [← renderArray_eq]
  show 91 :: ((renderArray a).chars ++ [93]) ++ more = _
  rw [List.cons_append, List.append_assoc]
  rfl

theorem render_table (t : TableNode) (more : Bytes) :
    (Member.table t).render.chars ++ more =
      123 :: (renderMembers (literal ",") t.members ++ 125 :: more) := by
  rw [← renderTable_eq]
  show 123 :: ((renderTable (literal ",") t).chars ++ [125]) ++ more = _
  rw [List.cons_append, List.append_assoc]
  rfl

theorem readable_member {valtype : CString -> Char} {e : Member}
    (he : WrittenMember valtype e) (hc : punctuation c ≠ none) :
    Readable false (e.render.chars ++ c :: rest) := by
  cases e with
  | value raw => exact readable_word he hc
  | array a =>
      rw [render_array]
      exact readable_sign rfl
  | table t =>
      rw [render_table]
      exact readable_sign rfl

/-- An element begins neither a line nor what follows the elements. -/
theorem at_member {valtype : CString -> Char} {e : Member} {t : Token}
    (he : WrittenMember valtype e) (hc : punctuation c ≠ none)
    (ht : At false (e.render.chars ++ c :: rest) t) :
    t.tok ≠ .newline ∧ t.tok ≠ .rbracket := by
  cases e with
  | value raw =>
      rw [(ht.word he hc).tok]
      exact ⟨TokenType.noConfusion, TokenType.noConfusion⟩
  | array a =>
      rw [render_array] at ht
      rw [(ht.sign rfl).tok]
      exact ⟨TokenType.noConfusion, TokenType.noConfusion⟩
  | table t =>
      rw [render_table] at ht
      rw [(ht.sign rfl).tok]
      exact ⟨TokenType.noConfusion, TokenType.noConfusion⟩

theorem readable_elements {valtype : CString -> Char} {es : List Member}
    (hes : forall e, e ∈ es -> WrittenMember valtype e) :
    Readable false (renderElements es ++ 93 :: rest) := by
  cases es with
  | nil => exact readable_sign rfl
  | cons e es =>
      rw [renderElements_cons]
      exact readable_member (hes e List.mem_cons_self) (by decide)

end Readable

/-!
## Members of a table
-/

section Members

variable {valtype : CString -> Char} {tab : TableNode} {key : CString}
  {t : Token} {c : UInt8} {rest : Bytes}

theorem findMember_eq_none {value : Type} {list : List (CString × value)}
    (h : key ∉ list.map Prod.fst) : findMember key list = none := by
  unfold findMember
  rw [Option.map_eq_none_iff, List.find?_eq_none]
  intro e he hkey
  apply h
  rw [of_decide_eq_true hkey]
  exact List.mem_map_of_mem he

theorem checkKey_eq_none (h : key ∉ tab.keys) : checkKey tab key = none := by
  unfold TableNode.keys at h
  rw [List.mem_append, List.mem_append, not_or, not_or] at h
  unfold checkKey
  rw [findMember_eq_none h.left, findMember_eq_none h.right.left,
    findMember_eq_none h.right.right]
  rfl

theorem setMember_last {value : Type} {list : List (CString × value)}
    (h : key ∉ list.map Prod.fst) (v w : value) :
    setMember key v (list ++ [(key, w)]) = list ++ [(key, v)] := by
  induction list with
  | nil =>
      unfold setMember
      exact if_pos rfl
  | cons e list ih =>
      have hne : key ≠ e.1 := fun heq => h (heq ▸ List.mem_cons_self)
      have hrest := fun hmem => h (List.mem_cons_of_mem _ hmem)
      rw [List.cons_append]
      unfold setMember
      rw [if_neg hne, ih hrest]
      rfl

theorem setArr_addArr (h : key ∉ tab.keys) (a b : ArrayNode) :
    (tab.addArr key a).setArr key b = tab.addArr key b := by
  unfold TableNode.keys at h
  rw [List.mem_append, List.mem_append, not_or, not_or] at h
  exact congrArg (fun arr => TableNode.mk tab.implicit tab.kval arr tab.tab)
    (setMember_last h.right.left b a)

theorem setTab_addTab (h : key ∉ tab.keys) (next next' : TableNode) :
    (tab.addTab key next).setTab key next' = tab.addTab key next' := by
  unfold TableNode.keys at h
  rw [List.mem_append, List.mem_append, not_or, not_or] at h
  exact congrArg (TableNode.mk tab.implicit tab.kval tab.arr)
    (setMember_last h.right.right next' next)

/-- Members that can be added to a table one after the other. -/
structure Addable (valtype : CString -> Char) (tab : TableNode)
    (ms : List (CString × Member)) : Prop where
  written : forall m, m ∈ ms -> lineFeed ∉ m.1.chars ∧
    WrittenMember valtype m.2
  nodup : (ms.map Prod.fst).Nodup
  fresh : forall m, m ∈ ms -> m.1 ∉ tab.keys

theorem Addable.tail {m : CString × Member} {ms : List (CString × Member)}
    (h : Addable valtype tab (m :: ms)) :
    Addable valtype (tab.add m) ms := by
  rcases h with ⟨hwritten, hnodup, hfresh⟩
  rcases List.nodup_cons.mp hnodup with ⟨hm, hms⟩
  refine ⟨fun n hn => hwritten n (List.mem_cons_of_mem _ hn), hms, ?_⟩
  intro n hn hkey
  rcases mem_keys_add.mp hkey with htab | heq
  · exact hfresh n (List.mem_cons_of_mem _ hn) htab
  · exact hm (heq ▸ List.mem_map_of_mem hn)

theorem Addable.head {m : CString × Member} {ms : List (CString × Member)}
    (h : Addable valtype tab (m :: ms)) : Addable valtype tab [m] := by
  rcases h with ⟨hwritten, _, hfresh⟩
  refine ⟨?_, List.nodup_singleton _, ?_⟩
  · intro n hn
    rw [List.mem_singleton.mp hn]
    exact hwritten m List.mem_cons_self
  · intro n hn
    rw [List.mem_singleton.mp hn]
    exact hfresh m List.mem_cons_self

theorem Addable.front {ms ns : List (CString × Member)}
    (h : Addable valtype tab (ms ++ ns)) : Addable valtype tab ms := by
  rcases h with ⟨hwritten, hnodup, hfresh⟩
  rw [List.map_append] at hnodup
  exact ⟨fun m hm => hwritten m (List.mem_append_left _ hm),
    (List.nodup_append.mp hnodup).left,
    fun m hm => hfresh m (List.mem_append_left _ hm)⟩

theorem WrittenTable.addable (h : WrittenTable valtype tab) :
    Addable valtype TableNode.empty tab.members := by
  have hmember := fun m (hm : m ∈ tab.members) => h.member hm
  rcases h with ⟨_, hkeys, _⟩
  refine ⟨hmember, ?_, fun _ _ => List.not_mem_nil⟩
  rw [keys_members]
  exact hkeys

end Members

/-!
## Values, arrays and inline tables
-/

section Values

variable {valtype : CString -> Char}

/-- The parser stands behind a text, at the sign that follows it. -/
def Behind {node : Type} (tok : TokenType) (c : UInt8) (rest : Bytes)
    (v : node) (r : Token × node) : Prop :=
  r.1.Is tok [c] rest ∧ r.2 = v

/-- What the four parsing functions read within a number of steps. -/
structure ReadsText (valtype : CString -> Char) (fuel : Nat) : Prop where
  table : forall {ms tab t c tok rest}, Addable valtype tab ms ->
    punctuation c = some tok ->
    At false (renderMembers (literal ",") ms ++ 125 :: c :: rest) t ->
    2 * (renderMembers (literal ",") ms ++ 125 :: c :: rest).length + 2 <=
      fuel ->
    Reads (parseTable valtype fuel t tab)
      (Behind tok c rest (ms.foldl TableNode.add tab))
  array : forall {es a b t c tok rest},
    (forall e, e ∈ es -> WrittenMember valtype e) -> Grows valtype a es b ->
    punctuation c = some tok ->
    At false (renderElements es ++ 93 :: c :: rest) t ->
    2 * (renderElements es ++ 93 :: c :: rest).length + 2 <= fuel ->
    Reads (parseArray valtype fuel t a) (Behind tok c rest b)
  element : forall {e a b t c tok rest}, WrittenMember valtype e ->
    Pushes valtype a e b -> punctuation c = some tok ->
    At false (e.render.chars ++ c :: rest) t ->
    2 * (e.render.chars ++ c :: rest).length + 1 <= fuel ->
    Reads (parseElement valtype fuel t a) (Behind tok c rest b)
  keyval : forall {m tab t c tok rest}, Addable valtype tab [m] ->
    punctuation c = some tok ->
    t.Is .string (renderKey m.1).chars
      (61 :: (m.2.render.chars ++ c :: rest)) ->
    2 * (m.2.render.chars ++ c :: rest).length + 3 <= fuel ->
    Reads (parseKeyval valtype fuel t tab) (Behind tok c rest (tab.add m))

section Steps

variable {fuel : Nat} {t : Token} {c : UInt8} {tok : TokenType}
  {rest : Bytes}

theorem return_reads {node : Type} {v : node} (hc : punctuation c = some tok)
    (hrest : t.rest = c :: rest) :
    Reads (do return (← nextToken false t, v)) (Behind tok c rest v) := by
  apply (nextToken_sign hc hrest).bind
  intro t' ht'
  exact ⟨ht', rfl⟩

theorem skipNewlines_sign (h : t.tok ≠ .newline) (fuel : Nat) :
    skipNewlines (fuel + 1) t = .ok t := by
  unfold skipNewlines
  rw [if_neg h]

theorem createKeyval_fresh {tab : TableNode} {t : Token} {key : CString}
    (hkey : normalizeKey t = .ok key) (h : key ∉ tab.keys) (val : CString) :
    createKeyvalInTable tab t val = .ok (tab.addKval key val) := by
  unfold createKeyvalInTable
  simp only [hkey, bind, Except.bind, checkKey_eq_none h]

theorem createKeyarray_fresh {tab : TableNode} {t : Token} {key : CString}
    (hkey : normalizeKey t = .ok key) (h : key ∉ tab.keys)
    (skipIfExist : Bool) :
    createKeyarrayInTable tab t skipIfExist =
      .ok (key, some .untyped, tab.addArr key .untyped) := by
  unfold createKeyarrayInTable
  simp only [hkey, bind, Except.bind, checkKey_eq_none h]

theorem createKeytable_fresh {tab : TableNode} {t : Token} {key : CString}
    (hkey : normalizeKey t = .ok key) (h : key ∉ tab.keys) :
    createKeytableInTable tab t =
      .ok (key, TableNode.empty, tab.addTab key TableNode.empty) := by
  unfold createKeytableInTable
  simp only [hkey, bind, Except.bind, checkKey_eq_none h]

variable (ih : ReadsText valtype fuel)

include ih

theorem parseKeyval_reads {m : CString × Member} {tab : TableNode}
    (hadd : Addable valtype tab [m]) (hc : punctuation c = some tok)
    (ht : t.Is .string (renderKey m.1).chars
      (61 :: (m.2.render.chars ++ c :: rest)))
    (hfuel : 2 * (m.2.render.chars ++ c :: rest).length + 3 <= fuel + 1) :
    Reads (parseKeyval valtype (fuel + 1) t tab)
      (Behind tok c rest (tab.add m)) := by
  rcases m with ⟨key, v⟩
  rcases hadd.written (key, v) List.mem_cons_self with ⟨hline, hwritten⟩
  have hfresh : key ∉ tab.keys := hadd.fresh (key, v) List.mem_cons_self
  have hkey : normalizeKey t = .ok key :=
    normalizeKey_renderKey ht (by decide) hline
  have hne : punctuation c ≠ none := by
    rw [hc]
    exact Option.some_ne_none _
  unfold parseKeyval
  rw [if_neg (not_not.mpr ht.tok)]
  apply (nextToken_sign (c := 61) rfl ht.rest).bind
  intro t₁ ht₁
  rw [if_neg (not_not.mpr ht₁.tok)]
  cases v with
  | value raw =>
      apply (nextToken_word hwritten hne ht₁.rest).bind
      intro t₂ ht₂
      rw [ht₂.tok]
      dsimp only
      rw [ht₂.text, CString.ofBytes_chars, createKeyval_fresh hkey hfresh]
      exact return_reads hc ht₂.rest
  | array a =>
      have hrest := ht₁.rest
      have hlength := congrArg List.length (render_array a (c :: rest))
      rw [render_array] at hrest
      apply (nextToken_sign rfl hrest).bind
      intro t₂ ht₂
      rw [ht₂.tok]
      dsimp only
      rw [createKeyarray_fresh hkey hfresh]
      have helements := fun e (he : e ∈ a.elements) =>
        WrittenArray.element hwritten he
      apply (readable_elements helements t₂ ht₂.rest).bind
      intro t₃ ht₃
      rw [List.length_cons] at hlength
      dsimp only at hfuel
      apply (ih.array helements (WrittenArray.grows hwritten) hc ht₃
        (by omega)).bind
      rintro ⟨t₄, b⟩ ⟨ht₄, hb⟩
      refine ⟨ht₄, ?_⟩
      change b = a at hb
      rw [hb]
      exact setArr_addArr hfresh .untyped a
  | table next =>
      have hrest := ht₁.rest
      have hlength := congrArg List.length (render_table next (c :: rest))
      rw [render_table] at hrest
      apply (nextToken_sign rfl hrest).bind
      intro t₂ ht₂
      rw [ht₂.tok]
      dsimp only
      rw [createKeytable_fresh hkey hfresh]
      have hreadable : Readable false (renderMembers (literal ",")
          next.members ++ 125 :: c :: rest) :=
        readable_members _ _ (readable_sign rfl)
      apply (hreadable t₂ ht₂.rest).bind
      intro t₃ ht₃
      rw [List.length_cons] at hlength
      dsimp only at hfuel
      apply (ih.table (WrittenTable.addable hwritten) hc ht₃
        (by omega)).bind
      rintro ⟨t₄, next'⟩ ⟨ht₄, hnext'⟩
      refine ⟨ht₄, ?_⟩
      change next' = _ at hnext'
      rw [hnext', foldl_members hwritten.explicit]
      exact setTab_addTab hfresh TableNode.empty next

theorem parseTable_reads {ms : List (CString × Member)} {tab : TableNode}
    (hadd : Addable valtype tab ms) (hc : punctuation c = some tok)
    (ht : At false (renderMembers (literal ",") ms ++ 125 :: c :: rest) t)
    (hfuel : 2 * (renderMembers (literal ",") ms ++ 125 :: c :: rest).length +
      2 <= fuel + 1) :
    Reads (parseTable valtype (fuel + 1) t tab)
      (Behind tok c rest (ms.foldl TableNode.add tab)) := by
  unfold parseTable
  cases ms with
  | nil =>
      have hbrace := ht.sign rfl
      rw [skipNewlines_sign (by rw [hbrace.tok]; exact TokenType.noConfusion)]
      refine yields_ok_bind ?_
      rw [hbrace.tok]
      exact return_reads hc hbrace.rest
  | cons m ms =>
      rw [renderMembers_cons] at ht hfuel
      have hkey := ht.word (isToken_renderKey false m.1) (by decide)
      rw [skipNewlines_sign (by rw [hkey.tok]; exact TokenType.noConfusion)]
      refine yields_ok_bind ?_
      rw [hkey.tok]
      change 2 * ((renderKey m.1).chars ++ 61 :: (m.2.render.chars ++
        44 :: (renderMembers (literal ",") ms ++ 125 :: c :: rest))).length +
          2 <= fuel + 1 at hfuel
      rw [List.length_append, List.length_cons] at hfuel
      apply (ih.keyval hadd.head rfl hkey
        (by change 2 * (m.2.render.chars ++ 44 :: (renderMembers (literal ",")
              ms ++ 125 :: c :: rest)).length + 3 <= fuel
            omega)).bind
      rintro ⟨t₁, tab₁⟩ ⟨ht₁, htab₁⟩
      have ht₁ : t₁.Is .comma [44] (renderMembers (literal ",") ms ++
        125 :: c :: rest) := ht₁
      change tab₁ = tab.add m at htab₁
      rw [htab₁]
      dsimp only
      rw [skipNewlines_sign (by rw [ht₁.tok]; exact TokenType.noConfusion)]
      refine yields_ok_bind ?_
      rw [ht₁.tok]
      have hreadable : Readable false (renderMembers (literal ",") ms ++
          125 :: c :: rest) :=
        readable_members _ _ (readable_sign rfl)
      apply (hreadable t₁ ht₁.rest).bind
      intro t₂ ht₂
      rw [List.length_append, List.length_cons] at hfuel
      exact ih.table hadd.tail hc ht₂ (by omega)

theorem parseElement_reads {e : Member} {a b : ArrayNode}
    (hwritten : WrittenMember valtype e) (hpush : Pushes valtype a e b)
    (hc : punctuation c = some tok)
    (ht : At false (e.render.chars ++ c :: rest) t)
    (hfuel : 2 * (e.render.chars ++ c :: rest).length + 1 <= fuel + 1) :
    Reads (parseElement valtype (fuel + 1) t a) (Behind tok c rest b) := by
  have hne : punctuation c ≠ none := by
    rw [hc]
    exact Option.some_ne_none _
  unfold parseElement
  cases e with
  | value raw =>
      have hword := ht.word hwritten hne
      rw [hword.tok]
      have hpushed : pushValue valtype t a = .ok b := by
        cases hpush with
        | firstValue =>
            unfold pushValue
            rw [hword.text, CString.ofBytes_chars]
            rfl
        | value htype =>
            unfold pushValue
            rw [hword.text, CString.ofBytes_chars]
            exact if_pos htype.symm
      dsimp only
      rw [hpushed]
      exact return_reads hc hword.rest
  | array element =>
      rw [render_array] at ht hfuel
      rw [List.length_cons] at hfuel
      have hbracket := ht.sign rfl
      rw [hbracket.tok]
      dsimp only
      have hlist : exists list, arraysOf t a = .ok list ∧
          b = .arrays (list ++ [element]) := by
        cases hpush with
        | firstArray => exact ⟨[], rfl, rfl⟩
        | @array list => exact ⟨list, rfl, rfl⟩
      rcases hlist with ⟨list, hlist, rfl⟩
      rw [hlist]
      have helements := fun e (he : e ∈ element.elements) =>
        WrittenArray.element hwritten he
      apply (readable_elements helements t hbracket.rest).bind
      intro t₁ ht₁
      apply (ih.array helements (WrittenArray.grows hwritten) hc ht₁
        (by omega)).bind
      rintro ⟨t₂, element₁⟩ ⟨ht₂, helement⟩
      change element₁ = element at helement
      rw [helement]
      exact ⟨ht₂, rfl⟩
  | table next =>
      rw [render_table] at ht hfuel
      rw [List.length_cons] at hfuel
      have hbrace := ht.sign rfl
      rw [hbrace.tok]
      dsimp only
      have hlist : exists list, tablesOf t a = .ok list ∧
          b = .tables (list ++ [next]) := by
        cases hpush with
        | firstTable => exact ⟨[], rfl, rfl⟩
        | @table list => exact ⟨list, rfl, rfl⟩
      rcases hlist with ⟨list, hlist, rfl⟩
      rw [hlist]
      have hreadable : Readable false (renderMembers (literal ",")
          next.members ++ 125 :: c :: rest) :=
        readable_members _ _ (readable_sign rfl)
      apply (hreadable t hbrace.rest).bind
      intro t₁ ht₁
      apply (ih.table (WrittenTable.addable hwritten) hc ht₁ (by omega)).bind
      rintro ⟨t₂, next₁⟩ ⟨ht₂, hnext⟩
      change next₁ = _ at hnext
      rw [hnext, foldl_members hwritten.explicit]
      exact ⟨ht₂, rfl⟩

theorem parseArray_reads {es : List Member} {a b : ArrayNode}
    (hes : forall e, e ∈ es -> WrittenMember valtype e)
    (hgrows : Grows valtype a es b) (hc : punctuation c = some tok)
    (ht : At false (renderElements es ++ 93 :: c :: rest) t)
    (hfuel : 2 * (renderElements es ++ 93 :: c :: rest).length + 2 <=
      fuel + 1) :
    Reads (parseArray valtype (fuel + 1) t a) (Behind tok c rest b) := by
  unfold parseArray
  cases hgrows with
  | nil =>
      have hbracket := ht.sign rfl
      rw [skipNewlines_sign
        (by rw [hbracket.tok]; exact TokenType.noConfusion)]
      refine yields_ok_bind ?_
      rw [hbracket.tok]
      exact return_reads hc hbracket.rest
  | @cons _ a₁ _ e es hpush hrest =>
      rw [renderElements_cons] at ht hfuel
      have he := hes e List.mem_cons_self
      have hes₁ := fun e he => hes e (List.mem_cons_of_mem _ he)
      rcases at_member he (by decide) ht with ⟨hnewline, hbracket⟩
      rw [skipNewlines_sign hnewline]
      refine yields_ok_bind ?_
      split
      · rename_i heq
        exact absurd heq hbracket
      · apply (ih.element he hpush rfl ht (by omega)).bind
        rintro ⟨t₁, a'⟩ ⟨ht₁, ha'⟩
        have ht₁ : t₁.Is .comma [44] (renderElements es ++ 93 :: c :: rest) :=
          ht₁
        change a' = a₁ at ha'
        rw [ha']
        dsimp only
        rw [skipNewlines_sign (by rw [ht₁.tok]; exact TokenType.noConfusion)]
        refine yields_ok_bind ?_
        rw [ht₁.tok]
        apply (readable_elements hes₁ t₁ ht₁.rest).bind
        intro t₂ ht₂
        rw [List.length_append, List.length_cons] at hfuel
        exact ih.array hes₁ hrest hc ht₂ (by omega)

end Steps

theorem readsText (fuel : Nat) : ReadsText valtype fuel := by
  induction fuel with
  | zero =>
      constructor
      · intro _ _ _ _ _ _ _ _ _ hfuel
        exact absurd hfuel (Nat.not_succ_le_zero _)
      · intro _ _ _ _ _ _ _ _ _ _ _ hfuel
        exact absurd hfuel (Nat.not_succ_le_zero _)
      · intro _ _ _ _ _ _ _ _ _ _ _ hfuel
        exact absurd hfuel (Nat.not_succ_le_zero _)
      · intro _ _ _ _ _ _ _ _ _ hfuel
        exact absurd hfuel (Nat.not_succ_le_zero _)
  | succ fuel ih =>
      exact ⟨parseTable_reads ih, parseArray_reads ih, parseElement_reads ih,
        parseKeyval_reads ih⟩

end Values

/-!
## Lines and headers
-/

section Lines

variable {valtype : CString -> Char}

/-- The path leads to the table at a place of the root, which another table
can take. -/
def Plugs (path : List PathStep) (plug : TableNode -> TableNode) : Prop :=
  forall {value : Type} (change : TableNode -> Parse (value × TableNode)) p,
    atPath change path (plug p) =
      change p >>= fun r => .ok (r.1, plug r.2)

theorem plugs_root : Plugs [] id := by
  intro value change p
  unfold atPath
  show change p = _
  cases change p with
  | error e => rfl
  | ok r => rfl

theorem plugs_section (implicit : Bool) (kval : List (CString × CString))
    (arr : List (CString × ArrayNode)) {front : List (CString × TableNode)}
    {key : CString} (h : key ∉ front.map Prod.fst) :
    Plugs [.sub key]
      (fun p => .mk implicit kval arr (front ++ [(key, p)])) := by
  intro value change p
  have hfind : findMember key (TableNode.mk implicit kval arr
      (front ++ [(key, p)])).tab = some p := by
    have hnone := findMember_eq_none h
    unfold TableNode.tab
    unfold findMember at hnone ⊢
    rw [Option.map_eq_none_iff] at hnone
    rw [List.find?_append, hnone, Option.none_or]
    simp only [List.find?_cons, decide_true, Option.map_some]
  unfold atPath
  dsimp only
  rw [hfind]
  dsimp only
  unfold atPath
  cases change p with
  | error e => rfl
  | ok r =>
      exact congrArg (fun tab => Except.ok (r.1, TableNode.mk implicit kval
        arr tab)) (setMember_last h r.2 p)

theorem lines_read {good : TableNode -> Prop} {curtab : List PathStep}
    {plug : TableNode -> TableNode} (hplug : Plugs curtab plug) {more : Bytes}
    (hmore : Readable false more) (ms : List (CString × Member))
    {p : TableNode} (hadd : Addable valtype p ms)
    (hnext : forall fuel t dot, At dot more t -> 2 * more.length + 2 <= fuel ->
      Reads (parseLines valtype fuel t curtab
        (plug (ms.foldl TableNode.add p))) good)
    {fuel : Nat} {t : Token} {dot : Bool}
    (ht : At dot (renderMembers (literal "\n") ms ++ more) t)
    (hfuel : 2 * (renderMembers (literal "\n") ms ++ more).length + 2 <= fuel) :
    Reads (parseLines valtype fuel t curtab (plug p)) good := by
  induction ms generalizing p fuel t dot with
  | nil => exact hnext fuel t dot ht hfuel
  | cons m ms ih =>
      rw [renderMembers_cons] at ht hfuel
      change 2 * ((renderKey m.1).chars ++ 61 :: (m.2.render.chars ++
        10 :: (renderMembers (literal "\n") ms ++ more))).length +
          2 <= fuel at hfuel
      rw [List.length_append, List.length_cons] at hfuel
      have hkey := ht.word (isToken_renderKey dot m.1) (by decide)
      cases fuel with
      | zero => exact absurd hfuel (Nat.not_succ_le_zero _)
      | succ fuel =>
          unfold parseLines
          rw [hkey.eof, hkey.tok, if_neg Bool.noConfusion]
          dsimp only
          rw [hplug]
          have hreads : ReadsText valtype fuel := readsText fuel
          have hkeyval := hreads.keyval hadd.head (c := 10) rfl hkey
            (by change 2 * (m.2.render.chars ++ 10 ::
                  (renderMembers (literal "\n") ms ++ more)).length + 3 <= fuel
                omega)
          have hline : Reads (parseKeyval valtype fuel t p >>=
              fun r => .ok (r.1, plug r.2))
              (Behind .newline 10 (renderMembers (literal "\n") ms ++ more)
                (plug (p.add m))) :=
            hkeyval.bind (fun r hr => ⟨hr.left, congrArg plug hr.right⟩)
          apply hline.bind
          rintro ⟨t₁, root₁⟩ ⟨ht₁, hroot₁⟩
          have ht₁ : t₁.Is .newline [10]
            (renderMembers (literal "\n") ms ++ more) := ht₁
          change root₁ = plug (p.add m) at hroot₁
          rw [hroot₁]
          dsimp only
          rw [if_neg (not_not.mpr ht₁.tok)]
          apply (readable_members _ ms hmore t₁ ht₁.rest).bind
          intro t₂ ht₂
          rw [List.length_append, List.length_cons] at hfuel
          exact ih hadd.tail hnext ht₂ (by omega)

theorem parseSelect_reads {root : TableNode} {key : CString} {t : Token}
    {more : Bytes} (hline : lineFeed ∉ key.chars) (hkey : key ∉ root.keys)
    (hrest : t.rest = (renderKey key).chars ++ 93 :: 10 :: more) :
    Reads (parseSelect t root) (fun r => r.1.Is .newline [10] more ∧
      r.2 = ([.sub key], root.addTab key TableNode.empty)) := by
  unfold parseSelect
  apply (nextToken_word (isToken_renderKey true key) (by decide) hrest).bind
  intro first hfirst
  have hdouble : decide (first.tok = .lbracket) = false := by
    rw [hfirst.tok]
    rfl
  have hnormal : normalizeKey first = .ok key :=
    normalizeKey_renderKey hfirst (by decide) hline
  have htpath : Reads (fillTabpath first.lineno 10 first)
      (fun r => r.1 = [(key, first)] ∧ r.2.Is .rbracket [93] (10 :: more)) := by
    unfold fillTabpath
    rw [if_neg (not_not.mpr hfirst.tok), hnormal]
    apply (nextToken_sign rfl hfirst.rest).bind
    intro next hnext
    rw [hnext.tok]
    exact ⟨rfl, hnext⟩
  rw [hdouble]
  apply htpath.bind
  rintro ⟨tpath, next⟩ ⟨hpath, hnext⟩
  change tpath = [(key, first)] at hpath
  have hnext : next.Is .rbracket [93] (10 :: more) := hnext
  rw [hpath]
  have hadd : atPath (addTable first) [] root =
      .ok (.sub key, root.addTab key TableNode.empty) := by
    unfold atPath addTable
    rw [createKeytable_fresh hnormal hkey]
    rfl
  show Reads (atPath (addTable first) [] root >>= _) _
  rw [hadd]
  show Reads (if next.tok ≠ .rbracket then _ else _) _
  rw [if_neg (not_not.mpr hnext.tok)]
  apply (nextToken_sign (c := 10) rfl hnext.rest).bind
  intro t₁ ht₁
  rw [if_neg (fun h => Bool.noConfusion h.left)]
  show Reads (if t₁.tok ≠ .newline then _ else _) _
  rw [if_neg (not_not.mpr ht₁.tok)]
  exact ⟨ht₁, rfl⟩

theorem renderSections_cons (key : CString) (t : TableNode)
    (list : List (CString × TableNode)) :
    (renderSections ((key, t) :: list)).chars =
      91 :: ((renderKey key).chars ++ 93 :: 10 ::
        (renderMembers (literal "\n") t.members ++
          (renderSections list).chars)) := by
  rw [← renderTable_eq]
  show 91 :: ((renderKey key).chars ++ (93 :: 10 ::
    (renderTable (literal "\n") t).chars)) ++ (renderSections list).chars = _
  rw [List.cons_append, List.append_assoc]
  rfl

theorem readable_sections (dot : Bool) (list : List (CString × TableNode)) :
    Readable dot (renderSections list).chars := by
  cases list with
  | nil => exact readable_end
  | cons e list =>
      rw [renderSections_cons]
      exact readable_sign rfl

theorem section_fresh {kval : List (CString × CString)}
    {arr : List (CString × ArrayNode)} {front list : List (CString × TableNode)}
    {key : CString} {sub : TableNode}
    (h : (TableNode.mk false kval arr
      (front ++ (key, sub) :: list)).keys.Nodup) :
    key ∉ (TableNode.mk false kval arr front).keys := by
  have hsplit : (TableNode.mk false kval arr
      (front ++ (key, sub) :: list)).keys =
        (TableNode.mk false kval arr front).keys ++
          key :: list.map Prod.fst := by
    simp [TableNode.keys, TableNode.kval, TableNode.arr, TableNode.tab]
  rw [hsplit] at h
  intro hmem
  exact (List.nodup_cons.mp (List.nodup_middle.mp h)).left
    (List.mem_append_left _ hmem)

theorem sections_read {kval : List (CString × CString)}
    {arr : List (CString × ArrayNode)} (list : List (CString × TableNode))
    {front : List (CString × TableNode)}
    (hkeys : (TableNode.mk false kval arr (front ++ list)).keys.Nodup)
    (hlist : forall e, e ∈ list -> lineFeed ∉ e.1.chars ∧
      WrittenTable valtype e.2)
    {curtab : List PathStep} {fuel : Nat} {t : Token} {dot : Bool}
    (ht : At dot (renderSections list).chars t)
    (hfuel : 2 * (renderSections list).chars.length + 2 <= fuel) :
    Reads (parseLines valtype fuel t curtab (.mk false kval arr front))
      (fun root => root = .mk false kval arr (front ++ list)) := by
  induction list generalizing front curtab fuel t dot with
  | nil =>
      cases fuel with
      | zero => exact absurd hfuel (Nat.not_succ_le_zero _)
      | succ fuel =>
          unfold parseLines
          rw [ht.stop, if_pos rfl, List.append_nil]
          exact rfl
  | cons e list ih =>
      rcases e with ⟨key, sub⟩
      rcases hlist (key, sub) List.mem_cons_self with ⟨hline, hsub⟩
      rw [renderSections_cons] at ht hfuel
      simp only [List.length_cons, List.length_append] at hfuel
      have hbracket := ht.sign rfl
      have hfresh := section_fresh hkeys
      cases fuel with
      | zero => exact absurd hfuel (Nat.not_succ_le_zero _)
      | succ fuel =>
          unfold parseLines
          rw [hbracket.eof, hbracket.tok, if_neg Bool.noConfusion]
          dsimp only
          apply (parseSelect_reads hline hfresh hbracket.rest).bind
          rintro ⟨t₁, curtab₁, root₁⟩ ⟨ht₁, hroot₁⟩
          have ht₁ : t₁.Is .newline [10] (renderMembers (literal "\n")
            sub.members ++ (renderSections list).chars) := ht₁
          rcases Prod.mk.inj hroot₁ with ⟨hcurtab, hroot⟩
          change curtab₁ = [.sub key] at hcurtab
          change root₁ = _ at hroot
          rw [hcurtab, hroot]
          cases fuel with
          | zero => omega
          | succ fuel =>
              dsimp only
              unfold parseLines
              rw [ht₁.eof, ht₁.tok, if_neg Bool.noConfusion]
              dsimp only
              apply (readable_members _ sub.members
                (readable_sections true list) t₁ ht₁.rest).bind
              intro t₂ ht₂
              have hfront : key ∉ front.map Prod.fst := fun hmem =>
                hfresh (List.mem_append_right _ (List.mem_append_right _ hmem))
              apply lines_read (plugs_section false kval arr hfront)
                (readable_sections false list) sub.members hsub.addable
                (fun fuel t dot ht hfuel => ?_) ht₂
                (by rw [List.length_append]; omega)
              rw [foldl_members hsub.explicit]
              have hrest : front ++ (key, sub) :: list =
                  (front ++ [(key, sub)]) ++ list := by
                rw [List.append_assoc]
                rfl
              rw [hrest] at hkeys ⊢
              exact ih hkeys (fun e he => hlist e (List.mem_cons_of_mem _ he))
                ht hfuel

end Lines

/-!
## Files
-/

/-- The file that is written for a tree of tables is parsed, and the tree is
the result. -/
theorem tomlParse_renderFile (valtype : CString -> Char) (t : TableNode)
    (h : WrittenTable valtype t) :
    tomlParse valtype (renderFile t) = .ok t := by
  have hadd := h.addable
  have hmember := fun m (hm : m ∈ t.members) => h.member hm
  have himplicit := h.explicit
  have hkeys : t.keys.Nodup := h.nodup
  cases t with
  | mk implicit kval arr tab =>
      have himplicit : implicit = false := himplicit
      rw [himplicit] at hkeys ⊢
      have hlines : Addable valtype TableNode.empty
          (kval.map valueMember ++ arr.map arrayMember) := by
        unfold TableNode.members at hadd
        rw [← List.append_assoc] at hadd
        exact hadd.front
      have hsections : forall e, e ∈ tab -> lineFeed ∉ e.1.chars ∧
          WrittenTable valtype e.2 := fun e he =>
        hmember (tableMember e) (List.mem_append_right _
          (List.mem_append_right _ (List.mem_map_of_mem he)))
      have htext : (renderFile (.mk false kval arr tab)).chars =
          renderMembers (literal "\n") (kval.map valueMember ++
            arr.map arrayMember) ++ (renderSections tab).chars := by
        rw [renderMembers_append, ← renderKvals_eq, ← renderArrs_eq,
          List.append_assoc]
        rfl
      have hread : Reads (tomlParse valtype (renderFile
          (.mk false kval arr tab))) (fun root => root =
            .mk false kval arr tab) := by
        unfold tomlParse enoughFuel parseLines
        dsimp only
        rw [if_neg Bool.noConfusion, htext]
        apply (readable_members _ _ (readable_sections true tab) _ rfl).bind
        intro t₁ ht₁
        apply lines_read plugs_root (readable_sections false tab) _ hlines
          (fun fuel t dot ht hfuel => ?_) ht₁ (by omega)
        have hroot : (kval.map valueMember ++ arr.map arrayMember).foldl
            TableNode.add TableNode.empty = .mk false kval arr [] := by
          rw [List.foldl_append, TableNode.empty, foldl_addKval,
            foldl_addArr]
          rfl
        rw [hroot]
        exact sections_read tab hkeys hsections ht hfuel
      cases hresult : tomlParse valtype (renderFile
          (.mk false kval arr tab)) with
      | error e =>
          rw [hresult] at hread
          exact hread.elim
      | ok root => rw [hread.of_ok hresult]

/-- A tree of tables that is written as a file is parsed from it. -/
theorem tomlParseFile_renderFile (valtype : CString -> Char) (t : TableNode)
    (h : WrittenTable valtype t) :
    tomlParseFile valtype (renderFile t).chars = .ok t := by
  unfold tomlParseFile
  rw [CString.ofBytes_chars]
  exact tomlParse_renderFile valtype t h

/-- The tables of {lit}`a=1`, {lit}`b=[1,2,]` and {lit}`c=1` below the header
{lit}`[d e]`. -/
def threeLines : TableNode :=
  .mk false [(literal "a", literal "1")]
    [(literal "b", .values 'i' [literal "1", literal "2"])]
    [(literal "d e", .mk false [(literal "c", literal "1")] [] [])]

theorem writtenTable_threeLines :
    WrittenTable (fun _ => 'i') threeLines := by
  have hone : IsToken false (literal "1").chars :=
    isToken_bare (by decide) (by decide)
  have htwo : IsToken false (literal "2").chars :=
    isToken_bare (by decide) (by decide)
  refine .mk rfl (by decide) ?_ ?_ ?_ ?_
  · intro key hkey
    simp only [TableNode.keys, threeLines, TableNode.kval, TableNode.arr,
      TableNode.tab, List.map_cons, List.map_nil, List.cons_append,
      List.nil_append, List.mem_cons, List.not_mem_nil, or_false] at hkey
    rcases hkey with rfl | rfl | rfl <;> decide
  · intro e he
    rw [List.mem_singleton.mp he]
    exact hone
  · intro e he
    rw [List.mem_singleton.mp he]
    refine .values (List.cons_ne_nil _ _) (fun _ _ => rfl) ?_
    intro v hv
    simp only [List.mem_cons, List.not_mem_nil, or_false] at hv
    rcases hv with rfl | rfl
    · exact hone
    · exact htwo
  · intro e he
    rw [List.mem_singleton.mp he]
    refine .mk rfl (by decide) ?_ ?_
      (fun _ h => absurd h List.not_mem_nil)
      (fun _ h => absurd h List.not_mem_nil)
    · intro key hkey
      rw [List.mem_singleton.mp hkey]
      decide
    · intro e he
      rw [List.mem_singleton.mp he]
      exact hone

theorem tomlParseFile_threeLines :
    renderFile threeLines = literal "a=1\nb=[1,2,]\n[\"d e\"]\nc=1\n" ∧
      tomlParseFile (fun _ => 'i') (renderFile threeLines).chars =
        .ok threeLines :=
  ⟨by decide, tomlParseFile_renderFile _ threeLines writtenTable_threeLines⟩

end TomlParser

end Stns
