import Stns.Document.TomlParse
import Stns.Foundation.Outcome

/-!
# Every parsed file is legal

Whatever the text of a file, the parser takes no more steps than its bound, and
in the tables that it returns no key occurs twice, at any depth.
-/

namespace Stns

namespace TomlParser

/-!
## What a token takes
-/

/-- Every end but the bound of the steps. -/
def Ends (f : Failure) : Prop :=
  f ≠ .fuel

theorem ends_syntaxError {value : Type} (good : value -> Prop) (lineno : Nat)
    (msg : String) : Yields (syntaxError lineno msg) good Ends :=
  Failure.noConfusion

theorem ends_keyExistsError {value : Type} (good : value -> Prop)
    (keytok : Token) : Yields (keyExistsError keytok) good Ends :=
  Failure.noConfusion

theorem ends_internalError {value : Type} (good : value -> Prop) :
    Yields internalError good Ends :=
  Failure.noConfusion

section Texts

variable {text rest : Bytes}

theorem findTriple_append {mark : UInt8} {s : Bytes}
    (h : findTriple mark s = some (text, rest)) : text ++ rest = s := by
  induction s generalizing text with
  | nil => cases h
  | cons c s ih =>
      unfold findTriple at h
      split at h
      · rename_i hprefix
        cases h
        have hsplit := List.prefix_iff_eq_append.mp
          (List.isPrefixOf_iff_prefix.mp hprefix)
        simpa [triple] using hsplit
      · rcases Option.map_eq_some_iff.mp h with ⟨⟨text', rest'⟩, hrest, heq⟩
        cases heq
        exact congrArg (List.cons c) (ih hrest)

theorem except_map_ok {alpha beta : Type} {x : Except String alpha}
    {f : alpha -> beta} {v : beta} (h : x.map f = .ok v) :
    exists u, x = .ok u ∧ f u = v := by
  cases x with
  | error msg => cases h
  | ok u => exact ⟨u, rfl, Except.ok.inj h⟩

theorem scanTriple_append {e : Escape} {qcnt : Nat} {s : Bytes}
    (h : scanTriple e qcnt s = .ok (text, rest)) : text ++ rest = s := by
  induction s generalizing e qcnt text with
  | nil => cases h
  | cons c s ih =>
      have hcons : forall {e' : Escape} {qcnt' : Nat},
          (scanTriple e' qcnt' s).map (consText c) = .ok (text, rest) ->
            text ++ rest = c :: s := by
        intro e' qcnt' hmap
        rcases except_map_ok hmap with ⟨⟨text', rest'⟩, hrest, heq⟩
        cases heq
        exact congrArg (List.cons c) (ih hrest)
      unfold scanTriple at h
      split at h
      · cases h
      · exact hcons h
      · split at h
        · split at h
          · cases h
            rfl
          · exact hcons h
        · exact hcons h

theorem scanQuoted_append {e : Escape} {s : Bytes}
    (h : scanQuoted e s = .ok (text, rest)) : text ++ rest = s := by
  induction s generalizing e text with
  | nil => cases h
  | cons c s ih =>
      have hcons : forall {e' : Escape},
          (scanQuoted e' s).map (consText c) = .ok (text, rest) ->
            text ++ rest = c :: s := by
        intro e' hmap
        rcases except_map_ok hmap with ⟨⟨text', rest'⟩, hrest, heq⟩
        cases heq
        exact congrArg (List.cons c) (ih hrest)
      unfold scanQuoted at h
      split at h
      · cases h
      · exact hcons h
      · split at h
        · cases h
        · split at h
          · cases h
            rfl
          · exact hcons h

theorem scanLiteral_append {s : Bytes}
    (h : scanLiteral s = .ok (text, rest)) : text ++ rest = s := by
  induction s generalizing text with
  | nil => cases h
  | cons c s ih =>
      unfold scanLiteral at h
      split at h
      · cases h
      · split at h
        · cases h
          rfl
        · rcases except_map_ok h with ⟨⟨text', rest'⟩, hrest, heq⟩
          cases heq
          exact congrArg (List.cons c) (ih hrest)

theorem drop_triple {mark : UInt8} {s : Bytes}
    (h : (triple mark).isPrefixOf s = true) : triple mark ++ s.drop 3 = s :=
  List.prefix_iff_eq_append.mp (List.isPrefixOf_iff_prefix.mp h)

theorem cons_tail {c : UInt8} {s : Bytes} (h : s.head? = some c) :
    c :: s.tail = s := by
  cases s with
  | nil => cases h
  | cons d s =>
      cases h
      rfl

/-- The text of a string and what is left behind it are the file. -/
theorem scanText_append {dotisspecial : Bool} {s : Bytes}
    (h : scanText dotisspecial s = .ok (text, rest)) : text ++ rest = s := by
  unfold scanText at h
  split at h
  · rename_i hprefix
    split at h
    · cases h
    · rename_i text' rest' hfind
      cases h
      rw [List.append_assoc, findTriple_append hfind, drop_triple hprefix]
  · split at h
    · rename_i hprefix
      rcases except_map_ok h with ⟨⟨text', rest'⟩, hscan, heq⟩
      cases heq
      rw [List.append_assoc, scanTriple_append hscan, drop_triple hprefix]
    · split at h
      · rename_i hhead
        rcases except_map_ok h with ⟨⟨text', rest'⟩, hscan, heq⟩
        cases heq
        show apostrophe :: (text' ++ rest') = s
        rw [scanLiteral_append hscan, cons_tail hhead]
      · split at h
        · rename_i hhead
          rcases except_map_ok h with ⟨⟨text', rest'⟩, hscan, heq⟩
          cases heq
          show quote :: (text' ++ rest') = s
          rw [scanQuoted_append hscan, cons_tail hhead]
        · cases h
          exact List.takeWhile_append_dropWhile

theorem skipBlanks_length (comment : Bool) (s : Bytes) :
    (skipBlanks comment s).length <= s.length := by
  induction s generalizing comment with
  | nil => cases comment <;> exact Nat.le_refl 0
  | cons c s ih =>
      cases comment with
      | true =>
          unfold skipBlanks
          split
          · exact Nat.le_refl _
          · exact Nat.le_succ_of_le (ih true)
      | false =>
          unfold skipBlanks
          split
          · exact Nat.le_succ_of_le (ih true)
          · split
            · exact Nat.le_succ_of_le (ih false)
            · exact Nat.le_refl _

end Texts

/-- A token other than a string is one character, except at the end of the
file. -/
structure Token.Sound (t : Token) : Prop where
  single : t.tok ≠ .string -> t.eof = false -> t.text.length = 1
  ending : t.eof = true -> t.tok = .newline
  left_pos : t.eof = false -> 0 < t.left

/-- A token that is not longer than what was left. -/
def Within (n : Nat) (t : Token) : Prop :=
  t.Sound ∧ t.left <= n

theorem nextToken_yields (dotisspecial : Bool) (t : Token) :
    Yields (nextToken dotisspecial t) (Within t.rest.length) Ends := by
  have hskip := skipBlanks_length false t.rest
  unfold nextToken
  dsimp only
  split
  · exact ⟨⟨fun _ h => Bool.noConfusion h, fun _ => rfl,
      fun h => Bool.noConfusion h⟩, Nat.zero_le _⟩
  · rename_i c rest hblanks
    rw [hblanks] at hskip
    have hleft : 1 + rest.length <= t.rest.length := by
      rw [Nat.add_comm]
      exact hskip
    have hpos : 0 < 1 + rest.length :=
      Nat.lt_of_lt_of_le Nat.one_pos (Nat.le_add_right _ _)
    split
    · exact ⟨⟨fun _ _ => rfl, fun h => Bool.noConfusion h, fun _ => hpos⟩,
        hleft⟩
    · split
      · exact ⟨⟨fun _ _ => rfl, fun h => Bool.noConfusion h, fun _ => hpos⟩,
          hleft⟩
      · unfold scanString
        split
        · exact ends_syntaxError _ _ _
        · rename_i text behind hscan
          have hlength := congrArg List.length (scanText_append hscan)
          rw [List.length_append] at hlength
          refine ⟨⟨fun h => absurd rfl h, fun h => Bool.noConfusion h,
            fun _ => ?_⟩, Nat.le_trans (Nat.le_of_eq hlength) hskip⟩
          exact Nat.lt_of_lt_of_eq (Nat.succ_pos _) hlength.symm

theorem Within.le {n m : Nat} {t : Token} (h : Within n t) (hle : n <= m) :
    Within m t :=
  ⟨h.left, Nat.le_trans h.right hle⟩

/-- A token that is a sign is used up by the next one. -/
theorem eat_yields (dotisspecial : Bool) {t : Token} (ht : t.Sound)
    (hstring : t.tok ≠ .string) (heof : t.eof = false) :
    Yields (nextToken dotisspecial t) (fun t' => t'.Sound ∧ t'.left < t.left)
      Ends := by
  apply (nextToken_yields dotisspecial t).mono
  intro t' ht'
  refine ⟨ht'.left, Nat.lt_of_le_of_lt ht'.right ?_⟩
  unfold Token.left
  rw [ht.single hstring heof]
  exact Nat.lt_add_of_pos_left Nat.one_pos

theorem next_yields (dotisspecial : Bool) (t : Token) {n : Nat}
    (hn : t.left <= n) : Yields (nextToken dotisspecial t) (Within n) Ends := by
  apply (nextToken_yields dotisspecial t).mono
  intro t' ht'
  exact ht'.le (Nat.le_trans (Nat.le_add_left _ _) hn)

theorem Token.Sound.not_eof {t : Token} (h : t.Sound)
    (htok : t.tok ≠ .newline) : t.eof = false := by
  cases heof : t.eof with
  | false => rfl
  | true => exact absurd (h.ending heof) htok

theorem skipNewlines_yields {fuel : Nat} {t : Token} (ht : t.Sound)
    (hfuel : t.left < fuel) :
    Yields (skipNewlines fuel t)
      (fun t' => Within t.left t' ∧ t'.tok ≠ .newline) Ends := by
  induction fuel generalizing t with
  | zero => exact absurd hfuel (Nat.not_lt_zero _)
  | succ fuel ih =>
      unfold skipNewlines
      split
      · rename_i hnewline
        split
        · exact Failure.noConfusion
        · rename_i heof
          have hstring : t.tok ≠ .string := by
            rw [hnewline]
            exact TokenType.noConfusion
          apply (eat_yields false ht hstring (Bool.eq_false_iff.mpr heof)).bind
          intro t' ht'
          apply (ih ht'.left (by have := ht'.right; omega)).mono
          intro t'' ht''
          exact ⟨ht''.left.le (Nat.le_of_lt ht'.right), ht''.right⟩
      · rename_i hnewline
        exact ⟨⟨ht, Nat.le_refl _⟩, hnewline⟩

/-!
## Legal tables
-/

mutual

/-- No key of the table occurs twice or spans lines, and its members are
legal. -/
inductive LegalTable (valtype : CString -> Char) : TableNode -> Prop where
  | mk {t : TableNode} (keys : t.keys.Nodup)
      (lines : forall key, key ∈ t.keys -> lineFeed ∉ key.chars)
      (arr : forall e, e ∈ t.arr -> LegalArray valtype e.2)
      (tab : forall e, e ∈ t.tab -> LegalTable valtype e.2) :
      LegalTable valtype t

/-- The values of the array have its type, and its members are legal. -/
inductive LegalArray (valtype : CString -> Char) : ArrayNode -> Prop where
  | untyped : LegalArray valtype .untyped
  | values {type : Char} {val : List CString}
      (h : forall v, v ∈ val -> valtype v = type) :
      LegalArray valtype (.values type val)
  | arrays {list : List ArrayNode}
      (h : forall a, a ∈ list -> LegalArray valtype a) :
      LegalArray valtype (.arrays list)
  | tables {list : List TableNode}
      (h : forall t, t ∈ list -> LegalTable valtype t) :
      LegalArray valtype (.tables list)

end

section Members

variable {value : Type} {key : CString} {v : value}
  {list : List (CString × value)}

theorem map_fst_setMember (key : CString) (v : value)
    (list : List (CString × value)) :
    (setMember key v list).map Prod.fst = list.map Prod.fst := by
  induction list with
  | nil => rfl
  | cons entry rest ih =>
      unfold setMember
      split
      · rfl
      · exact congrArg (List.cons entry.1) ih

theorem mem_setMember {e : CString × value} (h : e ∈ setMember key v list) :
    e.2 = v ∨ e ∈ list := by
  induction list with
  | nil => cases h
  | cons entry rest ih =>
      unfold setMember at h
      split at h
      · rcases List.mem_cons.mp h with rfl | hrest
        · exact .inl rfl
        · exact .inr (List.mem_cons_of_mem _ hrest)
      · rcases List.mem_cons.mp h with rfl | hrest
        · exact .inr List.mem_cons_self
        · rcases ih hrest with hv | hmem
          · exact .inl hv
          · exact .inr (List.mem_cons_of_mem _ hmem)

theorem mem_of_findMember (h : findMember key list = some v) :
    (key, v) ∈ list := by
  rcases Option.map_eq_some_iff.mp h with ⟨entry, hfind, hv⟩
  have hfound := List.find?_some hfind
  have hkey : key = entry.1 := of_decide_eq_true hfound
  rw [hkey, ← hv]
  exact List.mem_of_find?_eq_some hfind

theorem not_mem_of_findMember (h : findMember key list = none) :
    key ∉ list.map Prod.fst := by
  intro hmem
  rcases List.mem_map.mp hmem with ⟨entry, hentry, hkey⟩
  have hnone := List.find?_eq_none.mp (Option.map_eq_none_iff.mp h) entry hentry
  exact hnone (decide_eq_true hkey.symm)

end Members

section Tables

variable {valtype : CString -> Char} {t next : TableNode} {a : ArrayNode}
  {key : CString}

theorem legalTable_empty (implicit : Bool) :
    LegalTable valtype (.mk implicit [] [] []) :=
  .mk List.nodup_nil nofun nofun nofun

theorem checkKey_none (h : checkKey t key = none) : key ∉ t.keys := by
  unfold checkKey at h
  split at h
  · cases h
  · rename_i hkval
    split at h
    · cases h
    · rename_i harr
      have htab := Option.map_eq_none_iff.mp h
      unfold TableNode.keys
      rw [List.mem_append, List.mem_append]
      rintro (hmem | hmem | hmem)
      · exact not_mem_of_findMember hkval hmem
      · exact not_mem_of_findMember harr hmem
      · exact not_mem_of_findMember htab hmem

theorem LegalTable.found (h : LegalTable valtype t) {found : Found}
    (hfound : checkKey t key = some found) :
    match found with
    | .value => True
    | .array a => LegalArray valtype a
    | .table next => LegalTable valtype next := by
  rcases h with ⟨_, _, harr, htab⟩
  unfold checkKey at hfound
  split at hfound
  · cases hfound
    trivial
  · split at hfound
    · rename_i hfind
      cases hfound
      exact harr _ (mem_of_findMember hfind)
    · rcases Option.map_eq_some_iff.mp hfound with ⟨next, hfind, heq⟩
      cases heq
      exact htab _ (mem_of_findMember hfind)

/-- A new key is put between the others. -/
theorem keys_insert (h : LegalTable valtype t) (front back : List CString)
    (hsplit : t.keys = front ++ back) (hkey : key ∉ t.keys)
    (hline : lineFeed ∉ key.chars) :
    (front ++ key :: back).Nodup ∧
      forall k, k ∈ front ++ key :: back -> lineFeed ∉ k.chars := by
  rcases h with ⟨hkeys, hlines, _, _⟩
  rw [hsplit] at hkeys hlines hkey
  have hperm : (front ++ key :: back).Perm (key :: (front ++ back)) :=
    List.perm_middle
  refine ⟨hperm.nodup_iff.mpr (List.nodup_cons.mpr ⟨hkey, hkeys⟩), ?_⟩
  intro k hk
  rcases List.mem_cons.mp (hperm.mem_iff.mp hk) with rfl | hmem
  · exact hline
  · exact hlines k hmem

theorem LegalTable.addKval (h : LegalTable valtype t) (hkey : key ∉ t.keys)
    (hline : lineFeed ∉ key.chars) (val : CString) :
    LegalTable valtype (t.addKval key val) := by
  have hkeys : (t.addKval key val).keys = t.kval.map Prod.fst ++
      key :: (t.arr.map Prod.fst ++ t.tab.map Prod.fst) := by
    simp [TableNode.addKval, TableNode.keys, TableNode.kval, TableNode.arr,
      TableNode.tab]
  have hinsert := keys_insert h (t.kval.map Prod.fst) _ rfl hkey hline
  rw [← hkeys] at hinsert
  rcases h with ⟨_, _, harr, htab⟩
  exact .mk hinsert.left hinsert.right harr htab

theorem LegalTable.addArr (h : LegalTable valtype t) (hkey : key ∉ t.keys)
    (hline : lineFeed ∉ key.chars) (ha : LegalArray valtype a) :
    LegalTable valtype (t.addArr key a) := by
  have hkeys : (t.addArr key a).keys =
      (t.kval.map Prod.fst ++ t.arr.map Prod.fst) ++
        key :: t.tab.map Prod.fst := by
    simp [TableNode.addArr, TableNode.keys, TableNode.kval, TableNode.arr,
      TableNode.tab]
  have hinsert := keys_insert h (t.kval.map Prod.fst ++ t.arr.map Prod.fst) _
    (List.append_assoc _ _ _).symm hkey hline
  rw [← hkeys] at hinsert
  rcases h with ⟨_, _, harr, htab⟩
  refine .mk hinsert.left hinsert.right ?_ htab
  intro e he
  rcases List.mem_append.mp he with he | he
  · exact harr e he
  · rw [List.mem_singleton.mp he]
    exact ha

theorem LegalTable.addTab (h : LegalTable valtype t) (hkey : key ∉ t.keys)
    (hline : lineFeed ∉ key.chars) (hnext : LegalTable valtype next) :
    LegalTable valtype (t.addTab key next) := by
  have hkeys : (t.addTab key next).keys =
      t.keys ++ key :: [] := by
    simp [TableNode.addTab, TableNode.keys, TableNode.kval, TableNode.arr,
      TableNode.tab]
  have hinsert := keys_insert h t.keys [] (List.append_nil _).symm hkey hline
  rw [← hkeys] at hinsert
  rcases h with ⟨_, _, harr, htab⟩
  refine .mk hinsert.left hinsert.right harr ?_
  intro e he
  rcases List.mem_append.mp he with he | he
  · exact htab e he
  · rw [List.mem_singleton.mp he]
    exact hnext

theorem LegalTable.setArr (h : LegalTable valtype t)
    (ha : LegalArray valtype a) : LegalTable valtype (t.setArr key a) := by
  have hkeys : (t.setArr key a).keys = t.keys := by
    unfold TableNode.setArr TableNode.keys
    exact congrArg (fun keys => t.kval.map Prod.fst ++
      (keys ++ t.tab.map Prod.fst)) (map_fst_setMember key a t.arr)
  rcases h with ⟨hnodup, hlines, harr, htab⟩
  rw [← hkeys] at hnodup hlines
  refine .mk hnodup hlines ?_ htab
  intro e he
  rcases mem_setMember he with hv | hmem
  · rw [hv]
    exact ha
  · exact harr e hmem

theorem LegalTable.setTab (h : LegalTable valtype t)
    (hnext : LegalTable valtype next) :
    LegalTable valtype (t.setTab key next) := by
  have hkeys : (t.setTab key next).keys = t.keys := by
    unfold TableNode.setTab TableNode.keys
    exact congrArg (fun keys => t.kval.map Prod.fst ++
      (t.arr.map Prod.fst ++ keys)) (map_fst_setMember key next t.tab)
  rcases h with ⟨hnodup, hlines, harr, htab⟩
  rw [← hkeys] at hnodup hlines
  refine .mk hnodup hlines harr ?_
  intro e he
  rcases mem_setMember he with hv | hmem
  · rw [hv]
    exact hnext
  · exact htab e hmem

theorem LegalTable.explicit (h : LegalTable valtype t) :
    LegalTable valtype t.explicit := by
  rcases h with ⟨hnodup, hlines, harr, htab⟩
  exact .mk hnodup hlines harr htab

theorem LegalArray.last (h : LegalArray valtype a)
    {back : TableNode -> ArrayNode} (hlast : lastTable a = some (t, back)) :
    LegalTable valtype t ∧
      forall t', LegalTable valtype t' -> LegalArray valtype (back t') := by
  cases h with
  | tables hlist =>
      unfold lastTable at hlast
      dsimp only at hlast
      split at hlast
      · cases hlast
      · rename_i last hget
        cases hlast
        refine ⟨hlist _ (List.mem_of_getLast? hget), ?_⟩
        intro t' ht'
        refine .tables ?_
        intro u hu
        rcases List.mem_append.mp hu with hu | hu
        · exact hlist u ((List.dropLast_sublist _).subset hu)
        · rw [List.mem_singleton.mp hu]
          exact ht'
  | untyped => cases hlast
  | values => cases hlast
  | arrays => cases hlast

end Tables

/-!
## Keys and members
-/

section Creating

variable {valtype : CString -> Char} {t : TableNode}

theorem oneLine_yields (lineno : Nat) (ret : CString) :
    Yields (oneLine lineno ret) (fun key => lineFeed ∉ key.chars) Ends := by
  unfold oneLine
  split
  · exact ends_syntaxError _ _ _
  · rename_i hline
    exact hline

theorem normalizeKey_yields (keytok : Token) :
    Yields (normalizeKey keytok) (fun key => lineFeed ∉ key.chars) Ends := by
  unfold normalizeKey
  split
  · exact oneLine_yields _ _
  · split
    · split
      · exact Failure.noConfusion
      · exact oneLine_yields _ _
    · split
      · rename_i hbare
        intro hmem
        have hsub : lineFeed ∈ keytok.text :=
          (List.takeWhile_prefix _).subset hmem
        have hkey := List.all_eq_true.mp hbare lineFeed hsub
        exact absurd hkey (by decide)
      · exact ends_syntaxError _ _ _

theorem createKeyvalInTable_yields (ht : LegalTable valtype t)
    (keytok : Token) (val : CString) :
    Yields (createKeyvalInTable t keytok val) (LegalTable valtype) Ends := by
  apply (normalizeKey_yields keytok).bind
  intro key hline
  cases hcheck : checkKey t key with
  | some found => exact ends_keyExistsError _ _
  | none => exact ht.addKval (checkKey_none hcheck) hline val

theorem createKeytableInTable_yields (ht : LegalTable valtype t)
    (keytok : Token) :
    Yields (createKeytableInTable t keytok)
      (fun r => LegalTable valtype r.2.1 ∧ LegalTable valtype r.2.2) Ends := by
  apply (normalizeKey_yields keytok).bind
  intro key hline
  cases hcheck : checkKey t key with
  | none =>
      exact ⟨legalTable_empty false,
        ht.addTab (checkKey_none hcheck) hline (legalTable_empty false)⟩
  | some found =>
      cases found with
      | value => exact ends_keyExistsError _ _
      | array a => exact ends_keyExistsError _ _
      | table next =>
          have hnext : LegalTable valtype next := ht.found hcheck
          dsimp only
          split
          · exact ⟨hnext.explicit, ht.setTab hnext.explicit⟩
          · exact ends_keyExistsError _ _

theorem createKeyarrayInTable_yields (ht : LegalTable valtype t)
    (keytok : Token) (skipIfExist : Bool) :
    Yields (createKeyarrayInTable t keytok skipIfExist)
      (fun r => (forall a, r.2.1 = some a -> LegalArray valtype a) ∧
        LegalTable valtype r.2.2) Ends := by
  apply (normalizeKey_yields keytok).bind
  intro key hline
  cases hcheck : checkKey t key with
  | none =>
      refine ⟨?_, ht.addArr (checkKey_none hcheck) hline .untyped⟩
      intro a ha
      cases ha
      exact .untyped
  | some found =>
      dsimp only
      split
      · cases found with
        | value => exact ⟨nofun, ht⟩
        | table next => exact ⟨nofun, ht⟩
        | array a =>
            refine ⟨?_, ht⟩
            intro b hb
            cases hb
            exact ht.found hcheck
      · exact ends_keyExistsError _ _

theorem pushValue_yields {a : ArrayNode} (ha : LegalArray valtype a)
    (tok : Token) :
    Yields (pushValue valtype tok a) (LegalArray valtype) Ends := by
  cases a with
  | untyped =>
      refine .values ?_
      intro v hv
      rw [List.mem_singleton.mp hv]
  | values type val =>
      rcases ha with _ | hval
      unfold pushValue
      dsimp only
      split
      · rename_i htype
        refine .values ?_
        intro v hv
        rcases List.mem_append.mp hv with hv | hv
        · exact hval v hv
        · rw [List.mem_singleton.mp hv]
          exact htype.symm
      · exact ends_syntaxError _ _ _
  | arrays list => exact ends_syntaxError _ _ _
  | tables list => exact ends_syntaxError _ _ _

theorem arraysOf_yields {a : ArrayNode} (ha : LegalArray valtype a)
    (tok : Token) :
    Yields (arraysOf tok a)
      (fun list => forall b, b ∈ list -> LegalArray valtype b) Ends := by
  cases a with
  | untyped => exact nofun
  | arrays list =>
      cases ha with
      | arrays h => exact h
  | values type val => exact ends_syntaxError _ _ _
  | tables list => exact ends_syntaxError _ _ _

theorem tablesOf_yields {a : ArrayNode} (ha : LegalArray valtype a)
    (tok : Token) :
    Yields (tablesOf tok a)
      (fun list => forall t, t ∈ list -> LegalTable valtype t) Ends := by
  cases a with
  | untyped => exact nofun
  | tables list =>
      cases ha with
      | tables h => exact h
  | values type val => exact ends_syntaxError _ _ _
  | arrays list => exact ends_syntaxError _ _ _

end Creating

/-!
## Values, arrays and inline tables
-/

section Parsing

variable {valtype : CString -> Char}

/-- A parse that uses up no more than is left, and returns what is legal. -/
def LegalParse {node : Type} (legal : node -> Prop) (n : Nat)
    (x : Parse (Token × node)) : Prop :=
  Yields x (fun r => Within n r.1 ∧ legal r.2) Ends

theorem return_legal {node : Type} {legal : node -> Prop} {n : Nat}
    {t : Token} {v : node} (hn : t.left <= n) (hv : legal v) :
    LegalParse legal n (do return (← nextToken false t, v)) := by
  apply (next_yields false t hn).bind
  intro t' ht'
  exact ⟨ht', hv⟩

/-- What the four parsing functions do within a number of steps. -/
structure ParsesLegal (valtype : CString -> Char) (fuel : Nat) : Prop where
  table : forall t tab, t.Sound -> 2 * t.left + 2 <= fuel ->
    LegalTable valtype tab ->
    LegalParse (LegalTable valtype) t.left (parseTable valtype fuel t tab)
  array : forall t arr, t.Sound -> 2 * t.left + 2 <= fuel ->
    LegalArray valtype arr ->
    LegalParse (LegalArray valtype) t.left (parseArray valtype fuel t arr)
  element : forall t arr, t.Sound -> 2 * t.left + 1 <= fuel ->
    LegalArray valtype arr ->
    LegalParse (LegalArray valtype) t.left (parseElement valtype fuel t arr)
  keyval : forall t tab n, t.left <= n + 1 -> 2 * t.left + 1 <= fuel ->
    LegalTable valtype tab ->
    LegalParse (LegalTable valtype) n (parseKeyval valtype fuel t tab)

theorem LegalParse.le {node : Type} {legal : node -> Prop} {n m : Nat}
    {x : Parse (Token × node)} (h : LegalParse legal n x) (hle : n <= m) :
    LegalParse legal m x :=
  h.mono (fun _ hr => ⟨hr.left.le hle, hr.right⟩)

/-- A sign is eaten, and the parse goes on behind it. -/
theorem eat_legal {node : Type} {legal : node -> Prop} {n : Nat} {t : Token}
    {next : Token -> Parse (Token × node)} (ht : t.Sound)
    (hstring : t.tok ≠ .string) (hnewline : t.tok ≠ .newline)
    (hn : t.left <= n + 1)
    (h : forall t', t'.Sound -> t'.left < t.left ->
      LegalParse legal t'.left (next t')) :
    LegalParse legal n (nextToken false t >>= next) := by
  apply (eat_yields false ht hstring (ht.not_eof hnewline)).bind
  intro t' ht'
  exact (h t' ht'.left ht'.right).le
    (Nat.le_of_lt_succ (Nat.lt_of_lt_of_le ht'.right hn))

theorem sign_of_eq {t : Token} {tok : TokenType} (h : t.tok = tok)
    (hstring : tok ≠ .string) (hnewline : tok ≠ .newline) :
    t.tok ≠ .string ∧ t.tok ≠ .newline := by
  rw [h]
  exact ⟨hstring, hnewline⟩

section Steps

variable {fuel : Nat} (ih : ParsesLegal valtype fuel)

include ih

theorem parseTable_legal {t : Token} {tab : TableNode} (ht : t.Sound)
    (hfuel : 2 * t.left + 2 <= fuel + 1) (htab : LegalTable valtype tab) :
    LegalParse (LegalTable valtype) t.left
      (parseTable valtype (fuel + 1) t tab) := by
  unfold parseTable
  apply (skipNewlines_yields ht (by omega)).bind
  rintro t₁ ⟨⟨ht₁, hle₁⟩, _⟩
  split
  · exact return_legal hle₁ htab
  · apply (ih.keyval t₁ tab t₁.left (Nat.le_succ _) (by omega) htab).bind
    rintro ⟨t₂, tab₂⟩ ⟨⟨ht₂, hle₂⟩, htab₂⟩
    have hle₂ : t₂.left <= t₁.left := hle₂
    apply (skipNewlines_yields ht₂ (by omega)).bind
    rintro t₃ ⟨⟨ht₃, hle₃⟩, hnewline⟩
    have hle : t₃.left <= t.left := by omega
    split
    · rename_i hcomma
      have hsign := sign_of_eq hcomma TokenType.noConfusion
        TokenType.noConfusion
      apply eat_legal ht₃ hsign.left hsign.right (Nat.le_succ_of_le hle)
      intro t₄ ht₄ hlt₄
      exact ih.table t₄ tab₂ ht₄ (by omega) htab₂
    · exact return_legal hle htab₂
    · exact ends_syntaxError _ _ _
  · exact ends_syntaxError _ _ _

theorem parseArray_legal {t : Token} {arr : ArrayNode} (ht : t.Sound)
    (hfuel : 2 * t.left + 2 <= fuel + 1) (harr : LegalArray valtype arr) :
    LegalParse (LegalArray valtype) t.left
      (parseArray valtype (fuel + 1) t arr) := by
  unfold parseArray
  apply (skipNewlines_yields ht (by omega)).bind
  rintro t₁ ⟨⟨ht₁, hle₁⟩, _⟩
  split
  · exact return_legal hle₁ harr
  · apply (ih.element t₁ arr ht₁ (by omega) harr).bind
    rintro ⟨t₂, arr₂⟩ ⟨⟨ht₂, hle₂⟩, harr₂⟩
    have hle₂ : t₂.left <= t₁.left := hle₂
    apply (skipNewlines_yields ht₂ (by omega)).bind
    rintro t₃ ⟨⟨ht₃, hle₃⟩, hnewline⟩
    have hle : t₃.left <= t.left := by omega
    split
    · rename_i hcomma
      have hsign := sign_of_eq hcomma TokenType.noConfusion
        TokenType.noConfusion
      apply eat_legal ht₃ hsign.left hsign.right (Nat.le_succ_of_le hle)
      intro t₄ ht₄ hlt₄
      exact ih.array t₄ arr₂ ht₄ (by omega) harr₂
    · exact return_legal hle harr₂
    · exact ends_syntaxError _ _ _

theorem parseElement_legal {t : Token} {arr : ArrayNode} (ht : t.Sound)
    (hfuel : 2 * t.left + 1 <= fuel + 1) (harr : LegalArray valtype arr) :
    LegalParse (LegalArray valtype) t.left
      (parseElement valtype (fuel + 1) t arr) := by
  unfold parseElement
  split
  · apply (pushValue_yields harr t).bind
    intro arr₁ harr₁
    exact return_legal (Nat.le_refl _) harr₁
  · rename_i hbracket
    have hsign := sign_of_eq hbracket TokenType.noConfusion
      TokenType.noConfusion
    apply (arraysOf_yields harr t).bind
    intro list hlist
    apply eat_legal ht hsign.left hsign.right (Nat.le_succ _)
    intro t₁ ht₁ hlt₁
    apply (ih.array t₁ .untyped ht₁ (by omega) .untyped).bind
    rintro ⟨t₂, element⟩ ⟨ht₂, helement⟩
    refine ⟨ht₂, .arrays ?_⟩
    intro a ha
    rcases List.mem_append.mp ha with ha | ha
    · exact hlist a ha
    · rw [List.mem_singleton.mp ha]
      exact helement
  · rename_i hbrace
    have hsign := sign_of_eq hbrace TokenType.noConfusion
      TokenType.noConfusion
    apply (tablesOf_yields harr t).bind
    intro list hlist
    apply eat_legal ht hsign.left hsign.right (Nat.le_succ _)
    intro t₁ ht₁ hlt₁
    apply (ih.table t₁ _ ht₁ (by omega) (legalTable_empty false)).bind
    rintro ⟨t₂, element⟩ ⟨ht₂, helement⟩
    refine ⟨ht₂, .tables ?_⟩
    intro u hu
    rcases List.mem_append.mp hu with hu | hu
    · exact hlist u hu
    · rw [List.mem_singleton.mp hu]
      exact helement
  · exact ends_syntaxError _ _ _

theorem parseKeyval_legal {t : Token} {tab : TableNode} {n : Nat}
    (hn : t.left <= n + 1) (hfuel : 2 * t.left + 1 <= fuel + 1)
    (htab : LegalTable valtype tab) :
    LegalParse (LegalTable valtype) n
      (parseKeyval valtype (fuel + 1) t tab) := by
  unfold parseKeyval
  split
  · exact ends_internalError _
  · apply (next_yields false t (Nat.le_refl _)).bind
    rintro t₁ ⟨ht₁, hle₁⟩
    split
    · exact ends_syntaxError _ _ _
    · rename_i hequal
      have hsign := sign_of_eq (not_not.mp hequal) TokenType.noConfusion
        TokenType.noConfusion
      apply eat_legal ht₁ hsign.left hsign.right (Nat.le_trans hle₁ hn)
      intro t₂ ht₂ hlt₂
      split
      · apply (createKeyvalInTable_yields htab t _).bind
        intro tab₁ htab₁
        exact return_legal (Nat.le_refl _) htab₁
      · rename_i hbracket
        have hsign := sign_of_eq hbracket TokenType.noConfusion
          TokenType.noConfusion
        apply (createKeyarrayInTable_yields htab t false).bind
        rintro ⟨newkey, found, tab₁⟩ ⟨_, htab₁⟩
        apply eat_legal ht₂ hsign.left hsign.right (Nat.le_succ _)
        intro t₃ ht₃ hlt₃
        apply (ih.array t₃ .untyped ht₃ (by omega) .untyped).bind
        rintro ⟨t₄, arr⟩ ⟨ht₄, harr⟩
        exact ⟨ht₄, LegalTable.setArr htab₁ harr⟩
      · rename_i hbrace
        have hsign := sign_of_eq hbrace TokenType.noConfusion
          TokenType.noConfusion
        apply (createKeytableInTable_yields htab t).bind
        rintro ⟨newkey, next, tab₁⟩ ⟨hnext, htab₁⟩
        apply eat_legal ht₂ hsign.left hsign.right (Nat.le_succ _)
        intro t₃ ht₃ hlt₃
        apply (ih.table t₃ next ht₃ (by omega) hnext).bind
        rintro ⟨t₄, next₁⟩ ⟨ht₄, hnext₁⟩
        exact ⟨ht₄, LegalTable.setTab htab₁ hnext₁⟩
      · exact ends_syntaxError _ _ _

end Steps

theorem parsesLegal (fuel : Nat) : ParsesLegal valtype fuel := by
  induction fuel with
  | zero =>
      constructor
      · intro t _ _ hfuel
        exact absurd hfuel (Nat.not_succ_le_zero _)
      · intro t _ _ hfuel
        exact absurd hfuel (Nat.not_succ_le_zero _)
      · intro t _ _ hfuel
        exact absurd hfuel (Nat.not_succ_le_zero _)
      · intro t _ _ _ hfuel
        exact absurd hfuel (Nat.not_succ_le_zero _)
  | succ fuel ih =>
      exact ⟨fun _ _ => parseTable_legal ih, fun _ _ => parseArray_legal ih,
        fun _ _ => parseElement_legal ih, fun _ _ _ => parseKeyval_legal ih⟩

end Parsing

/-!
## Headers and files
-/

section Files

variable {valtype : CString -> Char}

theorem atPath_yields {value : Type}
    {change : TableNode -> Parse (value × TableNode)}
    (hchange : forall tab, LegalTable valtype tab ->
      Yields (change tab) (fun r => LegalTable valtype r.2) Ends)
    (path : List PathStep) {tab : TableNode} (htab : LegalTable valtype tab)
    (good : value -> Prop)
    (hgood : forall tab, LegalTable valtype tab ->
      Yields (change tab) (fun r => good r.1) Ends) :
    Yields (atPath change path tab)
      (fun r => good r.1 ∧ LegalTable valtype r.2) Ends := by
  induction path generalizing tab with
  | nil =>
      have hboth := And.intro (hchange tab htab) (hgood tab htab)
      unfold atPath
      cases hresult : change tab with
      | error e =>
          rw [hresult] at hboth
          exact hboth.left
      | ok r =>
          rw [hresult] at hboth
          exact ⟨hboth.right, hboth.left⟩
  | cons step path ih =>
      cases step with
      | sub key =>
          unfold atPath
          split
          · exact ends_internalError _
          · rename_i next hfind
            have hnext : LegalTable valtype next := by
              rcases htab with ⟨_, _, _, hmembers⟩
              exact hmembers _ (mem_of_findMember hfind)
            apply (ih hnext).bind
            rintro ⟨v, next₁⟩ ⟨hv, hnext₁⟩
            exact ⟨hv, LegalTable.setTab htab hnext₁⟩
      | last key =>
          unfold atPath
          split
          · exact ends_internalError _
          · rename_i next back hfind
            rcases Option.bind_eq_some_iff.mp hfind with ⟨a, ha, hlast⟩
            have harr : LegalArray valtype a := by
              rcases htab with ⟨_, _, hmembers, _⟩
              exact hmembers _ (mem_of_findMember ha)
            rcases harr.last hlast with ⟨hnext, hback⟩
            apply (ih hnext).bind
            rintro ⟨v, next₁⟩ ⟨hv, hnext₁⟩
            exact ⟨hv, LegalTable.setArr htab (hback next₁ hnext₁)⟩

/-- The keys of a header are legal, and the token behind them is a bracket. -/
structure LegalPath (n : Nat) (r : List (CString × Token) × Token) : Prop where
  lines : forall e, e ∈ r.1 -> lineFeed ∉ e.1.chars
  next : Within n r.2
  bracket : r.2.tok = .rbracket

theorem fillTabpath_yields (lineno room : Nat) (t : Token) :
    Yields (fillTabpath lineno room t) (LegalPath t.left) Ends := by
  induction room generalizing t with
  | zero => exact ends_syntaxError _ _ _
  | succ room ih =>
      unfold fillTabpath
      split
      · exact ends_syntaxError _ _ _
      · apply (normalizeKey_yields t).bind
        intro key hline
        apply (next_yields true t (Nat.le_refl _)).bind
        intro t₁ ht₁
        split
        · rename_i hbracket
          refine ⟨?_, ht₁, hbracket⟩
          intro e he
          rw [List.mem_singleton.mp he]
          exact hline
        · apply (next_yields true t₁ ht₁.right).bind
          intro t₂ ht₂
          apply (ih t₂).bind
          rintro ⟨path, t₃⟩ ⟨hlines, ht₃, hbracket⟩
          refine ⟨?_, ht₃.le ht₂.right, hbracket⟩
          intro e he
          rcases List.mem_cons.mp he with rfl | he
          · exact hline
          · exact hlines e he
        · exact ends_syntaxError _ _ _

theorem walkTabpath_yields (tpath : List (CString × Token))
    (hlines : forall e, e ∈ tpath -> lineFeed ∉ e.1.chars) {tab : TableNode}
    (htab : LegalTable valtype tab) :
    Yields (walkTabpath tpath tab) (fun r => LegalTable valtype r.2) Ends := by
  induction tpath generalizing tab with
  | nil => exact htab
  | cons entry rest ih =>
      rcases entry with ⟨key, tok⟩
      have hrest := fun e he => hlines e (List.mem_cons_of_mem _ he)
      unfold walkTabpath
      split
      · rename_i next hcheck
        apply (ih hrest (LegalTable.found htab hcheck)).bind
        rintro ⟨path, next₁⟩ hnext₁
        exact LegalTable.setTab htab hnext₁
      · rename_i a hcheck
        split
        · exact ends_internalError _
        · rename_i next back hlast
          have ha : LegalArray valtype a := LegalTable.found htab hcheck
          rcases ha.last hlast with ⟨hnext, hback⟩
          apply (ih hrest hnext).bind
          rintro ⟨path, next₁⟩ hnext₁
          exact LegalTable.setArr htab (hback next₁ hnext₁)
      · exact ends_keyExistsError _ _
      · rename_i hcheck
        apply (ih hrest (legalTable_empty true)).bind
        rintro ⟨path, next₁⟩ hnext₁
        exact LegalTable.addTab htab (checkKey_none hcheck)
          (hlines (key, tok) List.mem_cons_self) hnext₁

theorem addTable_yields {tab : TableNode} (htab : LegalTable valtype tab)
    (z : Token) :
    Yields (addTable z tab) (fun r => LegalTable valtype r.2) Ends := by
  apply (createKeytableInTable_yields htab z).bind
  rintro ⟨key, next, tab₁⟩ ⟨_, htab₁⟩
  exact htab₁

theorem addToArray_yields {tab : TableNode} (htab : LegalTable valtype tab)
    (z : Token) :
    Yields (addToArray z tab) (fun r => LegalTable valtype r.2) Ends := by
  apply (createKeyarrayInTable_yields htab z true).bind
  rintro ⟨key, found, tab₁⟩ ⟨hfound, htab₁⟩
  cases found with
  | none => exact ends_syntaxError _ _ _
  | some a =>
      have ha : LegalArray valtype a := hfound a rfl
      cases a with
      | untyped =>
          refine LegalTable.setArr htab₁ (.tables ?_)
          intro t ht
          rw [List.mem_singleton.mp ht]
          exact legalTable_empty false
      | tables list =>
          cases ha with
          | tables hlist =>
              refine LegalTable.setArr htab₁ (.tables ?_)
              intro t ht
              rcases List.mem_append.mp ht with ht | ht
              · exact hlist t ht
              · rw [List.mem_singleton.mp ht]
                exact legalTable_empty false
      | values type val => exact ends_syntaxError _ _ _
      | arrays list => exact ends_syntaxError _ _ _

theorem nextIf_yields (double dotisspecial : Bool) {t : Token}
    (ht : t.Sound) :
    Yields (nextIf double dotisspecial t) (Within t.left) Ends := by
  unfold nextIf
  split
  · exact next_yields dotisspecial t (Nat.le_refl _)
  · exact ⟨ht, Nat.le_refl _⟩

/-- A header takes at least its first bracket. -/
theorem parseSelect_yields {t : Token} (ht : t.Sound)
    (hbracket : t.tok = .lbracket) {root : TableNode}
    (hroot : LegalTable valtype root) :
    Yields (parseSelect t root)
      (fun r => (r.1.Sound ∧ r.1.left < t.left) ∧ LegalTable valtype r.2.2)
      Ends := by
  have hsign := sign_of_eq hbracket TokenType.noConfusion
    TokenType.noConfusion
  unfold parseSelect
  apply (eat_yields true ht hsign.left (ht.not_eof hsign.right)).bind
  rintro first ⟨hfirst, hlt⟩
  apply (nextIf_yields _ true hfirst).bind
  rintro t₁ ⟨ht₁, hle₁⟩
  apply (fillTabpath_yields t₁.lineno 10 t₁).bind
  rintro ⟨tpath, t₂⟩ ⟨hlines, ht₂, _⟩
  have hle₂ : t₂.left <= t₁.left := ht₂.right
  dsimp only
  split
  · exact ends_syntaxError _ _ _
  · rename_i key z _
    have hfront : forall e, e ∈ tpath.dropLast -> lineFeed ∉ e.1.chars :=
      fun e he => hlines e ((List.dropLast_sublist _).subset he)
    apply (walkTabpath_yields tpath.dropLast hfront hroot).bind
    rintro ⟨path, root₁⟩ hroot₁
    have hadd : forall tab, LegalTable valtype tab ->
        Yields ((if decide (first.tok = .lbracket) = true then addToArray z
          else addTable z) tab) (fun r => LegalTable valtype r.2) Ends := by
      intro tab htab
      split
      · exact addToArray_yields htab z
      · exact addTable_yields htab z
    apply (atPath_yields hadd path hroot₁ (fun _ => True)
      (fun tab htab => (hadd tab htab).mono (fun _ _ => trivial))).bind
    rintro ⟨step, root₂⟩ ⟨_, hroot₂⟩
    split
    · exact ends_syntaxError _ _ _
    · apply (next_yields false t₂ hle₂).bind
      rintro t₃ ⟨ht₃, hle₃⟩
      split
      · exact ends_syntaxError _ _ _
      · apply (nextIf_yields _ false ht₃).bind
        rintro t₄ ⟨ht₄, hle₄⟩
        split
        · exact ends_syntaxError _ _ _
        · exact ⟨⟨ht₄, by dsimp only; omega⟩, hroot₂⟩

theorem parseLines_yields (fuel : Nat) {t : Token} (ht : t.Sound)
    (hfuel : 2 * t.left + 2 <= fuel) (curtab : List PathStep)
    {root : TableNode} (hroot : LegalTable valtype root) :
    Yields (parseLines valtype fuel t curtab root) (LegalTable valtype)
      Ends := by
  induction fuel generalizing t curtab root with
  | zero => exact absurd hfuel (Nat.not_succ_le_zero _)
  | succ fuel ih =>
      unfold parseLines
      split
      · exact hroot
      · rename_i heof
        split
        · rename_i hnewline
          have hstring : t.tok ≠ .string := by
            rw [hnewline]
            exact TokenType.noConfusion
          apply (eat_yields true ht hstring (Bool.eq_false_iff.mpr heof)).bind
          rintro t₁ ⟨ht₁, hlt₁⟩
          exact ih ht₁ (by omega) curtab hroot
        · have hkeyval : forall tab, LegalTable valtype tab ->
              LegalParse (LegalTable valtype) (t.left - 1)
                (parseKeyval valtype fuel t tab) :=
            fun tab htab => (parsesLegal fuel).keyval t tab _ (by omega)
              (by omega) htab
          apply (atPath_yields
            (fun tab htab => (hkeyval tab htab).mono (fun _ h => h.right))
            curtab hroot (Within (t.left - 1))
            (fun tab htab => (hkeyval tab htab).mono
              (fun _ h => h.left))).bind
          rintro ⟨t₁, root₁⟩ ⟨⟨ht₁, hle₁⟩, hroot₁⟩
          dsimp only
          split
          · exact ends_syntaxError _ _ _
          · apply (next_yields false t₁ hle₁).bind
            rintro t₂ ⟨ht₂, hle₂⟩
            have hpos := ht.left_pos (Bool.eq_false_iff.mpr heof)
            exact ih ht₂ (by omega) curtab hroot₁
        · rename_i hbracket
          apply (parseSelect_yields ht hbracket hroot).bind
          rintro ⟨t₁, curtab₁, root₁⟩ ⟨⟨ht₁, hlt₁⟩, hroot₁⟩
          exact ih ht₁ (by omega) curtab₁ hroot₁
        · exact ends_syntaxError _ _ _

/-- Every file is parsed within the bound of the steps, and what the parser
returns is legal. -/
theorem tomlParse_legal (valtype : CString -> Char) (conf : CString) :
    Yields (tomlParse valtype conf) (LegalTable valtype) Ends := by
  unfold tomlParse enoughFuel parseLines
  dsimp only
  rw [if_neg Bool.noConfusion]
  apply (next_yields true _ (Nat.le_refl _)).bind
  rintro t ⟨ht, hle⟩
  have hle : t.left <= 0 + conf.chars.length := hle
  exact parseLines_yields _ ht (by omega) [] (legalTable_empty false)

/-- An array that is not closed: the line ending at the end of the file is
skipped again and again. -/
example (valtype : CString -> Char) :
    tomlParse valtype (literal "a=[") = .error .endless := by
  rfl

end Files

end TomlParser

end Stns
