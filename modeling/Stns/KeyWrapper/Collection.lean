import Stns.KeyWrapper
import Stns.Request.CommandOutput
import Stns.Request.Received

/-!
# Collecting keys

The keys and the output of the chained wrapper go into one buffer that grows to
the need of each of them.  A counter leaves the terminator out; the buffer has
it after every step.
-/

namespace Stns

namespace KeyWrapper

open MachineInt

/-- {lit}`keys` and {lit}`size` of {lit}`main`; the buffer is NULL before the
first allocation. -/
structure KeyState where
  keys : Option Block
  size : Int32

def KeyState.start : KeyState :=
  ⟨none, 0⟩

/-- {lit}`realloc`, which succeeds; {lit}`contents` is what a new block
holds. -/
def reallocKeys (contents : Memory UInt8) (keys : Option Block)
    (room : Nat) : Block :=
  (keys.getD ⟨0, contents, true⟩).realloc room

/-- One key: the key, the separator and the terminator. -/
def appendKey (M : Machine) (contents : Memory UInt8) (st : KeyState)
    (key : CString) : KeyState :=
  let keySize := Int32.ofInt (key.strnlen maxBufferSize : Nat)
  let room := M.intAdd (M.intAdd st.size keySize) 2
  let keys := reallocKeys contents st.keys (sizeOfInt room)
  let keys :=
    keys.store st.size.toInt.toNat (key.chars.take keySize.toInt.toNat)
  let size := M.intAdd st.size keySize
  let keys := keys.store size.toInt.toNat [newline]
  let size := M.intAdd size 1
  ⟨some (keys.store size.toInt.toNat [0]), size⟩

/-- The loop over one {lit}`keys` array. -/
def collectKeys (M : Machine) (contents : Memory UInt8) (st : KeyState) :
    List Json -> KeyState
  | [] => st
  | item :: rest =>
      match jsonValueGetString (some item) with
      | none => collectKeys M contents st rest
      | some key => collectKeys M contents (appendKey M contents st key) rest

/-- The loop over the elements of the response. -/
def collectElements (M : Machine) (contents : Memory UInt8) (st : KeyState) :
    List Json -> KeyState
  | [] => st
  | element :: rest =>
      match objectOf element with
      | none => collectElements M contents st rest
      | some leaf =>
          let jsonKeys := jsonObjectGetArray (some leaf) Key.keys
          collectElements M contents
            (collectKeys M contents st (jsonKeys.getD [])) rest

/-- The string that the chained wrapper leaves, if it is configured and
succeeds; {lit}`output` is NULL when the command cannot be started. -/
def chainedString (M : Machine) (c : StnsConf) (user : CString)
    (output : Option Bytes) (cr : Response) : Option CString :=
  match c.chainSshWrapper with
  | none => none
  | some _ =>
      let (result, cr) := stnsExecCmdCounted M user output cr
      if result = CurlCode.ok then some cr.data.cstring else none

/-- The output of the chained wrapper, with its terminator. -/
def appendChained (M : Machine) (contents : Memory UInt8) (st : KeyState)
    (text : CString) : KeyState :=
  let len := Int32.ofInt (text.strnlen maxBufferSize : Nat)
  let room := M.intAdd (M.intAdd st.size len) 1
  let keys := reallocKeys contents st.keys (sizeOfInt room)
  ⟨some (keys.store st.size.toInt.toNat
      (text.strncpy (sizeOfInt (M.intAdd len 1)))),
    M.intAdd st.size len⟩

/-- {lit}`main` from the parsed response on, up to the output. -/
def collect (M : Machine) (contents : Memory UInt8) (c : StnsConf)
    (user : CString) (root : Json) (output : Option Bytes) (cr : Response) :
    KeyState :=
  let st := collectElements M contents KeyState.start (elementsOf root)
  match chainedString M c user output cr with
  | none => st
  | some text => appendChained M contents st text

/-- What is printed in the end. -/
def KeyState.stdout (st : KeyState) : Bytes :=
  match st.keys with
  | none => [newline]
  | some keys => keys.cstring.chars ++ [newline]

/-!
## What is to be printed
-/

/-- The string keys of the object elements, in document order. -/
def documentKeys (root : Json) : List CString :=
  (objectsOf (elementsOf root)).flatMap keysOf

/-- The output of the chained wrapper, if it is configured, takes the name and
can be started. -/
def chainedText (c : StnsConf) (user : CString) (output : Option Bytes) :
    Bytes :=
  match c.chainSshWrapper, output with
  | some _, some stream => if commandArgument user = true then stream else []
  | _, _ => []

/-- The text to print. -/
def collectedText (c : StnsConf) (user : CString) (root : Json)
    (output : Option Bytes) : Bytes :=
  (documentKeys root).flatMap line ++ chainedText c user output ++ [newline]

/-- The buffer, if there is one, holds the text, and the counter counts it. -/
structure KeyState.Holds (st : KeyState) (text : Bytes) : Prop where
  size : st.size.toInt = text.length
  absent : st.keys = none -> text = []
  buffer : forall keys, st.keys = some keys -> keys.HoldsString text

theorem KeyState.holds_start : KeyState.start.Holds [] :=
  ⟨rfl, fun _ => rfl, fun _ h => nomatch h⟩

theorem KeyState.holds_of_buffer {keys : Block} {size : Int32} {text : Bytes}
    (hsize : size.toInt = text.length) (hkeys : keys.HoldsString text) :
    (KeyState.mk (some keys) size).Holds text := by
  refine ⟨hsize, ?_, ?_⟩
  · intro hnone
    cases hnone
  · intro keys' hsome
    cases hsome
    exact hkeys

theorem KeyState.Holds.stdout {st : KeyState} {text : Bytes}
    (h : st.Holds text) : st.stdout = text ++ [newline] := by
  unfold KeyState.stdout
  cases hkeys : st.keys with
  | none =>
      rw [h.absent hkeys]
      rfl
  | some keys =>
      dsimp only
      rw [(h.buffer keys hkeys).cstring]

/-!
## One step
-/

section Step

variable (M : Machine) (contents : Memory UInt8) {st : KeyState}
  {text : Bytes}

theorem KeyState.Holds.realloc (h : st.Holds text) (room : Nat) {run : Bytes}
    (hrun : 0 ∉ run) (hroom : text.length + run.length < room) :
    ((reallocKeys contents st.keys room).storeString text.length
      run).HoldsString (text ++ run) := by
  have hfree : 0 ∉ text ++ run := by
    rw [List.mem_append, not_or]
    refine ⟨?_, hrun⟩
    cases hkeys : st.keys with
    | none =>
        rw [h.absent hkeys]
        exact List.not_mem_nil
    | some keys => exact (h.buffer keys hkeys).nulFree
  apply Block.holdsString_storeString
  · unfold reallocKeys
    cases hkeys : st.keys with
    | none => rfl
    | some keys => exact (h.buffer keys hkeys).inBounds
  · unfold reallocKeys
    cases hkeys : st.keys with
    | none =>
        rw [h.absent hkeys]
        rfl
    | some keys => exact (h.buffer keys hkeys).load
  · exact hfree
  · exact hroom

theorem strnlen_int {s : CString} (h : s.length < maxBufferSize) :
    (Int32.ofInt (s.strnlen maxBufferSize : Nat)).toInt =
      (s.chars.length : Nat) := by
  have hmin : s.strnlen maxBufferSize = s.chars.length :=
    Nat.min_eq_left (Nat.le_of_lt h)
  have hlength : s.chars.length < maxBufferSize := h
  unfold maxBufferSize at hlength
  rw [hmin, Int32.toInt_ofInt_of_le (by omega) (by omega)]

/-- A key goes behind the text, with its separator. -/
theorem KeyState.Holds.appendKey (h : st.Holds text) {key : CString}
    (hkey : key.length < maxBufferSize)
    (hroom : (text ++ line key).length + 1 < 2 ^ 31) :
    (KeyWrapper.appendKey M contents st key).Holds (text ++ line key) := by
  have hline : (line key).length = key.chars.length + 1 := by
    simp [line]
  rw [List.length_append, hline] at hroom
  have hkeySize := strnlen_int hkey
  have hsize := M.intAdd_count h.size hkeySize (by omega)
  have hroomInt := M.intAdd_count (b := 2) (n := 2) hsize rfl (by omega)
  have hnext := M.intAdd_count (b := 1) (n := 1) hsize rfl (by omega)
  have hrun : 0 ∉ line key := by
    unfold line newline
    rw [List.mem_append, not_or]
    exact ⟨key.nulFree, by decide⟩
  have hstored := h.realloc contents
    (text.length + key.chars.length + 2) hrun (by omega)
  unfold KeyWrapper.appendKey
  dsimp only
  rw [sizeOfInt_count hroomInt, hkeySize, h.size, hsize, hnext,
    Int.toNat_natCast, Int.toNat_natCast, Int.toNat_natCast,
    Int.toNat_natCast, List.take_length]
  apply KeyState.holds_of_buffer
  · rw [hnext, List.length_append, hline]
    omega
  · unfold line Block.storeString at hstored
    rw [Block.store_append, List.length_append, List.length_singleton,
      ← Nat.add_assoc] at hstored
    exact hstored

/-- The output of the chained wrapper goes behind the keys. -/
theorem KeyState.Holds.appendChained (h : st.Holds text) {chained : CString}
    (hchained : chained.length < maxBufferSize)
    (hroom : (text ++ chained.chars).length + 1 < 2 ^ 31) :
    (KeyWrapper.appendChained M contents st chained).Holds
      (text ++ chained.chars) := by
  rw [List.length_append] at hroom
  have hlen := strnlen_int hchained
  have hsize := M.intAdd_count h.size hlen (by omega)
  have hroomInt := M.intAdd_count (b := 1) (n := 1) hsize rfl (by omega)
  have hcopied := M.intAdd_count (b := 1) (n := 1) hlen rfl (by omega)
  have hcopy : chained.strncpy (chained.chars.length + 1) =
      chained.chars ++ [0] := by
    unfold CString.strncpy
    rw [List.take_length_add_append, List.replicate_succ]
    rfl
  have hstored := h.realloc contents
    (text.length + chained.chars.length + 1) chained.nulFree (by omega)
  unfold KeyWrapper.appendChained
  dsimp only
  rw [sizeOfInt_count hroomInt, sizeOfInt_count hcopied, hcopy, h.size,
    Int.toNat_natCast, Block.store_append]
  apply KeyState.holds_of_buffer
  · rw [hsize, List.length_append]
  · exact hstored

end Step

/-!
## The loops
-/

section Loops

variable (M : Machine) (contents : Memory UInt8)

theorem collectKeys_eq (st : KeyState) (items : List Json) :
    collectKeys M contents st items =
      (items.filterMap (fun item => jsonValueGetString (some item))).foldl
        (appendKey M contents) st := by
  induction items generalizing st with
  | nil => rfl
  | cons item rest ih =>
      unfold collectKeys
      cases hkey : jsonValueGetString (some item) with
      | none => simp [hkey, ih]
      | some key => simp [hkey, ih]

/-- The two loops append the string keys of the object elements, one after the
other. -/
theorem collectElements_eq (st : KeyState) (items : List Json) :
    collectElements M contents st items =
      ((objectsOf items).flatMap keysOf).foldl (appendKey M contents) st := by
  induction items generalizing st with
  | nil => rfl
  | cons element rest ih =>
      unfold collectElements
      cases hobject : objectOf element with
      | none =>
          rw [objectsOf_cons_none hobject]
          exact ih st
      | some leaf =>
          rw [objectsOf_cons_some hobject, List.flatMap_cons,
            List.foldl_append]
          dsimp only
          rw [ih, collectKeys_eq]
          rfl

/-- After any number of keys the buffer holds their lines. -/
theorem holds_foldl {st : KeyState} {text : Bytes} (h : st.Holds text)
    {keys : List CString}
    (hkeys : forall key, key ∈ keys -> key.length < maxBufferSize)
    (hroom : (text ++ keys.flatMap line).length + 1 < 2 ^ 31) :
    (keys.foldl (appendKey M contents) st).Holds
      (text ++ keys.flatMap line) := by
  induction keys generalizing st text with
  | nil => simpa using h
  | cons key rest ih =>
      rw [List.flatMap_cons, ← List.append_assoc] at hroom ⊢
      have hfirst : (text ++ line key).length + 1 < 2 ^ 31 := by
        rw [List.length_append] at hroom
        omega
      exact ih (h.appendKey M contents (hkeys key List.mem_cons_self) hfirst)
        (fun next hmem => hkeys next (List.mem_cons_of_mem _ hmem)) hroom

end Loops

/-!
## The chained wrapper
-/

section Chained

variable {c : StnsConf} {user : CString} {output : Option Bytes}
  {cr : Response}

theorem chainedText_length (c : StnsConf) (user : CString)
    (houtput : forall stream, output = some stream ->
      0 ∉ stream ∧ stream.length < maxBufferSize) :
    (chainedText c user output).length < maxBufferSize := by
  have hempty : ([] : Bytes).length < maxBufferSize := by decide
  unfold chainedText
  cases c.chainSshWrapper with
  | none => exact hempty
  | some wrapper =>
      cases output with
      | none => exact hempty
      | some stream =>
          dsimp only
          split
          · exact (houtput stream rfl).right
          · exact hempty

/-- The string of the chained wrapper is its whole output; there is none where
there is no output. -/
theorem chainedString_text (M : Machine) (c : StnsConf) (user : CString)
    (houtput : forall stream, output = some stream ->
      0 ∉ stream ∧ stream.length < maxBufferSize)
    (hroom : defaultBufferSize <= cr.data.capacity) :
    match chainedString M c user output cr with
    | none => chainedText c user output = []
    | some text => text.chars = chainedText c user output := by
  unfold chainedString chainedText
  cases c.chainSshWrapper with
  | none => rfl
  | some wrapper =>
      dsimp only
      cases harg : commandArgument user with
      | false =>
          have hrefused : stnsExecCmdCounted M user output cr =
              (1, { cr with size := 0, statusCode := 200 }) := if_pos harg
          rw [hrefused]
          cases output <;> rfl
      | true =>
          cases output with
          | none =>
              have hunstarted : stnsExecCmdCounted M user none cr =
                  (1, { cr with size := 0, statusCode := 200 }) :=
                ite_self _
              rw [hunstarted]
              rfl
          | some stream =>
              rcases houtput stream rfl with ⟨hfree, hlength⟩
              unfold maxBufferSize at hlength
              have htext := Stdio.text_fgets maxbuf hfree
              rw [stnsExecCmdCounted_eq M (outputFits_of_length (by omega)),
                stnsExecCmd_stream harg, htext]
              by_cases hempty : stream = []
              · rw [hempty]
                rfl
              · have hpieces : Stdio.fgets maxbuf stream ≠ [] :=
                  fun h => hempty (Stdio.fgets_eq_nil_iff.mp h)
                have hstring := Stdio.appendPieces_cstring
                  grows_growPastDefault hpieces hroom
                rw [if_neg (fun h => hempty (List.length_eq_zero_iff.mp h))]
                rw [htext] at hstring
                exact hstring

end Chained

/-!
## What is printed in the end
-/

section Printed

variable (M : Machine) (contents : Memory UInt8) {c : StnsConf}
  {user : CString} {root : Json} {output : Option Bytes} {cr : Response}

theorem holds_front
    (hkeys : forall key, key ∈ documentKeys root ->
      key.length < maxBufferSize)
    (htotal : (collectedText c user root output).length < 2 ^ 31)
    {front back : List CString} (hsplit : documentKeys root = front ++ back) :
    (front.foldl (appendKey M contents) KeyState.start).Holds
      (front.flatMap line) := by
  have hfit : ([] ++ front.flatMap line).length + 1 < 2 ^ 31 := by
    unfold collectedText at htotal
    rw [hsplit, List.flatMap_append] at htotal
    simp only [List.length_append, List.length_singleton] at htotal
    rw [List.nil_append]
    omega
  refine holds_foldl M contents KeyState.holds_start ?_ hfit
  intro key hmem
  apply hkeys
  rw [hsplit]
  exact List.mem_append_left back hmem

theorem collect_holds
    (hkeys : forall key, key ∈ documentKeys root ->
      key.length < maxBufferSize)
    (houtput : forall stream, output = some stream ->
      0 ∉ stream ∧ stream.length < maxBufferSize)
    (htotal : (collectedText c user root output).length < 2 ^ 31)
    (hcr : cr.data.capacity = defaultBufferSize) :
    (collect M contents c user root output cr).Holds
      ((documentKeys root).flatMap line ++ chainedText c user output) := by
  have hall := holds_front M contents hkeys htotal (List.append_nil _).symm
  have htext := chainedString_text M c user houtput
    (Nat.le_of_eq hcr.symm)
  unfold collectedText at htotal
  rw [List.length_append, List.length_singleton] at htotal
  unfold collect
  dsimp only
  rw [collectElements_eq]
  cases hchained : chainedString M c user output cr with
  | none =>
      rw [hchained] at htext
      rw [htext, List.append_nil]
      exact hall
  | some text =>
      rw [hchained] at htext
      dsimp only at htext ⊢
      rw [← htext] at htotal ⊢
      refine hall.appendChained M contents ?_ htotal
      show text.chars.length < maxBufferSize
      rw [htext]
      exact chainedText_length c user houtput

theorem copyElements_documentKeys
    (hkeys : forall key, key ∈ documentKeys root ->
      key.length < maxBufferSize) :
    (copyElements KeyBuffer.empty (elementsOf root)).copied =
      documentKeys root := by
  have hkept : (documentKeys root).map printedKey =
      (documentKeys root).map id :=
    List.map_congr_left
      (fun key hmem => printedKey_eq (Nat.le_of_lt (hkeys key hmem)))
  rw [List.map_id] at hkept
  rw [copyElements_copied, ← List.map_flatMap]
  exact hkept

/-- The growing buffer prints what the list of copied keys prints. -/
theorem collect_prints
    (hkeys : forall key, key ∈ documentKeys root ->
      key.length < maxBufferSize)
    (houtput : forall stream, output = some stream ->
      0 ∉ stream ∧ stream.length < maxBufferSize)
    (htotal : (collectedText c user root output).length < 2 ^ 31)
    (hcr : cr.data.capacity = defaultBufferSize) {out : Output}
    (hout : keyWrapperMain user (some (some root))
      (chainedString M c user output cr) = some out) :
    (collect M contents c user root output cr).stdout = out.stdout := by
  have htext := chainedString_text M c user houtput
    (Nat.le_of_eq hcr.symm)
  have hcopied := copyElements_documentKeys hkeys
  rw [(collect_holds M contents hkeys houtput htotal hcr).stdout]
  unfold keyWrapperMain at hout
  split at hout
  · cases hout
  · cases hout
    rw [printKeys_stdout, hcopied]
    cases hchained : chainedString M c user output cr with
    | none =>
        rw [hchained] at htext
        rw [htext]
        rfl
    | some text =>
        rw [hchained] at htext
        dsimp only at htext
        have hshort : text.length <= maxBufferSize := by
          show text.chars.length <= maxBufferSize
          rw [htext]
          exact Nat.le_of_lt (chainedText_length c user houtput)
        rw [← htext]
        show _ = _ ++ (printedKey text).chars ++ _
        rw [printedKey_eq hshort]

/-- The keys of the document are printed in order, a line each, then the output
of the chained wrapper and a newline.  After every key and at the end the
buffer holds exactly what has been collected, with a terminator and without a
store past its last allocated size. -/
theorem keys_collected
    (hkeys : forall key, key ∈ documentKeys root ->
      key.length < maxBufferSize)
    (houtput : forall stream, output = some stream ->
      0 ∉ stream ∧ stream.length < maxBufferSize)
    (htotal : (collectedText c user root output).length < 2 ^ 31)
    (hcr : cr.data.capacity = defaultBufferSize) :
    (collect M contents c user root output cr).stdout =
        collectedText c user root output ∧
      collectElements M contents KeyState.start (elementsOf root) =
        (documentKeys root).foldl (appendKey M contents) KeyState.start ∧
      (forall front back, documentKeys root = front ++ back ->
        (front.foldl (appendKey M contents) KeyState.start).Holds
          (front.flatMap line)) ∧
      (collect M contents c user root output cr).Holds
        ((documentKeys root).flatMap line ++ chainedText c user output) := by
  have hfinal := collect_holds M contents hkeys houtput htotal hcr
  exact ⟨hfinal.stdout, collectElements_eq M contents _ _,
    fun _ _ hsplit => holds_front M contents hkeys htotal hsplit, hfinal⟩

/-- A user with two keys and a member that is none, next to a null element, and
a chained wrapper that prints a key. -/
def twoKeys : Json :=
  .array [.null, .object [(Key.name, .string (ascii "user1")),
    (Key.keys, .array [.string (ascii "ssh-rsa A"), .null,
      .string (ascii "ssh-rsa B")])]]

def chainedConf : StnsConf :=
  { chainSshWrapper := some (literal "/usr/bin/keys") }

theorem keys_collected_two_keys :
    let cr : Response := ⟨⟨defaultBufferSize, fun _ => 255, true⟩, 0, 0⟩
    let st := collect Machine.wrapping (fun _ => 255) chainedConf
      (literal "user1") twoKeys (some (ascii "ssh-rsa C")) cr
    st.stdout = ascii "ssh-rsa A\nssh-rsa B\nssh-rsa C\n" ∧
      st.Holds (ascii "ssh-rsa A\nssh-rsa B\nssh-rsa C") := by
  have hkeys : forall key, key ∈ documentKeys twoKeys ->
      key.length < maxBufferSize := by decide
  have houtput : forall stream, some (ascii "ssh-rsa C") = some stream ->
      0 ∉ stream ∧ stream.length < maxBufferSize := by
    intro stream hstream
    cases hstream
    decide
  have htotal : (collectedText chainedConf (literal "user1") twoKeys
      (some (ascii "ssh-rsa C"))).length < 2 ^ 31 := by decide
  have hcr : (⟨⟨defaultBufferSize, fun _ => 255, true⟩, 0, 0⟩ :
      Response).data.capacity = defaultBufferSize := rfl
  have hcollected := keys_collected Machine.wrapping (fun _ => 255) hkeys
    houtput htotal hcr
  exact ⟨hcollected.left, hcollected.right.right.right⟩

end Printed

end KeyWrapper

end Stns
