import Stns.Document.Config
import Stns.Nss.Lookup

/-!
# The key wrapper

The wrapper asks for the user's elements and prints the strings of their
{lit}`keys` arrays, one a line.  It goes through every object of the response;
the name is only in the request.
-/

namespace Stns

namespace KeyWrapper

def newline : UInt8 := 10

/-- A key as the wrapper copies it: at most {lit}`STNS_MAX_BUFFER_SIZE`
bytes. -/
def printedKey (key : CString) : CString :=
  key.take (key.strnlen maxBufferSize)

def line (key : CString) : Bytes :=
  key.chars ++ [newline]

/-- The growing buffer {lit}`keys`, NULL before the first key, with the keys
copied into it. -/
structure KeyBuffer where
  keys : Option Bytes
  copied : List CString
  keys_eq : keys.getD [] = copied.flatMap line

namespace KeyBuffer

def empty : KeyBuffer :=
  ⟨none, [], rfl⟩

def copy (b : KeyBuffer) (key : CString) : KeyBuffer where
  keys := some (b.keys.getD [] ++ line (printedKey key))
  copied := b.copied ++ [printedKey key]
  keys_eq := by simp [b.keys_eq]

end KeyBuffer

/-- The loop over one {lit}`keys` array. -/
def copyKeys (b : KeyBuffer) : List Json -> KeyBuffer
  | [] => b
  | item :: rest =>
      match jsonValueGetString (some item) with
      | none => copyKeys b rest
      | some key => copyKeys (b.copy key) rest

/-- The loop over the elements of the response. -/
def copyElements (b : KeyBuffer) : List Json -> KeyBuffer
  | [] => b
  | element :: rest =>
      match objectOf element with
      | none => copyElements b rest
      | some leaf =>
          let jsonKeys := jsonObjectGetArray (some leaf) Key.keys
          copyElements (copyKeys b (jsonKeys.getD [])) rest

/-- What the wrapper leaves: the keys it took from the response and the bytes
on its standard output. -/
structure Output where
  fromResponse : List CString
  stdout : Bytes

/-- The end of {lit}`main`: the output of the chained wrapper, if it ran, goes
behind the keys. -/
def printKeys (b : KeyBuffer) (chained : Option CString) : Output :=
  let keys :=
    match chained with
    | none => b.keys
    | some text =>
        some (b.keys.getD [] ++
          (text.take (text.strnlen maxBufferSize)).chars)
  ⟨b.copied, keys.getD [] ++ [newline]⟩

/-- {lit}`main` from the user name on; NULL where it prints nothing and returns
-1.  The response is what the request delivered, as far as it parses.  The
{lit}`int` size of the buffer is left out; the loop that counts with it prints
the same as long as that is below 2^31 bytes. -/
def keyWrapperMain (user : CString) (response : Option (Option Json))
    (chained : Option CString) : Option Output :=
  if user.strnlen maxUsernameLength >= maxUsernameLength then
    none
  else
    match response with
    | none => none
    | some none => none
    | some (some root) =>
        some (printKeys (copyElements KeyBuffer.empty (elementsOf root))
          chained)

/-!
## What is printed
-/

/-- The string members of the {lit}`keys` of an object. -/
def keysOf (leaf : JsonObject) : List CString :=
  ((jsonObjectGetArray (some leaf) Key.keys).getD []).filterMap
    (fun item => jsonValueGetString (some item))

theorem copyKeys_copied (b : KeyBuffer) (items : List Json) :
    (copyKeys b items).copied = b.copied ++
      (items.filterMap (fun item => jsonValueGetString (some item))).map
        printedKey := by
  induction items generalizing b with
  | nil => simp [copyKeys]
  | cons item rest ih =>
      unfold copyKeys
      cases hkey : jsonValueGetString (some item) with
      | none => simpa [hkey] using ih b
      | some key => simp [hkey, ih, KeyBuffer.copy]

theorem copyElements_copied (b : KeyBuffer) (items : List Json) :
    (copyElements b items).copied = b.copied ++
      (objectsOf items).flatMap (fun leaf => (keysOf leaf).map printedKey) := by
  induction items generalizing b with
  | nil => simp [copyElements, objectsOf]
  | cons element rest ih =>
      unfold copyElements
      cases hobject : objectOf element with
      | none =>
          rw [objectsOf_cons_none hobject]
          exact ih b
      | some leaf =>
          rw [objectsOf_cons_some hobject, List.flatMap_cons]
          dsimp only
          rw [ih, copyKeys_copied, List.append_assoc]
          rfl

/-- The output is the copied keys, a line each, and then the chained output. -/
theorem printKeys_stdout (b : KeyBuffer) (chained : Option CString) :
    (printKeys b chained).stdout =
      b.copied.flatMap line ++
        (chained.map
          (fun text => (text.take (text.strnlen maxBufferSize)).chars)).getD
            [] ++ [newline] := by
  cases chained with
  | none => simp [printKeys, b.keys_eq]
  | some text => simp [printKeys, b.keys_eq]

theorem mem_fromResponse {user : CString} {root : Json}
    {chained : Option CString} {out : Output}
    (h : keyWrapperMain user (some (some root)) chained = some out)
    (key : CString) :
    key ∈ out.fromResponse <->
      exists leaf, leaf ∈ objectsOf (elementsOf root) ∧
        exists stored, stored ∈ keysOf leaf ∧ printedKey stored = key := by
  unfold keyWrapperMain at h
  by_cases hlong : user.strnlen maxUsernameLength >= maxUsernameLength
  · rw [if_pos hlong] at h
    cases h
  · rw [if_neg hlong] at h
    cases h
    show key ∈ (copyElements KeyBuffer.empty (elementsOf root)).copied <-> _
    rw [copyElements_copied]
    simp [KeyBuffer.empty]

/-!
## Whose keys are printed
-/

/-- The object is one that a lookup of the user selects. -/
def OfUser (user : CString) (leaf : JsonObject) : Prop :=
  nameMatches user leaf = some true

/-- Every key taken from the response is a key of an element of the user. -/
def AuthorisesOnly (user : CString) (root : Json) : Prop :=
  forall chained out,
    keyWrapperMain user (some (some root)) chained = some out ->
      forall key, key ∈ out.fromResponse ->
        exists leaf, leaf ∈ objectsOf (elementsOf root) ∧ OfUser user leaf ∧
          key ∈ keysOf leaf

/-- Some element of the user has the key. -/
def OwnKey (user : CString) (objects : List JsonObject) (key : CString) :
    Prop :=
  exists leaf, leaf ∈ objects ∧ OfUser user leaf ∧ key ∈ keysOf leaf

/-- The elements of others bring no key that is not the user's too, and the
user's own elements none that copying cuts to another one. -/
structure OnlyOwnKeys (user : CString) (objects : List JsonObject) :
    Prop where
  others : forall leaf, leaf ∈ objects -> ¬ OfUser user leaf ->
    forall key, key ∈ keysOf leaf -> OwnKey user objects (printedKey key)
  cut : forall leaf, leaf ∈ objects -> OfUser user leaf ->
    forall key, key ∈ keysOf leaf -> maxBufferSize < key.length ->
      OwnKey user objects (printedKey key)

theorem printedKey_eq {key : CString} (h : key.length <= maxBufferSize) :
    printedKey key = key := by
  apply CString.ext
  show key.chars.take (min key.length maxBufferSize) = key.chars
  rw [Nat.min_eq_left h]
  exact List.take_length

/-- The wrapper prints only the user's keys exactly when the name is too long
to be asked for, or the response has only the user's keys. -/
theorem authorisesOnly_iff (user : CString) (root : Json) :
    AuthorisesOnly user root <->
      maxUsernameLength <= user.length ∨
        OnlyOwnKeys user (objectsOf (elementsOf root)) := by
  constructor
  · intro h
    by_cases hlong : maxUsernameLength <= user.length
    · exact .inl hlong
    · right
      have hshort : ¬ user.strnlen maxUsernameLength >= maxUsernameLength := by
        unfold CString.strnlen
        omega
      have hrun : keyWrapperMain user (some (some root)) none =
          some (printKeys (copyElements KeyBuffer.empty (elementsOf root))
            none) := by
        unfold keyWrapperMain
        rw [if_neg hshort]
      have hown : forall leaf, leaf ∈ objectsOf (elementsOf root) ->
          forall key, key ∈ keysOf leaf ->
            OwnKey user (objectsOf (elementsOf root)) (printedKey key) :=
        fun leaf hleaf key hkey =>
          h none _ hrun _ ((mem_fromResponse hrun _).mpr
            ⟨leaf, hleaf, key, hkey, rfl⟩)
      constructor
      · exact fun leaf hleaf _ key hkey => hown leaf hleaf key hkey
      · exact fun leaf hleaf _ key hkey _ => hown leaf hleaf key hkey
  · intro h chained out hrun key hkey
    rcases h with hlong | honly
    · have hlong' : user.strnlen maxUsernameLength >= maxUsernameLength := by
        unfold CString.strnlen
        omega
      unfold keyWrapperMain at hrun
      rw [if_pos hlong'] at hrun
      cases hrun
    · rcases (mem_fromResponse hrun key).mp hkey with
        ⟨leaf, hleaf, stored, hstored, rfl⟩
      by_cases huser : OfUser user leaf
      · by_cases hlength : maxBufferSize < stored.length
        · exact honly.cut leaf hleaf huser stored hstored hlength
        · rw [printedKey_eq (Nat.le_of_not_lt hlength)]
          exact ⟨leaf, hleaf, huser, hstored⟩
      · exact honly.others leaf hleaf huser stored hstored

/-- Another user's key, served with the request of the first one. -/
theorem prints_key_of_other_user :
    (keyWrapperMain (literal "user1")
        (some (some (.array [.object
          [(Key.name, .string (ascii "user2")),
            (Key.keys, .array [.string (ascii "ssh-rsa BBBB")])]]))) none).map
        Output.stdout = some (ascii "ssh-rsa BBBB" ++ [newline, newline]) ∧
      ¬ AuthorisesOnly (literal "user1")
        (.array [.object
          [(Key.name, .string (ascii "user2")),
            (Key.keys, .array [.string (ascii "ssh-rsa BBBB")])]]) := by
  refine ⟨by decide, ?_⟩
  intro h
  rcases h none _ rfl (literal "ssh-rsa BBBB")
    (List.mem_singleton.mpr rfl) with ⟨leaf, hleaf, huser, _⟩
  cases List.mem_singleton.mp hleaf
  cases huser

end KeyWrapper

end Stns
