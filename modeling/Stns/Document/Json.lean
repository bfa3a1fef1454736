import Stns.Foundation.CString

/-!
# JSON documents

The value type of the vendored JSON parser and its accessors.  A NULL pointer
is {lit}`none`; every accessor takes NULL and answers NULL (or zero) for it, as
the library does.  A number is kept as its integral part: the readers convert
it to an integer type, which discards the fraction.
-/

namespace Stns

inductive Json where
  | null
  | boolean (value : Bool)
  | number (value : Int)
  | string (chars : Bytes)
  | array (items : List Json)
  | object (members : List (Bytes × Json))

abbrev JsonArray := List Json

abbrev JsonObject := List (Bytes × Json)

/-!
## Values
-/

def jsonValueGetArray : Option Json -> Option JsonArray
  | some (.array items) => some items
  | _ => none

def jsonValueGetObject : Option Json -> Option JsonObject
  | some (.object members) => some members
  | _ => none

/-- A string value is handed out as a C string, so it ends at an embedded
NUL. -/
def jsonValueGetString : Option Json -> Option CString
  | some (.string chars) => some (CString.ofBytes chars)
  | _ => none

def jsonValueGetNumber : Option Json -> Int
  | some (.number value) => value
  | _ => 0

/-!
## Objects
-/

def jsonObjectGetValue (object : Option JsonObject) (name : Bytes) :
    Option Json :=
  object.bind (fun members => members.lookup name)

def jsonObjectGetString (object : Option JsonObject) (name : Bytes) :
    Option CString :=
  jsonValueGetString (jsonObjectGetValue object name)

def jsonObjectGetNumber (object : Option JsonObject) (name : Bytes) : Int :=
  jsonValueGetNumber (jsonObjectGetValue object name)

def jsonObjectGetArray (object : Option JsonObject) (name : Bytes) :
    Option JsonArray :=
  jsonValueGetArray (jsonObjectGetValue object name)

/-!
## Arrays
-/

def jsonArrayGetCount : Option JsonArray -> Nat
  | some items => items.length
  | none => 0

def jsonArrayGetValue (array : Option JsonArray) (index : Nat) : Option Json :=
  array.bind (fun items => items[index]?)

def jsonArrayGetObject (array : Option JsonArray) (index : Nat) :
    Option JsonObject :=
  jsonValueGetObject (jsonArrayGetValue array index)

@[simp] theorem jsonObjectGetValue_none (name : Bytes) :
    jsonObjectGetValue none name = none := rfl

@[simp] theorem jsonArrayGetCount_some (items : JsonArray) :
    jsonArrayGetCount (some items) = items.length := rfl

/-!
## Well-formed elements

The member names the databases read, and the elements that a lookup by name
could select: objects with a string name.
-/

namespace Key

def id : Bytes := ascii "id"
def name : Bytes := ascii "name"
def groupId : Bytes := ascii "group_id"
def gecos : Bytes := ascii "gecos"
def directory : Bytes := ascii "directory"
def shell : Bytes := ascii "shell"
def password : Bytes := ascii "password"
def users : Bytes := ascii "users"
def keys : Bytes := ascii "keys"

end Key

/-- The string name of an object, if it has one. -/
def nameOf (leaf : JsonObject) : Option CString :=
  jsonObjectGetString (some leaf) Key.name

def Named (leaf : JsonObject) : Prop :=
  (nameOf leaf).isSome = true

instance (leaf : JsonObject) : Decidable (Named leaf) :=
  inferInstanceAs (Decidable (_ = true))

/-- The object at an array element, if it is one. -/
def objectOf (element : Json) : Option JsonObject :=
  jsonValueGetObject (some element)

def wellFormed (element : Json) : Bool :=
  match objectOf element with
  | some leaf => (nameOf leaf).isSome
  | none => false

/-- The document without the elements that are not an object or have no string
name. -/
def removeMalformed : Json -> Json
  | .array items => .array (items.filter wellFormed)
  | other => other

/-- The elements a search loop runs over; a document that is not an array has
none. -/
def elementsOf (root : Json) : List Json :=
  (jsonValueGetArray (some root)).getD []

/-- The objects among the elements of an array. -/
def objectsOf (items : List Json) : List JsonObject :=
  items.filterMap objectOf

theorem wellFormed_iff {element : Json} :
    wellFormed element = true <->
      exists leaf, objectOf element = some leaf ∧ Named leaf := by
  unfold wellFormed Named
  cases objectOf element with
  | none => simp
  | some leaf => simp

@[simp] theorem elementsOf_array (items : List Json) :
    elementsOf (.array items) = items := rfl

theorem elementsOf_removeMalformed (root : Json) :
    elementsOf (removeMalformed root) =
      (elementsOf root).filter wellFormed := by
  cases root <;> rfl

theorem objectsOf_map_object (objects : List JsonObject) :
    objectsOf (objects.map .object) = objects := by
  induction objects with
  | nil => rfl
  | cons leaf rest ih =>
      show leaf :: objectsOf (rest.map .object) = leaf :: rest
      rw [ih]

theorem objectsOf_cons_none {element : Json} {rest : List Json}
    (h : objectOf element = none) :
    objectsOf (element :: rest) = objectsOf rest := by
  simp [objectsOf, h]

theorem objectsOf_cons_some {element : Json} {rest : List Json}
    {leaf : JsonObject} (h : objectOf element = some leaf) :
    objectsOf (element :: rest) = leaf :: objectsOf rest := by
  simp [objectsOf, h]

/-- Removing the malformed elements leaves the named objects. -/
theorem objectsOf_filter_wellFormed (items : List Json) :
    objectsOf (items.filter wellFormed) =
      (objectsOf items).filter (fun leaf => decide (Named leaf)) := by
  induction items with
  | nil => rfl
  | cons element rest ih =>
      cases hobject : objectOf element with
      | none =>
          have hmalformed : wellFormed element = false := by
            simp [wellFormed, hobject]
          rw [objectsOf_cons_none hobject, ← ih]
          simp [hmalformed]
      | some leaf =>
          have hnamed : wellFormed element = decide (Named leaf) := by
            unfold wellFormed
            rw [hobject]
            exact Bool.decide_eq_true.symm
          rw [objectsOf_cons_some hobject, List.filter_cons, List.filter_cons,
            hnamed]
          split
          · rw [objectsOf_cons_some hobject, ih]
          · exact ih

end Stns
