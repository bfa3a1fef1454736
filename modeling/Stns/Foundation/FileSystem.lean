import Mathlib.Data.List.AList
import Mathlib.Data.List.DropRight
import Stns.Foundation.CString

/-!
# File systems

A file system as one process sees it: finitely many names, each of an inode or
of a symbolic link that leads to one or to nothing.  Names are full paths as
they are written; the kernel refuses long components and takes a name that ends
in a slash or a dot name for the directory it leads to, through a link if need
be.  Directory time stamps follow creation and removal.
-/

namespace Stns

inductive FileType where
  | regular (content : Bytes)
  | directory (size : Nat)
  | other (size : Nat) (content : Bytes)
  deriving DecidableEq

/-- Owner, permission bits, and what the process itself may do. -/
structure Inode where
  type : FileType
  uid : Nat
  mode : UInt32
  readable : Bool
  writable : Bool
  mtime : Nat
  deriving DecidableEq

namespace Inode

/-- {lit}`st_size` -/
def size (i : Inode) : Nat :=
  match i.type with
  | .regular content => content.length
  | .directory size => size
  | .other size _ => size

/-- What reading the file to its end yields. -/
def content (i : Inode) : Bytes :=
  match i.type with
  | .regular content => content
  | .directory _ => []
  | .other _ content => content

/-- {lit}`S_ISDIR` -/
def isDirectory (i : Inode) : Bool :=
  match i.type with
  | .directory _ => true
  | _ => false

/-- {lit}`S_ISREG` -/
def isRegular (i : Inode) : Bool :=
  match i.type with
  | .regular _ => true
  | _ => false

theorem isDirectory_of_isRegular {i : Inode} (h : i.isRegular = true) :
    i.isDirectory = false := by
  unfold isRegular at h
  unfold isDirectory
  split at h
  · rename_i htype
    rw [htype]
  · cases h

/-- A directory in which a name was added or removed. -/
def touch (now : Nat) (i : Inode) : Inode :=
  if i.isDirectory then { i with mtime := now } else i

theorem touch_of_directory {i : Inode} (now : Nat) (h : i.isDirectory = true) :
    i.touch now = { i with mtime := now } :=
  if_pos h

end Inode

/-- What a name is: an inode, or a symbolic link with the inode it leads to. -/
inductive Node where
  | inode (i : Inode)
  | link (target : Option Inode)
  deriving DecidableEq

namespace Node

/-- The inode behind a name. -/
def leadsTo : Node -> Option Inode
  | inode i => some i
  | link target => target

/-- The directory behind a name. -/
def directory (node : Node) : Option Inode :=
  node.leadsTo.filter Inode.isDirectory

/-- The directory behind a name is touched. -/
def touch (now : Nat) : Node -> Node
  | inode i => inode (i.touch now)
  | link target => link (target.map (Inode.touch now))

theorem leadsTo_touch (now : Nat) (node : Node) :
    (node.touch now).leadsTo = node.leadsTo.map (Inode.touch now) := by
  cases node <;> rfl

theorem directory_touch {now : Nat} {node : Node} {i : Inode}
    (h : node.directory = some i) :
    (node.touch now).directory = some { i with mtime := now } := by
  rcases Option.filter_eq_some_iff.mp h with ⟨hleads, hdir⟩
  unfold directory
  rw [leadsTo_touch, hleads]
  apply Option.filter_eq_some_iff.mpr
  rw [Option.map_some, Inode.touch_of_directory now hdir]
  exact ⟨rfl, hdir⟩

end Node

/-!
## Paths
-/

namespace Path

def slash : UInt8 := 47

def dot : UInt8 := 46

/-- The longest component a directory can hold. -/
def nameMax : Nat := 255

/-- The last component of a path. -/
def baseName (path : Bytes) : Bytes :=
  path.rtakeWhile (fun c => c ≠ slash)

/-- The path before the last slash. -/
def dirName (path : Bytes) : Bytes :=
  (path.rdropWhile (fun c => c ≠ slash)).dropLast

def join (dir name : Bytes) : Bytes :=
  dir ++ slash :: name

/-- A component that stands for a file of its own. -/
def Proper (name : Bytes) : Prop :=
  name ≠ [] ∧ name ≠ [dot] ∧ name ≠ [dot, dot] ∧ name.length <= nameMax

instance (name : Bytes) : Decidable (Proper name) :=
  inferInstanceAs (Decidable (_ ∧ _))

/-- The path without the slashes at its end. -/
def dropSlashes (path : Bytes) : Bytes :=
  path.rdropWhile (fun c => c = slash)

def resolve (path : Bytes) : Bytes :=
  let name := dropSlashes path
  if baseName name = [dot] then dropSlashes (dirName name)
  else if baseName name = [dot, dot] then
    dropSlashes (dirName (dropSlashes (dirName name)))
  else name

/-- The path ends in a slash or in a dot name. -/
def NamesDirectory (path : Bytes) : Prop :=
  baseName path = [] ∨ baseName path = [dot] ∨ baseName path = [dot, dot]

instance (path : Bytes) : Decidable (NamesDirectory path) :=
  inferInstanceAs (Decidable (_ ∨ _ ∨ _))

theorem dropSlashes_of_baseName {path : Bytes} (h : baseName path ≠ []) :
    dropSlashes path = path := by
  apply List.rdropWhile_eq_self_iff.mpr
  intro hne hlast
  apply h
  apply List.rtakeWhile_eq_nil_iff.mpr
  intro _
  simpa using hlast

theorem dropSlashes_dropSlashes (path : Bytes) :
    dropSlashes (dropSlashes path) = dropSlashes path :=
  List.rdropWhile_idempotent _ _

theorem resolve_dropSlashes (path : Bytes) :
    resolve (dropSlashes path) = resolve path := by
  unfold resolve
  rw [dropSlashes_dropSlashes]

theorem resolve_of_not_namesDirectory {path : Bytes}
    (h : ¬ NamesDirectory path) : resolve path = path := by
  unfold NamesDirectory at h
  unfold resolve
  rw [dropSlashes_of_baseName (fun hnil => h (.inl hnil))]
  dsimp only
  rw [if_neg (fun hdot => h (.inr (.inl hdot))),
    if_neg (fun hdots => h (.inr (.inr hdots)))]

theorem not_namesDirectory_of_proper {path : Bytes}
    (h : Proper (baseName path)) : ¬ NamesDirectory path := by
  rcases h with ⟨hnil, hdot, hdots, _⟩
  rintro (heq | heq | heq)
  · exact hnil heq
  · exact hdot heq
  · exact hdots heq

theorem slash_not_mem_baseName (path : Bytes) : slash ∉ baseName path := by
  intro hmem
  have hne := List.mem_rtakeWhile_imp hmem
  simp at hne

theorem baseName_join {dir name : Bytes} (h : slash ∉ name) :
    baseName (join dir name) = name := by
  unfold baseName join
  have hall : forall c, c ∈ name -> decide (c ≠ slash) = true := by
    intro c hc
    have hne : c ≠ slash := fun heq => h (heq ▸ hc)
    simpa using hne
  unfold List.rtakeWhile
  rw [List.reverse_append, List.reverse_cons, List.append_assoc,
    List.takeWhile_append_of_pos
      (fun c hc => hall c (List.mem_reverse.mp hc))]
  simp

theorem dirName_join {dir name : Bytes} (h : slash ∉ name) :
    dirName (join dir name) = dir := by
  unfold dirName join
  have hall : forall c, c ∈ name -> decide (c ≠ slash) = true := by
    intro c hc
    have hne : c ≠ slash := fun heq => h (heq ▸ hc)
    simpa using hne
  unfold List.rdropWhile
  rw [List.reverse_append, List.reverse_cons, List.append_assoc,
    List.dropWhile_append_of_pos
      (fun c hc => hall c (List.mem_reverse.mp hc))]
  simp

theorem resolve_join {dir name : Bytes} (h : slash ∉ name)
    (hproper : Proper name) : resolve (join dir name) = join dir name := by
  apply resolve_of_not_namesDirectory
  apply not_namesDirectory_of_proper
  rwa [baseName_join h]

theorem dirName_length_le (path : Bytes) :
    (dirName path).length + (baseName path).length <= path.length := by
  have hsplit : path.rdropWhile (fun c => decide (c ≠ slash)) ++
      path.rtakeWhile (fun c => decide (c ≠ slash)) = path :=
    List.rdropWhile_append_rtakeWhile
  replace hsplit := congrArg List.length hsplit
  rw [List.length_append] at hsplit
  unfold dirName baseName
  rw [List.length_dropLast]
  omega

theorem dropSlashes_length_le (path : Bytes) :
    (dropSlashes path).length <= path.length :=
  (List.rdropWhile_prefix _ _).length_le

theorem dropSlashes_join_nil (dir : Bytes) :
    dropSlashes (join dir []) = dropSlashes dir :=
  List.rdropWhile_concat_pos _ _ _ (by simp)

theorem resolve_length_le (path : Bytes) :
    (resolve path).length <= path.length := by
  have hpath := dropSlashes_length_le path
  have hdir := dirName_length_le (dropSlashes path)
  have hdrop := dropSlashes_length_le (dirName (dropSlashes path))
  have hparent := dirName_length_le
    (dropSlashes (dirName (dropSlashes path)))
  have hle := dropSlashes_length_le
    (dirName (dropSlashes (dirName (dropSlashes path))))
  unfold resolve
  dsimp only
  split
  · omega
  · split
    · omega
    · exact hpath

/-- A dot name leads back into the path, any other name ends it. -/
theorem resolve_join_cases (dir : Bytes) {name : Bytes} (h : slash ∉ name) :
    resolve (join dir name) = join dir name ∨
      (resolve (join dir name)).length <= dir.length := by
  by_cases hnil : name = []
  · right
    rw [hnil, ← resolve_dropSlashes, dropSlashes_join_nil,
      resolve_dropSlashes]
    exact resolve_length_le dir
  · have hbase : baseName (join dir name) ≠ [] := by
      rwa [baseName_join h]
    unfold resolve
    rw [dropSlashes_of_baseName hbase]
    dsimp only
    rw [baseName_join h, dirName_join h]
    split
    · exact .inr (dropSlashes_length_le dir)
    · split
      · have hdir := dropSlashes_length_le dir
        have hparent := dirName_length_le (dropSlashes dir)
        have hle := dropSlashes_length_le (dirName (dropSlashes dir))
        right
        omega
      · exact .inl rfl

theorem join_injective {dir name name' : Bytes}
    (h : join dir name = join dir name') : name = name' := by
  have htail := List.append_cancel_left h
  exact (List.cons.inj htail).right

theorem resolve_ne_resolve_dirName {path : Bytes}
    (h : Proper (baseName path)) :
    resolve path ≠ resolve (dirName path) := by
  have hself : resolve path = path :=
    resolve_of_not_namesDirectory (not_namesDirectory_of_proper h)
  intro heq
  have hle := resolve_length_le (dirName path)
  have hdir := dirName_length_le path
  have hpos : 0 < (baseName path).length := List.length_pos_iff.mpr h.left
  rw [← heq, hself] at hle
  omega

end Path

/-!
## Operations
-/

structure FileSystem where
  nodes : AList (fun _ : Bytes => Node)

namespace FileSystem

open Stns.Path

variable (fs : FileSystem)

/-- {lit}`lstat`: a link is not followed, unless the name asks for a
directory. -/
def lstat (path : Bytes) : Option Node :=
  if nameMax < (baseName (dropSlashes path)).length then none
  else if NamesDirectory path then
    ((fs.nodes.lookup (resolve path)).bind Node.directory).map Node.inode
  else fs.nodes.lookup path

/-- {lit}`stat` -/
def stat (path : Bytes) : Option Inode :=
  (fs.lstat path).bind Node.leadsTo

def put (path : Bytes) (node : Node) : FileSystem :=
  ⟨fs.nodes.insert (resolve path) node⟩

/-- A change in a directory sets its time stamp. -/
def touch (now : Nat) (dir : Bytes) : FileSystem :=
  match fs.nodes.lookup (resolve dir) with
  | some entry => fs.put dir (entry.touch now)
  | none => fs

/-- The directory of the path lets the process add and remove names. -/
def mayChange (path : Bytes) : Bool :=
  match fs.stat (dirName path) with
  | some i => i.isDirectory && i.writable
  | none => false

/-- A new inode, if the path can get one. -/
def create (now : Nat) (path : Bytes) (i : Inode) : Option FileSystem :=
  if Proper (baseName path) ∧ fs.mayChange path = true then
    some ((fs.put path (.inode i)).touch now (dirName path))
  else
    none

/-- {lit}`mkdir`, which drops a slash behind the name; the size of a new
directory is one block. -/
def mkdir (euid now : Nat) (mode : UInt32) (path : Bytes) : FileSystem :=
  let name := dropSlashes path
  match fs.lstat name with
  | some _ => fs
  | none =>
      (fs.create now name
        ⟨.directory 4096, euid, mode, true, true, now⟩).getD fs

/-- {lit}`open` with {lit}`O_WRONLY | O_CREAT | O_NOFOLLOW`; NULL when it
fails. -/
def openWrite (euid now : Nat) (mode : UInt32) (path : Bytes) :
    Option FileSystem :=
  match fs.lstat path with
  | some (.inode i) => if i.isRegular && i.writable then some fs else none
  | some (.link _) => none
  | none => fs.create now path ⟨.regular [], euid, mode, true, true, now⟩

/-- Change the inode at a path. -/
def update (path : Bytes) (f : Inode -> Inode) : FileSystem :=
  match fs.nodes.lookup (resolve path) with
  | some (.inode i) => fs.put path (.inode (f i))
  | _ => fs

/-- {lit}`ftruncate` to 0. -/
def truncate (now : Nat) (path : Bytes) : FileSystem :=
  fs.update path (fun i => { i with type := .regular [], mtime := now })

/-- Write behind what the file holds. -/
def append (now : Nat) (path run : Bytes) : FileSystem :=
  fs.update path (fun i =>
    { i with type := .regular (i.content ++ run), mtime := now })

/-- {lit}`fchmod` by the owner, to a mode that lets him read and write. -/
def chmod (mode : UInt32) (path : Bytes) : FileSystem :=
  fs.update path (fun i =>
    { i with mode := mode, readable := true, writable := true })

/-- {lit}`fopen` for reading and reading to the end. -/
def readFile (path : Bytes) : Option Bytes :=
  match fs.stat path with
  | some i => if i.readable then some i.content else none
  | none => none

def remove (path : Bytes) : FileSystem :=
  ⟨fs.nodes.erase (resolve path)⟩

/-- {lit}`unlink` -/
def unlink (now : Nat) (path : Bytes) : FileSystem :=
  match fs.lstat path with
  | some (.inode i) =>
      if i.isDirectory = false ∧ fs.mayChange path = true then
        (fs.remove path).touch now (dirName path)
      else
        fs
  | some (.link _) =>
      if fs.mayChange path = true then
        (fs.remove path).touch now (dirName path)
      else
        fs
  | none => fs

/-- {lit}`readdir`, without the two dot names. -/
def list (dir : Bytes) : List Bytes :=
  ((fs.nodes.keys.filter (fun path => dirName path = dir)).map
    baseName).filter (fun name => Proper name)

variable {fs}

/-!
## What an operation leaves alone
-/

@[simp] theorem put_lookup_self (fs : FileSystem) (path : Bytes)
    (node : Node) :
    (fs.put path node).nodes.lookup (resolve path) = some node :=
  AList.lookup_insert fs.nodes

theorem put_lookup_ne {path key : Bytes} {node : Node}
    (h : key ≠ resolve path) :
    (fs.put path node).nodes.lookup key = fs.nodes.lookup key :=
  AList.lookup_insert_ne h

@[simp] theorem remove_lookup_self (path : Bytes) :
    (fs.remove path).nodes.lookup (resolve path) = none :=
  AList.lookup_erase _ _

theorem remove_lookup_ne {path key : Bytes} (h : key ≠ resolve path) :
    (fs.remove path).nodes.lookup key = fs.nodes.lookup key :=
  AList.lookup_erase_ne h

theorem touch_lookup_ne {now : Nat} {dir key : Bytes}
    (h : key ≠ resolve dir) :
    (fs.touch now dir).nodes.lookup key = fs.nodes.lookup key := by
  unfold touch
  split
  · exact put_lookup_ne h
  · rfl

theorem touch_lookup_self (now : Nat) {dir : Bytes} {entry : Node}
    (h : fs.nodes.lookup (resolve dir) = some entry) :
    (fs.touch now dir).nodes.lookup (resolve dir) =
      some (entry.touch now) := by
  unfold touch
  rw [h]
  exact put_lookup_self _ _ _

theorem update_lookup_ne {path key : Bytes} {f : Inode -> Inode}
    (h : key ≠ resolve path) :
    (fs.update path f).nodes.lookup key = fs.nodes.lookup key := by
  unfold update
  split
  · exact put_lookup_ne h
  · rfl

theorem update_lookup_self {path : Bytes} {f : Inode -> Inode} {i : Inode}
    (h : fs.nodes.lookup (resolve path) = some (.inode i)) :
    (fs.update path f).nodes.lookup (resolve path) = some (.inode (f i)) := by
  unfold update
  rw [h]
  exact put_lookup_self _ _ _

theorem update_update (path : Bytes) (f g : Inode -> Inode) :
    (fs.update path f).update path g = fs.update path (g ∘ f) := by
  cases hnode : fs.nodes.lookup (resolve path) with
  | none =>
      have hsame : forall h : Inode -> Inode, fs.update path h = fs := by
        intro h
        simp only [update, hnode]
      rw [hsame, hsame, hsame]
  | some node =>
      cases node with
      | inode i =>
          have hfirst : fs.update path f = fs.put path (.inode (f i)) := by
            simp only [update, hnode]
          have hboth : fs.update path (g ∘ f) =
              fs.put path (.inode (g (f i))) := by
            simp only [update, hnode, Function.comp]
          rw [hfirst, hboth]
          simp only [update, put_lookup_self]
          simp only [put, AList.insert_insert]
      | link target =>
          have hsame : forall h : Inode -> Inode, fs.update path h = fs := by
            intro h
            simp only [update, hnode]
          rw [hsame, hsame, hsame]

theorem append_append (now : Nat) (path front back : Bytes) :
    (fs.append now path front).append now path back =
      fs.append now path (front ++ back) := by
  unfold append
  rw [update_update]
  congr 1
  funext i
  simp [Inode.content]

theorem truncate_append_nil (now : Nat) (path : Bytes) :
    (fs.truncate now path).append now path [] = fs.truncate now path := by
  unfold truncate append
  rw [update_update]
  congr 1

/-!
## The inode at a path
-/

theorem stat_of_lstat {path : Bytes} {i : Inode}
    (h : fs.lstat path = some (.inode i)) : fs.stat path = some i := by
  unfold stat
  rw [h]
  rfl

/-- Only what the name leads to is looked at. -/
theorem lstat_congr {fs' : FileSystem} {path : Bytes}
    (h : fs'.nodes.lookup (resolve path) = fs.nodes.lookup (resolve path)) :
    fs'.lstat path = fs.lstat path := by
  unfold lstat
  split
  · rfl
  · split
    · rw [h]
    · rename_i hname
      rwa [resolve_of_not_namesDirectory hname] at h

theorem lstat_of_proper {path : Bytes} (h : Proper (baseName path)) :
    fs.lstat path = fs.nodes.lookup path := by
  unfold lstat
  rw [dropSlashes_of_baseName h.left,
    if_neg (Nat.not_lt.mpr h.right.right.right),
    if_neg (not_namesDirectory_of_proper h)]

theorem lstat_join {dir name : Bytes} (h : slash ∉ name)
    (hproper : Proper name) :
    fs.lstat (join dir name) = fs.nodes.lookup (join dir name) := by
  apply lstat_of_proper
  rwa [baseName_join h]

/-- A name that asks for a directory leads to one, any other name to what it
holds itself. -/
theorem lookup_of_lstat {path : Bytes} {node : Node}
    (h : fs.lstat path = some node) :
    (NamesDirectory path ∧ exists entry i,
      fs.nodes.lookup (resolve path) = some entry ∧
        entry.directory = some i ∧ node = .inode i) ∨
    (¬ NamesDirectory path ∧
      fs.nodes.lookup (resolve path) = some node) := by
  unfold lstat at h
  split at h
  · cases h
  · split at h
    · rename_i hname
      rcases Option.map_eq_some_iff.mp h with ⟨i, hbind, rfl⟩
      rcases Option.bind_eq_some_iff.mp hbind with ⟨entry, hentry, hi⟩
      exact .inl ⟨hname, entry, i, hentry, hi, rfl⟩
    · rename_i hname
      right
      rw [resolve_of_not_namesDirectory hname]
      exact ⟨hname, h⟩

theorem lookup_of_lstat_file {path : Bytes} {i : Inode}
    (h : fs.lstat path = some (.inode i)) (hfile : i.isDirectory = false) :
    ¬ NamesDirectory path ∧
      fs.nodes.lookup (resolve path) = some (.inode i) := by
  rcases lookup_of_lstat h with ⟨_, entry, i', _, hi, heq⟩ | hplain
  · cases heq
    rw [(Option.filter_eq_some_iff.mp hi).right] at hfile
    cases hfile
  · exact hplain

theorem resolve_ne_of_directory {dir file : Bytes} {i j : Inode}
    (hi : fs.lstat dir = some (.inode i)) (hdir : i.isDirectory = true)
    (hj : fs.lstat file = some (.inode j)) (hfile : j.isDirectory = false) :
    resolve dir ≠ resolve file := by
  intro heq
  have hentry := (lookup_of_lstat_file hj hfile).right
  rw [← heq] at hentry
  rcases lookup_of_lstat hi with ⟨_, entry, i', hlookup, hi', _⟩ | ⟨_, hlookup⟩
  · rw [hentry] at hlookup
    cases hlookup
    rcases Option.filter_eq_some_iff.mp hi' with ⟨hleads, hdir'⟩
    cases hleads
    rw [hdir'] at hfile
    cases hfile
  · rw [hentry] at hlookup
    cases hlookup
    rw [hdir] at hfile
    cases hfile

/-- What is there under a name with slashes behind it is there without. -/
theorem lstat_dropSlashes {path : Bytes} {node : Node}
    (h : fs.lstat path = some node) :
    exists entry, fs.lstat (dropSlashes path) = some entry := by
  by_cases hplain : baseName path = []
  · unfold lstat at h ⊢
    rw [dropSlashes_dropSlashes]
    split at h
    · cases h
    · rename_i hshort
      rw [if_neg hshort]
      rw [if_pos (.inl hplain)] at h
      split
      · rw [resolve_dropSlashes]
        exact ⟨node, h⟩
      · rename_i hname
        rw [← resolve_dropSlashes, resolve_of_not_namesDirectory hname] at h
        rcases Option.map_eq_some_iff.mp h with ⟨i, hbind, _⟩
        rcases Option.bind_eq_some_iff.mp hbind with ⟨entry, hentry, _⟩
        exact ⟨entry, hentry⟩
  · rw [dropSlashes_of_baseName hplain]
    exact ⟨node, h⟩

theorem mkdir_of_entry {euid now : Nat} {mode : UInt32} {path : Bytes}
    {entry : Node} (h : fs.lstat (dropSlashes path) = some entry) :
    fs.mkdir euid now mode path = fs := by
  unfold mkdir
  dsimp only
  rw [h]

theorem lstat_touch (now : Nat) {dir : Bytes} {i : Inode}
    (h : fs.lstat dir = some (.inode i)) (hdir : i.isDirectory = true) :
    (fs.touch now dir).lstat dir = some (.inode { i with mtime := now }) := by
  have hlookup := lookup_of_lstat h
  unfold lstat at h ⊢
  split at h
  · cases h
  · rename_i hshort
    rw [if_neg hshort]
    rcases hlookup with ⟨hname, entry, i', hentry, hi, heq⟩ | ⟨hname, hentry⟩
    · cases heq
      rw [if_pos hname, touch_lookup_self now hentry, Option.bind_some,
        Node.directory_touch hi]
      rfl
    · have htouched := touch_lookup_self now hentry
      rw [resolve_of_not_namesDirectory hname] at htouched
      rw [if_neg hname, htouched, Node.touch, Inode.touch_of_directory now hdir]

theorem lstat_update {path : Bytes} {f : Inode -> Inode} {i : Inode}
    (h : fs.lstat path = some (.inode i)) (hfile : i.isDirectory = false) :
    (fs.update path f).lstat path = some (.inode (f i)) := by
  rcases lookup_of_lstat_file h hfile with ⟨hname, hlookup⟩
  have hnew := update_lookup_self (f := f) hlookup
  rw [resolve_of_not_namesDirectory hname] at hnew
  unfold lstat at h ⊢
  split at h
  · cases h
  · rename_i hshort
    rw [if_neg hshort, if_neg hname]
    exact hnew

theorem lstat_truncate (now : Nat) {path : Bytes} {i : Inode}
    (h : fs.lstat path = some (.inode i)) (hfile : i.isDirectory = false) :
    (fs.truncate now path).lstat path =
      some (.inode { i with type := .regular [], mtime := now }) :=
  lstat_update h hfile

theorem lstat_append (now : Nat) {path : Bytes} (run : Bytes) {i : Inode}
    (h : fs.lstat path = some (.inode i)) (hfile : i.isDirectory = false) :
    (fs.append now path run).lstat path =
      some (.inode { i with
        type := .regular (i.content ++ run)
        mtime := now }) :=
  lstat_update h hfile

theorem lstat_chmod (mode : UInt32) {path : Bytes} {i : Inode}
    (h : fs.lstat path = some (.inode i)) (hfile : i.isDirectory = false) :
    (fs.chmod mode path).lstat path =
      some (.inode { i with
        mode := mode
        readable := true
        writable := true }) :=
  lstat_update h hfile

theorem lstat_create {fs' : FileSystem} {now : Nat} {path : Bytes} {i : Inode}
    (h : fs.create now path i = some fs') :
    fs'.lstat path = some (.inode i) := by
  unfold create at h
  split at h
  · rename_i hallowed
    cases h
    have hne := resolve_ne_resolve_dirName hallowed.left
    have hself := resolve_of_not_namesDirectory
      (not_namesDirectory_of_proper hallowed.left)
    have hput := fs.put_lookup_self path (.inode i)
    rw [lstat_of_proper hallowed.left]
    rw [hself] at hne hput
    rw [touch_lookup_ne hne, hput]
  · cases h

theorem unlink_lookup_ne {now : Nat} {path key : Bytes}
    (hkey : key ≠ resolve path) (hdir : key ≠ resolve (dirName path)) :
    (fs.unlink now path).nodes.lookup key = fs.nodes.lookup key := by
  have hremoved : ((fs.remove path).touch now (dirName path)).nodes.lookup
      key = fs.nodes.lookup key :=
    (touch_lookup_ne hdir).trans (remove_lookup_ne hkey)
  unfold unlink
  split
  · split
    · exact hremoved
    · rfl
  · split
    · exact hremoved
    · rfl
  · rfl

/-- What a directory lists can stand behind its path. -/
theorem proper_of_mem_list {dir name : Bytes} (h : name ∈ fs.list dir) :
    slash ∉ name ∧ Proper name := by
  unfold list at h
  rcases List.mem_filter.mp h with ⟨hmem, hproper⟩
  rcases List.mem_map.mp hmem with ⟨path, _, rfl⟩
  exact ⟨slash_not_mem_baseName path, of_decide_eq_true hproper⟩

theorem openWrite_cases {fs' : FileSystem} {euid now : Nat} {mode : UInt32}
    {path : Bytes} (h : fs.openWrite euid now mode path = some fs') :
    (exists i, fs.lstat path = some (.inode i) ∧ i.isRegular = true ∧
      i.writable = true ∧ fs' = fs) ∨
    (fs.lstat path = none ∧
      fs.create now path ⟨.regular [], euid, mode, true, true, now⟩ =
        some fs') := by
  unfold openWrite at h
  split at h
  · rename_i i hnode
    split at h
    · rename_i hallowed
      cases h
      rw [Bool.and_eq_true] at hallowed
      exact .inl ⟨i, hnode, hallowed.left, hallowed.right, rfl⟩
    · cases h
  · cases h
  · rename_i hnode
    exact .inr ⟨hnode, h⟩

end FileSystem

end Stns
