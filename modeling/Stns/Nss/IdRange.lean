import Stns.Nss.Identifiers
import Stns.Nss.SingleValue
import Stns.Request.CacheRun

/-!
# Refusing an identifier without asking

A process looks entries up and enumerates them while the entries of the server
change.  Every answer describes the server as it is then, and its headers set
the bounds by which later lookups are refused.  The file cache is off and there
is no lock file, so a call that passes its filter is answered by the server.
-/

namespace Stns

open MachineInt

/-!
## The server
-/

/-- The entries of the server at a moment. -/
structure Directory where
  users : List JsonObject
  groups : List JsonObject

def Directory.entries (d : Directory) : Database -> List JsonObject
  | .group => d.groups
  | _ => d.users

/-- The identifier of an entry, before the shift. -/
def idOf (leaf : JsonObject) : Int :=
  jsonObjectGetNumber (some leaf) Key.id

/-- What a request path asks for: the resource, its entry of a name, or its
entry of an identifier. -/
inductive Query where
  | all
  | name (key : CString)
  | id (key : Int32)

def Query.wants (leaf : JsonObject) : Query -> Bool
  | .all => true
  | .name key => decide (nameOf leaf = some key)
  | .id key => decide (idOf leaf = key.toInt)

structure ServerAnswer where
  headers : List IdHeader
  result : CurlCode
  statusCode : Int
  document : Option Json

def ServerAnswer.fetch (c : StnsConf) (a : ServerAnswer) : Fetch :=
  ⟨some c, a.result, a.statusCode, a.document⟩

/-- The server at the moment of a call. -/
structure Server where
  directory : Directory
  answer : Database -> Query -> ServerAnswer

/-- The answer that a transfer brings, with the document that its body parses
to. -/
def Attempt.serverAnswer (a : Attempt) (headers : List IdHeader)
    (document : Option Json) : ServerAnswer :=
  ⟨headers, a.finalResult, if a.Failed then a.code else 200, document⟩

/-- With the cache off and no lock file, a request is one transfer, if that is
not one to retry, and fetches what the transfer brings. -/
theorem fetch_of_request [CurlEscape] {c : StnsConf} (euid : Nat)
    (path : CString) (data : Block) (backend : Backend) {w : World}
    (hcache : c.cache = 0) (hlock : w.lock = none)
    (hwrapper : c.queryWrapper = none)
    (hfinal : (backend.transfers 0).Final) (headers : List IdHeader)
    (document : Option Json) :
    let answer := (stnsRequest c euid path data backend w).1
    answer.contact = .http 1 ∧
      Fetch.mk (some c) answer.result answer.res.statusCode document =
        ((backend.transfers 0).serverAnswer headers document).fetch c := by
  have hmiss : CacheUsed c euid w.fs -> forall i, ¬ Hit c euid w path i :=
    fun hused => absurd hcache hused.left
  have hfree : (stnsRequestAvailable c w.now w.lock).1 = true := by
    rw [hlock]
    rfl
  have hlast : lastAttempt backend.transfers c.retries 0 = 0 := by
    cases c.retries with
    | zero => rfl
    | succ retries => exact if_pos hfinal
  dsimp only
  rw [answer_of_contact hmiss hfree data backend]
  unfold contactBackend contactBackendBy
  rw [hwrapper]
  dsimp only
  rw [httpBranch_eq, hlast]
  refine ⟨rfl, ?_⟩
  unfold Attempt.serverAnswer ServerAnswer.fetch
  show Fetch.mk _ _ (innerHttpRequest (backend.transfers 0)
    (Response.start data)).2.statusCode _ = _
  by_cases hfailed : (backend.transfers 0).Failed
  · rw [(innerHttpRequest_failed hfailed _).right, if_pos hfailed]
  · rw [(innerHttpRequest_served hfailed _).right.left, if_neg hfailed]
    rfl

/-!
## Truth
-/

/-- The four bounds that headers name. -/
inductive IdBound where
  | highestUser
  | lowestUser
  | highestGroup
  | lowestGroup
  deriving DecidableEq

namespace IdBound

/-- The name of the header. -/
def header : IdBound -> Bytes
  | highestUser => ascii "User-Highest-Id"
  | lowestUser => ascii "User-Lowest-Id"
  | highestGroup => ascii "Group-Highest-Id"
  | lowestGroup => ascii "Group-Lowest-Id"

/-- The remembered value. -/
def get (b : IdBounds) : IdBound -> Int32
  | highestUser => b.highestUserId
  | lowestUser => b.lowestUserId
  | highestGroup => b.highestGroupId
  | lowestGroup => b.lowestGroupId

/-- The database whose entries the bound is about. -/
def database : IdBound -> Database
  | highestUser => .passwd
  | lowestUser => .passwd
  | highestGroup => .group
  | lowestGroup => .group

/-- The identifier is on the inner side of the bound. -/
def Admits (id value : Int) : IdBound -> Prop
  | highestUser => id <= value
  | lowestUser => value <= id
  | highestGroup => id <= value
  | lowestGroup => value <= id

/-- The value is the bound of the entries, if there are any. -/
def Describes (bound : IdBound) (d : Directory) (value : Int) : Prop :=
  d.entries bound.database ≠ [] ->
    (exists leaf, leaf ∈ d.entries bound.database ∧ idOf leaf = value) ∧
      forall leaf, leaf ∈ d.entries bound.database ->
        bound.Admits (idOf leaf) value

end IdBound

/-- An answer that describes the server: its headers are the bounds of the
entries, and its body has the entries that are asked for, or there are none and
they are not found. -/
structure ServerAnswer.Truthful (a : ServerAnswer) (d : Directory)
    (db : Database) (q : Query) : Prop where
  headers : forall h, h ∈ a.headers -> forall bound : IdBound,
    h.name = bound.header -> bound.Describes d h.value.toInt
  body : (a.result = CurlCode.ok ∧ a.document =
      some (.array (((d.entries db).filter q.wants).map .object))) ∨
    ((d.entries db).filter q.wants = [] ∧
      a.result = CurlCode.httpReturnedError ∧
        a.statusCode = stnsHttpNotfound)

/-- Every identifier is an {lit}`int` before and after the shift, and not
negative before it. -/
def Directory.InRange (c : StnsConf) (d : Directory) : Prop :=
  forall db leaf, leaf ∈ d.entries db ->
    0 <= idOf leaf ∧ idOf leaf < 2 ^ 31 ∧
      -2 ^ 31 <= idOf leaf + (db.idShift c).toInt ∧
        idOf leaf + (db.idShift c).toInt < 2 ^ 31

structure Server.Truthful (c : StnsConf) (server : Server) : Prop where
  inRange : server.directory.InRange c
  answers : forall db q,
    (server.answer db q).Truthful server.directory db q

/-!
## Runs
-/

/-- What a process keeps between calls. -/
structure NssState where
  bounds : IdBounds
  session : Database -> Session

inductive NssCall where
  | byName (db : Database) (name : CString)
  | byId (db : Database) (id : UInt32)
  | setent (db : Database)
  | getent (db : Database) (p : Packing db.Record)
  | endent (db : Database)

/-- The query for an identifier, which is printed as an {lit}`int`. -/
def idQuery (c : StnsConf) (db : Database) (id : UInt32) : Query :=
  .id (id - (db.idShift c).toUInt32).toInt32

/-- What a call asks the server for, if it does.  Getting an entry asks only
without a loaded array. -/
def NssCall.query (c : StnsConf) (s : NssState) :
    NssCall -> Option (Database × Query)
  | .byName db name =>
      if nameQueryAvailable db name = true then some (db, .name name) else none
  | .byId db id =>
      if idQueryAvailable s.bounds db id = true then some (db, idQuery c db id)
      else none
  | .setent db => some (db, .all)
  | .getent db _ =>
      if (s.session db).locked = false ∧
          jsonValueGetArray (s.session db).st.entries = none
      then some (db, .all)
      else none
  | .endent _ => none

/-- An answer of the past, with the entries of its moment. -/
structure Exchange where
  directory : Directory
  headers : List IdHeader

/-- A process after some calls, and the answers it got, the latest first. -/
structure NssRun where
  state : NssState
  exchanges : List Exchange

namespace NssRun

def start : NssRun :=
  ⟨⟨{}, fun _ => Session.start⟩, []⟩

variable (M : Machine) (c : StnsConf)

/-- The enumerations after a call. -/
def sessionsAfter (s : NssState) (server : Server) :
    NssCall -> Database -> Session
  | .byName _ _ => s.session
  | .byId _ _ => s.session
  | .setent db =>
      Function.update s.session db
        (nssStnsSetent ((server.answer db .all).fetch c) (s.session db)).2
  | .getent db p =>
      Function.update s.session db
        (nssStnsGetentR M db ((server.answer db .all).fetch c) (s.session db)
          p).2
  | .endent db =>
      Function.update s.session db (sessionEndent (s.session db)).2

def step (r : NssRun) (server : Server) (call : NssCall) : NssRun :=
  let session := sessionsAfter M c r.state server call
  match call.query c r.state with
  | none => ⟨⟨r.state.bounds, session⟩, r.exchanges⟩
  | some (db, q) =>
      let headers := (server.answer db q).headers
      ⟨⟨receiveHeaders M c r.state.bounds headers, session⟩,
        ⟨server.directory, headers⟩ :: r.exchanges⟩

def run (r : NssRun) (calls : List (Server × NssCall)) : NssRun :=
  calls.foldl (fun r call => r.step M c call.1 call.2) r

end NssRun

/-- The latest answer with a header for the bound. -/
def latestWith (bound : IdBound) (exchanges : List Exchange) :
    Option Exchange :=
  exchanges.find? (fun e =>
    e.headers.any (fun h => decide (h.name = bound.header)))

/-- The lookup by identifier finds an entry. -/
def HasId (M : Machine) (c : StnsConf) (d : Directory) (db : Database)
    (id : UInt32) : Prop :=
  exists leaf, leaf ∈ d.entries db ∧
    idMatches M (db.idShift c) id leaf = some true

/-!
## Headers and bounds
-/

section Headers

variable {M : Machine} {c : StnsConf} {b : IdBounds} {bound : IdBound}

theorem IdBound.header_injective {bound bound' : IdBound}
    (h : bound.header = bound'.header) : bound = bound' := by
  cases bound <;> cases bound' <;> first | rfl | exact absurd h (by decide)

theorem headerCallback_other {header : IdHeader}
    (h : forall bound : IdBound, header.name ≠ bound.header) :
    headerCallback M c b header = b := by
  have hhighestUser : header.name ≠ ascii "User-Highest-Id" := h .highestUser
  have hlowestUser : header.name ≠ ascii "User-Lowest-Id" := h .lowestUser
  have hhighestGroup : header.name ≠ ascii "Group-Highest-Id" :=
    h .highestGroup
  have hlowestGroup : header.name ≠ ascii "Group-Lowest-Id" := h .lowestGroup
  unfold headerCallback
  rw [if_neg hhighestUser, if_neg hlowestUser, if_neg hhighestGroup,
    if_neg hlowestGroup]

theorem headerCallback_named {header : IdHeader} {named : IdBound}
    (h : header.name = named.header) (bound : IdBound) :
    bound.get (headerCallback M c b header) =
      if bound = named then M.intAdd header.value (bound.database.idShift c)
      else bound.get b := by
  unfold headerCallback
  rw [h]
  cases named <;> cases bound <;> rfl

/-- A header sets the bound that it names and no other. -/
theorem headerCallback_get (M : Machine) (c : StnsConf) (b : IdBounds)
    (header : IdHeader) (bound : IdBound) :
    bound.get (headerCallback M c b header) =
      if header.name = bound.header then
        M.intAdd header.value (bound.database.idShift c)
      else bound.get b := by
  by_cases hnamed : exists named : IdBound, header.name = named.header
  · rcases hnamed with ⟨named, hname⟩
    rw [headerCallback_named hname, hname]
    by_cases hself : bound = named
    · rw [if_pos hself, if_pos (congrArg IdBound.header hself.symm)]
    · rw [if_neg hself, if_neg]
      intro hheader
      exact hself (IdBound.header_injective hheader.symm)
  · have hother := not_exists.mp hnamed
    rw [headerCallback_other hother, if_neg (hother bound)]

/-- After the headers of a response, a bound comes from one of them that names
it, or none does and it is what it was. -/
theorem receiveHeaders_get (M : Machine) (c : StnsConf) (b : IdBounds)
    (headers : List IdHeader) (bound : IdBound) :
    (exists header, header ∈ headers ∧ header.name = bound.header ∧
        bound.get (receiveHeaders M c b headers) =
          M.intAdd header.value (bound.database.idShift c)) ∨
      ((forall header, header ∈ headers -> header.name ≠ bound.header) ∧
        bound.get (receiveHeaders M c b headers) = bound.get b) := by
  induction headers generalizing b with
  | nil => exact .inr ⟨fun _ hmem => absurd hmem List.not_mem_nil, rfl⟩
  | cons first rest ih =>
      rcases ih (headerCallback M c b first) with
        ⟨header, hmem, hname, hget⟩ | ⟨hnone, hget⟩
      · exact .inl ⟨header, List.mem_cons_of_mem _ hmem, hname, hget⟩
      · have hfirst := headerCallback_get M c b first bound
        by_cases hname : first.name = bound.header
        · rw [if_pos hname] at hfirst
          exact .inl ⟨first, List.mem_cons_self, hname, hget.trans hfirst⟩
        · rw [if_neg hname] at hfirst
          refine .inr ⟨?_, hget.trans hfirst⟩
          intro header hmem
          rcases List.mem_cons.mp hmem with heq | hrest
          · rw [heq]
            exact hname
          · exact hnone header hrest

/-- The shifted bound of a server admits every shifted identifier. -/
theorem IdBound.Describes.admits {d : Directory} {value : Int32}
    (h : bound.Describes d value.toInt) (hrange : d.InRange c)
    {leaf : JsonObject} (hleaf : leaf ∈ d.entries bound.database) :
    bound.Admits (idOf leaf + (bound.database.idShift c).toInt)
      (M.intAdd value (bound.database.idShift c)).toInt := by
  rcases h (List.ne_nil_of_mem hleaf) with ⟨⟨top, htop, hvalue⟩, hall⟩
  rcases hrange bound.database top htop with ⟨_, _, hlow, hhigh⟩
  rw [hvalue] at hlow hhigh
  rw [M.intAdd_exact _ _ hlow hhigh]
  have hadmits := hall leaf hleaf
  unfold IdBound.Admits at hadmits ⊢
  cases bound with
  | highestUser => exact Int.add_le_add_right hadmits _
  | lowestUser => exact Int.add_le_add_right hadmits _
  | highestGroup => exact Int.add_le_add_right hadmits _
  | lowestGroup => exact Int.add_le_add_right hadmits _

end Headers

/-!
## What the bounds say
-/

/-- A known bound is that of the server at the latest answer that named it. -/
def BoundHolds (c : StnsConf) (r : NssRun) (bound : IdBound) : Prop :=
  bound.get r.state.bounds ≠ 0 ->
    exists e, latestWith bound r.exchanges = some e ∧
      e.directory.InRange c ∧
      forall leaf, leaf ∈ e.directory.entries bound.database ->
        bound.Admits (idOf leaf + (bound.database.idShift c).toInt)
          (bound.get r.state.bounds).toInt

section Runs

variable {M : Machine} {c : StnsConf} {r : NssRun} {bound : IdBound}

theorem latestWith_cons (bound : IdBound) (e : Exchange)
    (exchanges : List Exchange) :
    latestWith bound (e :: exchanges) =
      if exists header, header ∈ e.headers ∧ header.name = bound.header then
        some e
      else latestWith bound exchanges := by
  unfold latestWith
  rw [List.find?_cons]
  have hany : e.headers.any (fun h => decide (h.name = bound.header)) =
      decide (exists header, header ∈ e.headers ∧
        header.name = bound.header) := by
    rw [Bool.eq_iff_iff, List.any_eq_true, decide_eq_true_iff]
    simp only [decide_eq_true_eq]
  rw [hany]
  by_cases h : exists header, header ∈ e.headers ∧ header.name = bound.header
  · rw [if_pos h, decide_eq_true h]
  · rw [if_neg h, decide_eq_false h]

/-- An answer keeps the bounds true. -/
theorem BoundHolds.receive (h : BoundHolds c r bound) {a : ServerAnswer}
    {d : Directory} {db : Database} {q : Query} (htrue : a.Truthful d db q)
    (hrange : d.InRange c) (session : Database -> Session) :
    BoundHolds c
      ⟨⟨receiveHeaders M c r.state.bounds a.headers, session⟩,
        ⟨d, a.headers⟩ :: r.exchanges⟩ bound := by
  intro hknown
  rw [latestWith_cons]
  rcases receiveHeaders_get M c r.state.bounds a.headers bound with
    ⟨header, hmem, hname, hget⟩ | ⟨hnone, hget⟩
  · refine ⟨⟨d, a.headers⟩, if_pos ⟨header, hmem, hname⟩, hrange, ?_⟩
    intro leaf hleaf
    dsimp only at hleaf ⊢
    rw [hget]
    exact (htrue.headers header hmem bound hname).admits hrange hleaf
  · dsimp only at hknown ⊢
    rw [hget] at hknown ⊢
    rw [if_neg]
    · exact h hknown
    · intro hsome
      rcases hsome with ⟨header, hmem, hname⟩
      exact hnone header hmem hname

theorem BoundHolds.step (h : BoundHolds c r bound) {server : Server}
    (htrue : server.Truthful c) (call : NssCall) :
    BoundHolds c (r.step M c server call) bound := by
  unfold NssRun.step
  dsimp only
  cases hquery : call.query c r.state with
  | none => exact h
  | some asked =>
      exact h.receive (htrue.answers asked.1 asked.2) htrue.inRange _

theorem boundHolds_run {calls : List (Server × NssCall)}
    (h : BoundHolds c r bound)
    (htrue : forall call, call ∈ calls -> call.1.Truthful c) :
    BoundHolds c (r.run M c calls) bound := by
  induction calls generalizing r with
  | nil => exact h
  | cons call rest ih =>
      have hstep := h.step (M := M) (htrue call List.mem_cons_self) call.2
      exact ih hstep
        (fun next hmem => htrue next (List.mem_cons_of_mem _ hmem))

theorem boundHolds_start (c : StnsConf) (bound : IdBound) :
    BoundHolds c NssRun.start bound := by
  intro hknown
  exfalso
  apply hknown
  cases bound with
  | highestUser => rfl
  | lowestUser => rfl
  | highestGroup => rfl
  | lowestGroup => rfl

end Runs

/-!
## A refused identifier
-/

theorem idMatches_signed (M : Machine) {shift : Int32} {leaf : JsonObject}
    (hn : 0 <= idOf leaf) (hlt : idOf leaf < 2 ^ 31)
    (hlow : -2 ^ 31 <= idOf leaf + shift.toInt)
    (hsum : idOf leaf + shift.toInt < 2 ^ 31) (id : UInt32) :
    idMatches M shift id leaf =
      some (decide (id.toInt32.toInt = idOf leaf + shift.toInt)) := by
  have huint : ((M.uintOfDouble (idOf leaf)).toNat : Int) = idOf leaf :=
    M.uintOfDouble_exact _ hn (by omega)
  have hshift := toUInt32_emod shift
  have hid := toUInt32_emod id.toInt32
  rw [UInt32.toUInt32_toInt32] at hid
  have hidlow := id.toInt32.le_toInt
  have hidhigh := id.toInt32.toInt_lt
  unfold idMatches
  dsimp only
  show some (decide (M.uintOfDouble (idOf leaf) + shift.toUInt32 = id)) = _
  congr 1
  rw [decide_eq_decide, ← UInt32.toNat_inj, UInt32.toNat_add]
  constructor
  · intro h
    omega
  · intro h
    omega

/-- The bounds that the filter of a database looks at. -/
def IdBound.Filters (db : Database) (bound : IdBound) : Prop :=
  match db with
  | .passwd => bound = highestUser ∨ bound = lowestUser
  | .group => bound = highestGroup ∨ bound = lowestGroup
  | .spwd => False

/-- The remembered value of the bound is known, and the identifier is on its
outer side. -/
structure IdBound.Refuses (b : IdBounds) (db : Database) (id : UInt32)
    (bound : IdBound) : Prop where
  filters : bound.Filters db
  known : bound.get b ≠ 0
  outside : ¬ bound.Admits id.toInt32.toInt (bound.get b).toInt

theorem refused_by {b : IdBounds} {db : Database} {id : UInt32}
    (h : idQueryAvailable b db id = false) :
    exists bound : IdBound, bound.Refuses b db id := by
  cases db with
  | passwd =>
      rcases Bool.and_eq_false_iff.mp h with hhigh | hlow
      · rcases highestQueryAvailable_eq_false.mp hhigh with ⟨hknown, hlt⟩
        exact ⟨.highestUser, .inl rfl, hknown,
          Int.not_le.mpr (Int32.lt_iff_toInt_lt.mp hlt)⟩
      · rcases lowestQueryAvailable_eq_false.mp hlow with ⟨hknown, hlt⟩
        exact ⟨.lowestUser, .inr rfl, hknown,
          Int.not_le.mpr (Int32.lt_iff_toInt_lt.mp hlt)⟩
  | group =>
      rcases Bool.and_eq_false_iff.mp h with hhigh | hlow
      · rcases highestQueryAvailable_eq_false.mp hhigh with ⟨hknown, hlt⟩
        exact ⟨.highestGroup, .inl rfl, hknown,
          Int.not_le.mpr (Int32.lt_iff_toInt_lt.mp hlt)⟩
      · rcases lowestQueryAvailable_eq_false.mp hlow with ⟨hknown, hlt⟩
        exact ⟨.lowestGroup, .inr rfl, hknown,
          Int.not_le.mpr (Int32.lt_iff_toInt_lt.mp hlt)⟩
  | spwd => cases h

theorem IdBound.Filters.database {db : Database} {bound : IdBound}
    (h : bound.Filters db) : bound.database = db := by
  cases db with
  | passwd =>
      rcases h with h | h
      · rw [h]
        rfl
      · rw [h]
        rfl
  | group =>
      rcases h with h | h
      · rw [h]
        rfl
      · rw [h]
        rfl
  | spwd => exact absurd h (fun h => h)

section Refused

variable {M : Machine} {c : StnsConf}

theorem not_hasId_of_not_admits {d : Directory} (hrange : d.InRange c)
    {db : Database} {id : UInt32} {value : Int} {bound : IdBound}
    (hall : forall leaf, leaf ∈ d.entries db ->
      bound.Admits (idOf leaf + (db.idShift c).toInt) value)
    (h : ¬ bound.Admits id.toInt32.toInt value) : ¬ HasId M c d db id := by
  intro hhas
  rcases hhas with ⟨leaf, hleaf, hmatch⟩
  rcases hrange db leaf hleaf with ⟨hn, hlt, hlow, hhigh⟩
  rw [idMatches_signed M hn hlt hlow hhigh] at hmatch
  injection hmatch with hmatch
  have heq := of_decide_eq_true hmatch
  apply h
  rw [heq]
  exact hall leaf hleaf

/-- Asking a truthful server for an identifier that it does not have. -/
theorem unfiltered_of_not_hasId {d : Directory} (hrange : d.InRange c)
    {db : Database} {id : UInt32} {q : Query} {a : ServerAnswer}
    (htrue : a.Truthful d db q) (h : ¬ HasId M c d db id)
    (p : Packing db.Record) :
    stnsGetSingleValueMethod M db (.id id) true (a.fetch c) p =
      some (p.reply .notFound) := by
  unfold stnsGetSingleValueMethod ServerAnswer.fetch
  dsimp only
  rw [if_neg Bool.noConfusion]
  rcases htrue.body with ⟨hok, hdocument⟩ | ⟨_, hresult, hstatus⟩
  · rw [if_neg (not_not_intro hok), hdocument, lookup_eq_scan]
    have hnone : scan (LookupKey.matchMethod M c db (.id id))
        (objectsOf (elementsOf (.array
          (((d.entries db).filter q.wants).map .object)))) = .notFound := by
      rw [elementsOf_array, objectsOf_map_object]
      apply scan_of_rejected
      intro leaf hleaf
      have hentry : leaf ∈ d.entries db := (List.mem_filter.mp hleaf).left
      rcases hrange db leaf hentry with ⟨hn, hlt, hlow, hhigh⟩
      show idMatches M (db.idShift c) id leaf = some false
      rw [idMatches_signed M hn hlt hlow hhigh]
      congr 1
      apply decide_eq_false
      intro heq
      apply h
      refine ⟨leaf, hentry, ?_⟩
      rw [idMatches_signed M hn hlt hlow hhigh, decide_eq_true heq]
    rw [hnone]
    rfl
  · rw [if_pos, if_pos hstatus]
    rw [hresult]
    decide

end Refused

/-- In every run, a refused identifier is one that the server did not have at
the latest answer with the bound that refuses it.  So if the entry of the
identifier has not been added since, the lookup replies as without the
filter. -/
theorem refused_id_absent (M : Machine) (c : StnsConf)
    (calls : List (Server × NssCall))
    (htrue : forall call, call ∈ calls -> call.1.Truthful c)
    (server : Server) (hserver : server.Truthful c) (db : Database)
    (id : UInt32) (p : Packing db.Record) :
    let r := NssRun.start.run M c calls
    let f := (server.answer db (idQuery c db id)).fetch c
    (idQueryAvailable r.state.bounds db id = false ->
        exists bound e, bound.Refuses r.state.bounds db id ∧
          latestWith bound r.exchanges = some e ∧
            ¬ HasId M c e.directory db id) ∧
      ((HasId M c server.directory db id -> forall bound e,
          bound.Refuses r.state.bounds db id ->
            latestWith bound r.exchanges = some e ->
              HasId M c e.directory db id) ->
        nssStnsGetById M r.state.bounds id db f p =
          stnsGetSingleValueMethod M db (.id id) true f p) := by
  dsimp only
  have hbounds : forall bound,
      BoundHolds c (NssRun.start.run M c calls) bound :=
    fun bound => boundHolds_run (boundHolds_start c bound) htrue
  generalize NssRun.start.run M c calls = r at hbounds ⊢
  have hrefused : idQueryAvailable r.state.bounds db id = false ->
      exists bound e, bound.Refuses r.state.bounds db id ∧
        latestWith bound r.exchanges = some e ∧
          ¬ HasId M c e.directory db id := by
    intro h
    rcases refused_by h with ⟨bound, hrefuses⟩
    rcases hbounds bound hrefuses.known with ⟨e, hlatest, hrange, hall⟩
    rw [hrefuses.filters.database] at hall
    exact ⟨bound, e, hrefuses, hlatest,
      not_hasId_of_not_admits hrange hall hrefuses.outside⟩
  refine ⟨hrefused, ?_⟩
  intro hkept
  rw [nssStnsGetById_eq]
  cases havailable : idQueryAvailable r.state.bounds db id with
  | true => rfl
  | false =>
      rcases hrefused havailable with ⟨bound, e, hrefuses, hlatest, habsent⟩
      have hgone : ¬ HasId M c server.directory db id :=
        fun hhas => habsent (hkept hhas bound e hrefuses hlatest)
      rw [unfiltered_of_not_hasId hserver.inRange (hserver.answers db _) hgone]
      rfl

/-!
## An entry that is added
-/

/-- A server that answers every query from its entries. -/
def honestServer (d : Directory) (headers : List IdHeader) : Server where
  directory := d
  answer db q :=
    if (d.entries db).filter q.wants = [] then
      ⟨headers, CurlCode.httpReturnedError, stnsHttpNotfound, none⟩
    else
      ⟨headers, CurlCode.ok, 200,
        some (.array (((d.entries db).filter q.wants).map .object))⟩

theorem honestServer_truthful {c : StnsConf} {d : Directory}
    {headers : List IdHeader} (hrange : d.InRange c)
    (hheaders : forall h, h ∈ headers -> forall bound : IdBound,
      h.name = bound.header -> bound.Describes d h.value.toInt) :
    (honestServer d headers).Truthful c := by
  refine ⟨hrange, ?_⟩
  intro db q
  unfold honestServer
  dsimp only
  split
  · rename_i hnone
    exact ⟨hheaders, .inr ⟨hnone, rfl, rfl⟩⟩
  · exact ⟨hheaders, .inl ⟨rfl, rfl⟩⟩

/-- A server of users only, with the headers for them. -/
def usersServer (users : List JsonObject) (highest lowest : Int32) : Server :=
  honestServer ⟨users, []⟩
    [⟨ascii "User-Highest-Id", highest⟩, ⟨ascii "User-Lowest-Id", lowest⟩]

theorem usersServer_truthful {c : StnsConf} {users : List JsonObject}
    {highest lowest : Int32}
    (hrange : forall leaf, leaf ∈ users -> 0 <= idOf leaf ∧
      idOf leaf < 2 ^ 31 ∧ -2 ^ 31 <= idOf leaf + c.uidShift.toInt ∧
        idOf leaf + c.uidShift.toInt < 2 ^ 31)
    (hhighest : exists leaf, leaf ∈ users ∧ idOf leaf = highest.toInt)
    (hlowest : exists leaf, leaf ∈ users ∧ idOf leaf = lowest.toInt)
    (hbounds : forall leaf, leaf ∈ users ->
      lowest.toInt <= idOf leaf ∧ idOf leaf <= highest.toInt) :
    (usersServer users highest lowest).Truthful c := by
  apply honestServer_truthful
  · intro db leaf hleaf
    cases db with
    | passwd => exact hrange leaf hleaf
    | group => cases hleaf
    | spwd => exact hrange leaf hleaf
  · intro h hmem bound hname hsome
    rcases List.mem_cons.mp hmem with hfirst | hrest
    · rw [hfirst] at hname ⊢
      cases bound with
      | highestUser =>
          exact ⟨hhighest, fun leaf hleaf => (hbounds leaf hleaf).right⟩
      | lowestUser =>
          have hother : ascii "User-Highest-Id" = ascii "User-Lowest-Id" :=
            hname
          exact absurd hother (by decide)
      | highestGroup => exact absurd rfl hsome
      | lowestGroup => exact absurd rfl hsome
    · rw [List.mem_singleton.mp hrest] at hname ⊢
      cases bound with
      | highestUser =>
          have hother : ascii "User-Lowest-Id" = ascii "User-Highest-Id" :=
            hname
          exact absurd hother (by decide)
      | lowestUser =>
          exact ⟨hlowest, fun leaf hleaf => (hbounds leaf hleaf).left⟩
      | highestGroup => exact absurd rfl hsome
      | lowestGroup => exact absurd rfl hsome

/-- A user with a name and an identifier. -/
def userEntry (name : String) (id : Int) : JsonObject :=
  [(Key.name, .string (ascii name)), (Key.id, .number id)]

/-- One user, of identifier 1000. -/
def oneUserServer : Server :=
  usersServer [userEntry "user1" 1000] 1000 1000

/-- A second user, of identifier 1001, is added. -/
def twoUsersServer : Server :=
  usersServer [userEntry "user1" 1000, userEntry "user2" 1001] 1001 1000

theorem oneUserServer_truthful : oneUserServer.Truthful {} :=
  usersServer_truthful (by decide) (by decide) (by decide) (by decide)

theorem twoUsersServer_truthful : twoUsersServer.Truthful {} :=
  usersServer_truthful (by decide) (by decide) (by decide) (by decide)

/-- While nothing is added, asking for 1001 is refused, and would be
answered by nothing. -/
theorem refused_id_absent_unchanged :
    nssStnsGetById Machine.wrapping
        (NssRun.start.run Machine.wrapping {}
          [(oneUserServer, .byName .passwd (literal "user1"))]).state.bounds
        1001 .passwd
        ((oneUserServer.answer .passwd (idQuery {} .passwd 1001)).fetch {})
        (Database.passwd.blankPacking 64) =
      stnsGetSingleValueMethod Machine.wrapping .passwd (.id 1001) true
        ((oneUserServer.answer .passwd (idQuery {} .passwd 1001)).fetch {})
        (Database.passwd.blankPacking 64) := by
  have htrue : forall call, call ∈
      [(oneUserServer, NssCall.byName .passwd (literal "user1"))] ->
        call.1.Truthful {} := by
    intro call hmem
    rw [List.mem_singleton.mp hmem]
    exact oneUserServer_truthful
  refine (refused_id_absent Machine.wrapping {} _ htrue oneUserServer
    oneUserServer_truthful .passwd 1001
    (Database.passwd.blankPacking 64)).right ?_
  intro hhas
  exfalso
  rcases hhas with ⟨leaf, hleaf, hmatch⟩
  rw [List.mem_singleton.mp hleaf] at hmatch
  exact absurd hmatch (by decide)

/-- After a lookup of the first user the second one is added, and a lookup of
its identifier is refused. -/
theorem added_user_refused :
    let r := NssRun.start.run Machine.wrapping {}
      [(oneUserServer, .byName .passwd (literal "user1"))]
    let f := (twoUsersServer.answer .passwd (idQuery {} .passwd 1001)).fetch {}
    oneUserServer.Truthful {} ∧ twoUsersServer.Truthful {} ∧
      (nssStnsGetById Machine.wrapping r.state.bounds 1001 .passwd f
          (Database.passwd.blankPacking 64)).map (fun reply => reply.status) =
        some .notFound ∧
      (stnsGetSingleValueMethod Machine.wrapping .passwd (.id 1001) true f
          (Database.passwd.blankPacking 64)).map (fun reply => reply.status) =
        some .success := by
  dsimp only
  exact ⟨oneUserServer_truthful, twoUsersServer_truthful, by decide,
    by decide⟩

end Stns
