import Stns.Request.CacheFile
import Stns.Request.CommandOutput

/-!
# A request

{lit}`stns_request` answers from the cache file of its path if that is fresh,
else contacts the backend, unless a lock file says that the backend was
unreachable a moment ago, and stores what the response buffer then holds.
-/

namespace Stns

open MachineInt

/-- What a request finds: the time, the file system, and the time stamp of the
lock file, which lies outside every cache directory. -/
structure World where
  now : Nat
  fs : FileSystem
  lock : Option Nat

/-- What the backend does if it is contacted: the transfers of the HTTP
branch, the output of the query wrapper, and the time that all of it takes. -/
structure Backend where
  transfers : Nat -> Attempt
  output : Option Bytes
  elapsed : Nat

/-- How the backend was contacted. -/
inductive Contact where
  | none
  | http (attempts : Nat)
  | command (started : Bool)
  deriving DecidableEq

/-- What a request returns and how it came by it. -/
structure Answer where
  result : CurlCode
  res : Response
  fromCache : Bool
  contact : Contact

/-- {lit}`STNS_HTTP_NOTFOUND` -/
def stnsHttpNotfound : Int := 404

/-!
## The lock file
-/

/-- {lit}`stns_request_available`, with the lock file it leaves. -/
def stnsRequestAvailable (c : StnsConf) (now : Nat) (lock : Option Nat) :
    Bool × Option Nat :=
  match lock with
  | none => (true, none)
  | some ctime =>
      if ageOf now ctime > sizeOfInt c.requestLocktime then (true, none)
      else (false, lock)

/-!
## The cache lookup
-/

/-- The lookup answers, or leaves a file system to go on with. -/
inductive CacheLookup where
  | notFound
  | found (data : Block)
  | miss (fs : FileSystem)

/-- {lit}`stns_request` before its label. -/
def cacheLookup (c : StnsConf) (euid now : Nat) (fs : FileSystem)
    (dpath fpath : Bytes) (data : Block) : CacheLookup :=
  if c.cache ≠ 0 ∧ c.cachedEnable = 0 ∧
      stnsCacheDirIsSafe fs euid dpath = true then
    match fs.stat fpath with
    | none => .miss fs
    | some statbuf =>
        if statbuf.uid ≠ euid then .miss fs
        else if isFresh c now statbuf = true then
          if statbuf.size = 0 then .notFound
          else
            match stnsImportFile fs fpath data with
            | none => .miss fs
            | some data => .found data
        else .miss (deleteCacheFiles c euid now fs)
  else .miss fs

/-!
## The backend
-/

/-- A way to run a command with an argument: what it prints, or NULL when it
does not start, and the response to fill. -/
abbrev CommandRunner :=
  CString -> Option Bytes -> Response -> CurlCode × Response

section Runner

variable (run : CommandRunner)

def contactBackendBy (c : StnsConf) (path : CString) (backend : Backend)
    (res : Response) : CurlCode × Response × Contact :=
  match c.queryWrapper with
  | none =>
      let run := httpBranch c backend.transfers res
      (run.result, run.res, .http run.attempts)
  | some _ =>
      let (result, res) := run path backend.output res
      (result, res, .command (commandArgument path))

/-- {lit}`stns_request` from its label on. -/
def requestBackendBy (c : StnsConf) (euid : Nat) (path : CString)
    (backend : Backend) (dpath fpath : Bytes) (res : Response) (w : World) :
    Answer × World :=
  let (available, lock) := stnsRequestAvailable c w.now w.lock
  if available = false then
    (⟨CurlCode.couldntConnect, res, false, .none⟩, { w with lock := lock })
  else
    let (result, res, contact) := contactBackendBy run c path backend res
    let now := w.now + backend.elapsed
    let lock := if result = CurlCode.couldntConnect then some now else lock
    let fs :=
      if c.cache ≠ 0 ∧ c.cachedEnable = 0 then
        stnsExportFile w.fs euid now dpath fpath res.data.cstring
      else w.fs
    (⟨result, res, false, contact⟩, ⟨now, fs, lock⟩)

variable [CurlEscape]

/-- {lit}`stns_request` for a path that is not NULL. -/
def stnsRequestBy (c : StnsConf) (euid : Nat) (path : CString) (data : Block)
    (backend : Backend) (w : World) : Answer × World :=
  let res := Response.start data
  let dpath := cacheDirPath c euid
  let fpath := cacheFilePath dpath path
  match cacheLookup c euid w.now w.fs dpath fpath data with
  | .notFound =>
      (⟨CurlCode.httpReturnedError,
        { res with statusCode := stnsHttpNotfound }, true, .none⟩, w)
  | .found data =>
      (⟨CurlCode.ok,
        { res with
          data := data
          size := data.cstring.strnlen maxBufferSize }, true, .none⟩, w)
  | .miss fs =>
      requestBackendBy run c euid path backend dpath fpath res
        { w with fs := fs }

end Runner

section Request

variable [CurlEscape]

/-- {lit}`stns_request`, with the output of a command counted in {lit}`int`. -/
def stnsRequestCounted (M : Machine) : StnsConf -> Nat -> CString -> Block ->
    Backend -> World -> Answer × World :=
  stnsRequestBy (stnsExecCmdCounted M)

/-!
The same with counters that do not overflow.
-/

def contactBackend : StnsConf -> CString -> Backend -> Response ->
    CurlCode × Response × Contact :=
  contactBackendBy stnsExecCmd

def requestBackend : StnsConf -> Nat -> CString -> Backend -> Bytes -> Bytes ->
    Response -> World -> Answer × World :=
  requestBackendBy stnsExecCmd

def stnsRequest : StnsConf -> Nat -> CString -> Block -> Backend -> World ->
    Answer × World :=
  stnsRequestBy stnsExecCmd

/-- An output that an {lit}`int` can count makes no difference between them. -/
theorem stnsRequestCounted_eq (M : Machine) {c : StnsConf} {backend : Backend}
    (hfits : c.queryWrapper ≠ none -> OutputFits backend.output)
    (euid : Nat) (path : CString) (data : Block) (w : World) :
    stnsRequestCounted M c euid path data backend w =
      stnsRequest c euid path data backend w := by
  have hcontact : forall res,
      contactBackendBy (stnsExecCmdCounted M) c path backend res =
        contactBackendBy stnsExecCmd c path backend res := by
    intro res
    unfold contactBackendBy
    cases hwrapper : c.queryWrapper with
    | none => rfl
    | some wrapper =>
        have hsome : c.queryWrapper ≠ none := by
          rw [hwrapper]
          exact Option.some_ne_none wrapper
        dsimp only
        rw [stnsExecCmdCounted_eq M (hfits hsome)]
  unfold stnsRequestCounted stnsRequest stnsRequestBy requestBackendBy
  simp only [hcontact]

end Request

end Stns
