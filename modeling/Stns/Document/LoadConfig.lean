import Mathlib.Logic.Function.Basic
import Stns.Document.Toml

/-!
# Loading the configuration

A load fills a structure whose memory is arbitrary before.  Most keys are read
straight into their field, three of them through a variable that holds the
default.  A value that a reader refuses and does not store leaves the field as
it was.
-/

namespace Stns

/-!
## Fields
-/

/-- The fields of {lit}`stns_conf_t` of type {lit}`char *`. -/
inductive StringField where
  | apiEndpoint
  | cacheDir
  | authToken
  | user
  | password
  | queryWrapper
  | chainSshWrapper
  | httpProxy
  | tlsKey
  | tlsCert
  | tlsCa
  | cachedUnixSocket
  deriving DecidableEq

/-- The fields of type {lit}`int`. -/
inductive IntField where
  | useCached
  | cachedEnable
  | uidShift
  | gidShift
  | cacheTtl
  | negativeCacheTtl
  | cache
  | requestRetry
  | requestLocktime
  deriving DecidableEq

/-- The fields of type {lit}`long`. -/
inductive LongField where
  | sslVerify
  | requestTimeout
  | httpLocation
  deriving DecidableEq

/-- {lit}`stns_user_httpheader_t` -/
structure HttpHeader where
  key : CString
  value : CharPtr

/-- The memory of a {lit}`stns_conf_t`. -/
structure ConfImage where
  string : StringField -> CharPtr
  int : IntField -> Int32
  long : LongField -> Int64
  httpHeaders : Option (List HttpHeader)

/-!
## Keys
-/

/-- A key of the file, in a table of it or at the top, with its reader and what
an absent key gives. -/
structure Setting (alpha : Type) where
  table : Option String
  key : String
  method : CString -> Reading alpha
  empty : alpha

namespace Setting

variable {alpha : Type}

/-- The raw value in the file. -/
def raw (s : Setting alpha) (tab : TomlTable) : Option CString :=
  match s.table with
  | none => tomlRawIn tab (literal s.key)
  | some table =>
      match tomlTableIn tab (literal table) with
      | none => none
      | some inTab => tomlRawIn inTab (literal s.key)

/-- {lit}`GET_TOML_BYKEY` and {lit}`GET_TOML_BY_TABLE_KEY`, with what the field
held before. -/
def get (s : Setting alpha) (tab : TomlTable) (old : alpha) : alpha :=
  match s.raw tab with
  | none => s.empty
  | some raw => (s.method raw).store old

end Setting

def StringField.setting : StringField -> Setting CharPtr
  | apiEndpoint =>
      ⟨none, "api_endpoint", tomlRtos,
        .string (literal "http://localhost:1104/v1")⟩
  | cacheDir =>
      ⟨none, "cache_dir", tomlRtos, .string (literal "/var/cache/stns")⟩
  | authToken => ⟨none, "auth_token", tomlRtos, .null⟩
  | user => ⟨none, "user", tomlRtos, .null⟩
  | password => ⟨none, "password", tomlRtos, .null⟩
  | queryWrapper => ⟨none, "query_wrapper", tomlRtos, .null⟩
  | chainSshWrapper => ⟨none, "chain_ssh_wrapper", tomlRtos, .null⟩
  | httpProxy => ⟨none, "http_proxy", tomlRtos, .null⟩
  | tlsKey => ⟨some "tls", "key", tomlRtos, .null⟩
  | tlsCert => ⟨some "tls", "cert", tomlRtos, .null⟩
  | tlsCa => ⟨some "tls", "ca", tomlRtos, .null⟩
  | cachedUnixSocket =>
      ⟨some "cached", "unix_socket", tomlRtos,
        .string (literal "/var/run/cache-stnsd.sock")⟩

def IntField.setting : IntField -> Setting Int32
  | useCached => ⟨none, "use_cached", tomlRtob, 0⟩
  | cachedEnable => ⟨some "cached", "enable", tomlRtob, 0⟩
  | uidShift => ⟨none, "uid_shift", tomlRtoi, 0⟩
  | gidShift => ⟨none, "gid_shift", tomlRtoi, 0⟩
  | cacheTtl => ⟨none, "cache_ttl", tomlRtoi, 600⟩
  | negativeCacheTtl => ⟨none, "negative_cache_ttl", tomlRtoi, 10⟩
  | cache => ⟨none, "cache", tomlRtob, 1⟩
  | requestRetry => ⟨none, "request_retry", tomlRtoi, 3⟩
  | requestLocktime => ⟨none, "request_locktime", tomlRtoi, 60⟩

/-- The default is what the variable between the file and the field starts
with. -/
def LongField.setting : LongField -> Setting Int32
  | sslVerify => ⟨none, "ssl_verify", tomlRtob, 1⟩
  | requestTimeout => ⟨none, "request_timeout", tomlRtoi, 10⟩
  | httpLocation => ⟨none, "http_location", tomlRtob, 0⟩

/-!
## The load
-/

/-- A string without its last slash. -/
def CharPtr.trimmed : CharPtr -> CharPtr
  | null => null
  | wild => wild
  | string s =>
      let len := s.strnlen maxBufferSize
      if len > 0 ∧ s.chars[len - 1]? = some 47 then string (s.take (len - 1))
      else string s

/-- {lit}`TRIM_SLASH`; {lit}`none` is a read through an invalid pointer. -/
def trimSlash (key : StringField) (c : ConfImage) : Option ConfImage :=
  if c.string key = .wild then none
  else
    some { c with
      string := Function.update c.string key (c.string key).trimmed }

/-- The loop over {lit}`[http_headers]` from entry {lit}`size` on, for at most
{lit}`more` entries.  {lit}`fresh` is what the value of an entry holds when its
memory is allocated. -/
def loadHeaders (inTab : TomlTable) (fresh : Nat -> CharPtr) :
    Nat -> Nat -> List HttpHeader
  | 0, _ => []
  | more + 1, size =>
      match tomlKeyIn inTab size with
      | none => []
      | some key =>
          match tomlRawIn inTab key with
          | none => []
          | some raw =>
              ⟨key, (tomlRtos raw).store (fresh size)⟩ ::
                loadHeaders inTab fresh more (size + 1)

/-- The fields as the file and the defaults fill them. -/
def loadFields (tab : TomlTable) (before : ConfImage) : ConfImage where
  string f := f.setting.get tab (before.string f)
  int f := f.setting.get tab (before.int f)
  long f := (f.setting.get tab f.setting.empty).toInt64
  httpHeaders := before.httpHeaders

/-- {lit}`stns_load_config`: the result and the memory afterwards.  Without a
file that parses the table is {lit}`none`; {lit}`before` is the memory of the
structure, and {lit}`fresh` that of the header values.  {lit}`none` is
undefined behaviour. -/
def stnsLoadConfig (tab : Option TomlTable) (before : ConfImage)
    (fresh : Nat -> CharPtr) : Option (Int × ConfImage) :=
  match tab with
  | none => some (1, before)
  | some tab =>
      match (trimSlash .apiEndpoint (loadFields tab before)).bind
        (trimSlash .cacheDir) with
      | none => none
      | some c =>
          let headers := (tomlTableIn tab (literal "http_headers")).map
            (fun inTab => loadHeaders inTab fresh (maxbuf + 1) 0)
          let int :=
            if c.int .useCached ≠ 0 then
              Function.update c.int .cachedEnable 1
            else c.int
          some (0, { c with int := int, httpHeaders := headers })

/-!
## The load in closed form
-/

/-- The content of a field before a slash is cut. -/
def StringField.uncut (tab : TomlTable) (before : ConfImage)
    (f : StringField) : CharPtr :=
  f.setting.get tab (before.string f)

/-- The memory after a load that returns 0. -/
def loaded (tab : TomlTable) (before : ConfImage) (fresh : Nat -> CharPtr) :
    ConfImage where
  string f :=
    if f = .apiEndpoint ∨ f = .cacheDir then (f.uncut tab before).trimmed
    else f.uncut tab before
  int f :=
    if f = .cachedEnable ∧
        IntField.useCached.setting.get tab (before.int .useCached) ≠ 0 then 1
    else f.setting.get tab (before.int f)
  long f := (f.setting.get tab f.setting.empty).toInt64
  httpHeaders := (tomlTableIn tab (literal "http_headers")).map
    (fun inTab => loadHeaders inTab fresh (maxbuf + 1) 0)

section Load

variable {tab : TomlTable} {before : ConfImage} {fresh : Nat -> CharPtr}

theorem trimSlash_of_wild {key : StringField} {c : ConfImage}
    (h : c.string key = .wild) : trimSlash key c = none :=
  if_pos h

theorem trimSlash_of_ne {key : StringField} {c : ConfImage}
    (h : c.string key ≠ .wild) : trimSlash key c = some { c with
      string := Function.update c.string key (c.string key).trimmed } :=
  if_neg h

theorem trimSlash_both {c : ConfImage} (happ : c.string .apiEndpoint ≠ .wild)
    (hdir : c.string .cacheDir ≠ .wild) :
    (trimSlash .apiEndpoint c).bind (trimSlash .cacheDir) =
      some { c with string := fun f =>
        if f = .apiEndpoint ∨ f = .cacheDir then (c.string f).trimmed
        else c.string f } := by
  rw [trimSlash_of_ne happ, Option.bind_some]
  refine Eq.trans (trimSlash_of_ne hdir) ?_
  congr 2
  funext f
  cases f <;> rfl

theorem trimSlash_both_wild {c : ConfImage}
    (h : c.string .apiEndpoint = .wild ∨ c.string .cacheDir = .wild) :
    (trimSlash .apiEndpoint c).bind (trimSlash .cacheDir) = none := by
  by_cases happ : c.string .apiEndpoint = .wild
  · rw [trimSlash_of_wild happ]
    rfl
  · rw [trimSlash_of_ne happ, Option.bind_some]
    exact trimSlash_of_wild (h.resolve_left happ)

theorem enable_eq (int : IntField -> Int32) :
    (if int .useCached ≠ 0 then Function.update int .cachedEnable 1 else int) =
      fun f => if f = .cachedEnable ∧ int .useCached ≠ 0 then 1 else int f := by
  funext f
  by_cases hused : int .useCached ≠ 0
  · rw [if_pos hused]
    cases f <;> simp [hused]
  · rw [if_neg hused, if_neg (fun h => hused h.right)]

/-- The load returns 0 unless it cuts a slash through an invalid pointer. -/
theorem stnsLoadConfig_eq_some {c : ConfImage} :
    stnsLoadConfig (some tab) before fresh = some (0, c) <->
      (StringField.apiEndpoint.uncut tab before ≠ .wild ∧
        StringField.cacheDir.uncut tab before ≠ .wild) ∧
          loaded tab before fresh = c := by
  unfold stnsLoadConfig
  dsimp only
  by_cases hvalid : StringField.apiEndpoint.uncut tab before ≠ .wild ∧
      StringField.cacheDir.uncut tab before ≠ .wild
  · have happ : (loadFields tab before).string .apiEndpoint ≠ .wild :=
      hvalid.left
    have hdir : (loadFields tab before).string .cacheDir ≠ .wild :=
      hvalid.right
    rw [trimSlash_both happ hdir, and_iff_right hvalid, Option.some_inj,
      Prod.mk_inj, and_iff_right rfl, enable_eq]
    exact Iff.rfl
  · have hwild : (loadFields tab before).string .apiEndpoint = .wild ∨
        (loadFields tab before).string .cacheDir = .wild := by
      by_contra hnone
      exact hvalid (not_or.mp hnone)
    rw [trimSlash_both_wild hwild]
    constructor
    · intro h
      cases h
    · intro h
      exact absurd h.left hvalid

end Load

end Stns
