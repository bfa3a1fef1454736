import Stns.Foundation.CString

/-!
# The client configuration

The fields of {lit}`stns_conf_t`.  An unset string is NULL.  The field defaults
are the ones {lit}`stns_load_config` puts in for an absent key.
-/

namespace Stns

structure StnsConf where
  cacheDir : CString := literal "/var/cache/stns"
  queryWrapper : Option CString := none
  chainSshWrapper : Option CString := none
  cachedEnable : Int32 := 0
  uidShift : Int32 := 0
  gidShift : Int32 := 0
  requestRetry : Int32 := 3
  requestLocktime : Int32 := 60
  cache : Int32 := 1
  cacheTtl : Int32 := 600
  negativeCacheTtl : Int32 := 10

/-!
## Sizes fixed by the program
-/

/-- {lit}`STNS_MAX_BUFFER_SIZE` -/
def maxBufferSize : Nat := 10 * 1024 * 1024

/-- {lit}`STNS_DEFAULT_BUFFER_SIZE` -/
def defaultBufferSize : Nat := 16 * 1024

/-- {lit}`MAXBUF` -/
def maxbuf : Nat := 1024

/-- {lit}`MAX_USERNAME_LENGTH` -/
def maxUsernameLength : Nat := 32

end Stns
