import Stns.KeyWrapper
import Stns.Nss.SingleValue

/-!
# The user names of the key wrapper

The wrapper looks at the length of a name only, up to one less than the lookup
functions; these also look at its characters.
-/

namespace Stns

namespace KeyWrapper

/-- The path that {lit}`main` asks for; NULL where it gives up on the name. -/
def requestPath (user : CString) : Option CString :=
  if user.strnlen maxUsernameLength >= maxUsernameLength then
    none
  else
    some (CString.snprintf maxbuf ((literal "users?name=").append user))

/-- The wrapper goes on to ask for the user of the name. -/
def Requests (user : CString) : Prop :=
  requestPath user = some ((literal "users?name=").append user)

/-- The wrapper and the lookup functions agree on a name: it is asked for
exactly if it is a valid one, and then it has no character that means something
in a URL. -/
structure SameNames (user : CString) : Prop where
  agree : Requests user <-> isValidUsername user = true
  plain : Requests user -> forall c, c ∈ user.chars ->
    Percent.isAlnum c = true ∨ c = 45 ∨ c = 95

/-!
## Both checks
-/

section Checks

variable {user : CString}

theorem keyWrapperMain_eq_none (response : Option (Option Json))
    (chained : Option CString) (h : requestPath user = none) :
    keyWrapperMain user response chained = none := by
  unfold requestPath at h
  unfold keyWrapperMain
  split at h
  · rename_i hlong
    rw [if_pos hlong]
  · cases h

theorem requests_iff : Requests user <-> user.length < maxUsernameLength := by
  unfold Requests requestPath
  have hcut : user.strnlen maxUsernameLength >= maxUsernameLength <->
      maxUsernameLength <= user.length := by
    unfold CString.strnlen
    omega
  rw [if_congr hcut rfl rfl]
  split
  · rename_i hlong
    constructor
    · intro h
      cases h
    · intro hshort
      exact absurd hlong (Nat.not_le.mpr hshort)
  · rename_i hshort
    have hlength : user.length < maxUsernameLength := Nat.lt_of_not_le hshort
    have hchars : user.chars.length < 32 := hlength
    refine ⟨fun _ => hlength, fun _ => ?_⟩
    have hfits : ((literal "users?name=").append user).chars.length <=
        maxbuf - 1 := by
      show ((literal "users?name=").chars ++ user.chars).length <= _
      have hprefix : (literal "users?name=").chars.length = 11 := by decide
      rw [List.length_append, hprefix]
      unfold maxbuf
      omega
    congr 1
    apply CString.ext
    exact List.take_of_length_le hfits

theorem isValidUsername_iff :
    isValidUsername user = true <->
      WellFormedName user ∧ user.length <= maxUsernameLength :=
  isValidName_iff (by decide)

end Checks

/-- The wrapper and the lookup functions agree on exactly the names that are
well formed and shorter than the limit, not well formed and as long as it, or
longer. -/
theorem sameNames_iff (user : CString) :
    SameNames user <->
      (user.length < maxUsernameLength ∧ WellFormedName user) ∨
        (user.length = maxUsernameLength ∧ ¬ WellFormedName user) ∨
          maxUsernameLength < user.length := by
  constructor
  · intro h
    have hagree := h.agree
    rw [requests_iff, isValidUsername_iff] at hagree
    rcases Nat.lt_trichotomy user.length maxUsernameLength with
      hshort | heq | hlong
    · exact .inl ⟨hshort, (hagree.mp hshort).left⟩
    · refine .inr (.inl ⟨heq, ?_⟩)
      intro hformed
      have hshort := hagree.mpr ⟨hformed, Nat.le_of_eq heq⟩
      exact absurd hshort (Nat.not_lt.mpr (Nat.le_of_eq heq.symm))
    · exact .inr (.inr hlong)
  · intro h
    constructor
    · rw [requests_iff, isValidUsername_iff]
      rcases h with ⟨hshort, hformed⟩ | ⟨heq, hformed⟩ | hlong
      · exact ⟨fun _ => ⟨hformed, Nat.le_of_lt hshort⟩, fun _ => hshort⟩
      · constructor
        · intro hshort
          exact absurd heq (Nat.ne_of_lt hshort)
        · intro hvalid
          exact absurd hvalid.left hformed
      · constructor
        · intro hshort
          exact absurd hshort (Nat.lt_asymm hlong)
        · intro hvalid
          exact absurd hvalid.right (Nat.not_le.mpr hlong)
    · intro hrequests
      rw [requests_iff] at hrequests
      rcases h with ⟨_, hformed⟩ | ⟨heq, _⟩ | hlong
      · exact hformed.plain
      · exact absurd heq (Nat.ne_of_lt hrequests)
      · exact absurd hrequests (Nat.lt_asymm hlong)

/-- A name of 32 letters can be resolved but not asked for, and a name with a
second parameter the other way round. -/
theorem names_differ :
    let letters : CString := literal "abcdefghijklmnopqrstuvwxyzabcdef"
    let parameter : CString := literal "a&name=b"
    isValidUsername letters = true ∧ requestPath letters = none ∧
      ¬ SameNames letters ∧
      isValidUsername parameter = false ∧
      requestPath parameter = some (literal "users?name=a&name=b") ∧
      ¬ SameNames parameter := by
  dsimp only
  refine ⟨by decide, by decide, ?_, by decide, by decide, ?_⟩
  · intro h
    have hrequests := h.agree.mpr (by decide)
    exact absurd hrequests (by unfold Requests; decide)
  · intro h
    have hvalid := h.agree.mp (by unfold Requests; decide)
    exact absurd hvalid (by decide)

end KeyWrapper

end Stns
