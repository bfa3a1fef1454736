import Stns.Foundation.Percent
import Stns.Foundation.Stdio
import Stns.Request.Http

/-!
# Running a command

The query wrapper and the chained wrapper are run with one argument, which must
pass a filter; their output becomes the response.
-/

namespace Stns

/-- The bytes of the bracket expression in {lit}`stns_exec_cmd`, in the C
locale. -/
def commandChar (c : UInt8) : Bool :=
  Percent.isAlnum c || c == 95 || c == 46 || c == 61 || c == 63

/-- {lit}`match` with the pattern of {lit}`stns_exec_cmd`: a whole string of at
least one of its bytes. -/
def commandArgument (arg : CString) : Bool :=
  decide (arg.chars ≠ []) && arg.chars.all commandChar

/-- The room {lit}`stns_exec_cmd` makes before it copies a piece. -/
def growPastDefault (room : Nat) (b : Block) : Block :=
  if room > defaultBufferSize then b.realloc room else b

/-- {lit}`stns_exec_cmd`; the output is NULL when the command cannot be
started.  It returns 0 and 1 for success and failure.  Its byte counts are
natural numbers; {lit}`stnsExecCmdCounted` has the {lit}`int` counters. -/
def stnsExecCmd (arg : CString) (output : Option Bytes) (r : Response) :
    CurlCode × Response :=
  let r := { r with size := 0, statusCode := 200 }
  if commandArgument arg = false then
    (1, r)
  else
    match output with
    | none => (1, r)
    | some stream =>
        let (data, total) :=
          Stdio.appendPieces growPastDefault (Stdio.fgets maxbuf stream)
            (r.data, 0)
        if total = 0 then
          (1, { r with data := data })
        else
          (CurlCode.ok, { r with data := data, size := total })

theorem grows_growPastDefault :
    Stdio.Grows growPastDefault defaultBufferSize where
  load room b count := by
    unfold growPastDefault
    split <;> rfl
  inBounds room b := by
    unfold growPastDefault
    split <;> rfl
  room room b h := by
    unfold growPastDefault
    split
    · exact Nat.le_refl room
    · omega
  least room b h := by
    unfold growPastDefault
    split
    · rename_i hlarge
      exact Nat.le_of_lt hlarge
    · exact h

/-- What a command with an argument that passes the filter leaves. -/
theorem stnsExecCmd_stream {arg : CString} (harg : commandArgument arg = true)
    (stream : Bytes) (r : Response) :
    stnsExecCmd arg (some stream) r =
      if (Stdio.text (Stdio.fgets maxbuf stream)).length = 0 then
        (1, ⟨(Stdio.appendPieces growPastDefault (Stdio.fgets maxbuf stream)
          (r.data, 0)).1, 0, 200⟩)
      else
        (CurlCode.ok,
          ⟨(Stdio.appendPieces growPastDefault (Stdio.fgets maxbuf stream)
            (r.data, 0)).1,
            (Stdio.text (Stdio.fgets maxbuf stream)).length, 200⟩) := by
  have htotal := Stdio.appendPieces_total growPastDefault
    (Stdio.fgets maxbuf stream) r.data 0
  rw [Nat.zero_add] at htotal
  unfold stnsExecCmd
  dsimp only
  rw [harg, if_neg Bool.noConfusion, htotal]

theorem stnsExecCmd_result (arg : CString) (output : Option Bytes)
    (r : Response) :
    (stnsExecCmd arg output r).1 = 1 ∨
      (stnsExecCmd arg output r).1 = CurlCode.ok := by
  unfold stnsExecCmd
  dsimp only
  split
  · exact .inl rfl
  · split
    · exact .inl rfl
    · split
      · exact .inl rfl
      · exact .inr rfl

/-- A successful command leaves its output, as far as it is text. -/
theorem stnsExecCmd_ok {arg : CString} {output : Option Bytes} {r r' : Response}
    (h : stnsExecCmd arg output r = (CurlCode.ok, r')) :
    exists stream, output = some stream ∧ r'.statusCode = 200 ∧
      r'.size = (Stdio.text (Stdio.fgets maxbuf stream)).length ∧
      0 < r'.size ∧
      r'.data = (Stdio.appendPieces growPastDefault
        (Stdio.fgets maxbuf stream) (r.data, 0)).1 := by
  unfold stnsExecCmd at h
  dsimp only at h
  split at h
  · cases h
  · cases output with
    | none => cases h
    | some stream =>
        have htotal := Stdio.appendPieces_total growPastDefault
          (Stdio.fgets maxbuf stream) r.data 0
        dsimp only at h
        split at h
        · cases h
        · rename_i hpositive
          cases h
          refine ⟨stream, rfl, rfl, ?_, Nat.pos_of_ne_zero hpositive, rfl⟩
          rw [htotal, Nat.zero_add]

end Stns
