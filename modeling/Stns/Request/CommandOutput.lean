import Stns.Foundation.MachineInt
import Stns.Request.Command

/-!
# Capturing the output of a command

The read loop counts what it has copied in an {lit}`int`.  As long as the count
fits, the loop is the one over natural numbers, and the response is the whole
output.
-/

namespace Stns

open MachineInt

/-- {lit}`strnlen(buf, STNS_MAX_BUFFER_SIZE)`, stored in an {lit}`int`. -/
def pieceLength (piece : Bytes) : Int32 :=
  Int32.ofInt ((CString.ofBytes piece).strnlen maxBufferSize : Nat)

/-- The read loop of {lit}`stns_exec_cmd` with its counters. -/
def readPieces (M : Machine) :
    List Bytes -> Block × Int32 -> Block × Int32
  | [], st => st
  | buf :: rest, (data, totalLen) =>
      let len := pieceLength buf
      let room := M.intAdd (M.intAdd totalLen len) 1
      let data :=
        if room.toInt > defaultBufferSize then data.realloc (sizeOfInt room)
        else data
      readPieces M rest
        (data.storeString totalLen.toInt.toNat (CString.ofBytes buf).chars,
          M.intAdd totalLen len)

/-- {lit}`stns_exec_cmd` with its counters. -/
def stnsExecCmdCounted (M : Machine) (arg : CString) (output : Option Bytes)
    (r : Response) : CurlCode × Response :=
  let r := { r with size := 0, statusCode := 200 }
  if commandArgument arg = false then
    (1, r)
  else
    match output with
    | none => (1, r)
    | some stream =>
        let (data, totalLen) :=
          readPieces M (Stdio.fgets maxbuf stream) (r.data, 0)
        if totalLen = 0 then
          (1, { r with data := data })
        else
          (CurlCode.ok, { r with data := data, size := sizeOfInt totalLen })

/-!
## The counters are exact
-/

section Counters

variable (M : Machine)

theorem length_ofBytes_le (bytes : Bytes) :
    (CString.ofBytes bytes).chars.length <= bytes.length :=
  (List.takeWhile_sublist _).length_le

theorem pieceLength_exact {piece : Bytes} (h : piece.length < maxBufferSize) :
    (pieceLength piece).toInt = (CString.ofBytes piece).chars.length := by
  have hle := length_ofBytes_le piece
  have hmin : (CString.ofBytes piece).strnlen maxBufferSize =
      (CString.ofBytes piece).chars.length :=
    Nat.min_eq_left (by
      show (CString.ofBytes piece).chars.length <= maxBufferSize
      omega)
  unfold maxBufferSize at h
  unfold pieceLength
  rw [hmin, Int32.toInt_ofInt_of_le (by omega) (by omega)]

/-- The loop keeps the bytes and the count of the loop over natural
numbers. -/
theorem readPieces_exact {pieces : List Bytes}
    (hpieces : forall piece, piece ∈ pieces -> piece.length < maxBufferSize)
    {totalLen : Int32} {total : Nat} (htotal : totalLen.toInt = total)
    (hlimit : total + (Stdio.text pieces).length + 1 < 2 ^ 31)
    (data : Block) :
    (readPieces M pieces (data, totalLen)).1 =
        (Stdio.appendPieces growPastDefault pieces (data, total)).1 ∧
      (readPieces M pieces (data, totalLen)).2.toInt =
        (total + (Stdio.text pieces).length : Nat) := by
  induction pieces generalizing totalLen total data with
  | nil => exact ⟨rfl, htotal⟩
  | cons buf rest ih =>
      have hlength : (Stdio.text (buf :: rest)).length =
          (CString.ofBytes buf).chars.length + (Stdio.text rest).length := by
        simp [Stdio.text]
      rw [hlength] at hlimit
      have hlen := pieceLength_exact (hpieces buf List.mem_cons_self)
      have hsum := M.intAdd_count htotal hlen (by omega)
      have hroom := M.intAdd_count (b := 1) (n := 1) hsum rfl (by omega)
      have hrest : forall piece, piece ∈ rest ->
          piece.length < maxBufferSize :=
        fun piece hmem => hpieces piece (List.mem_cons_of_mem _ hmem)
      have hnext := ih hrest hsum (by omega)
        ((growPastDefault
          (total + (CString.ofBytes buf).chars.length + 1) data).storeString
            total (CString.ofBytes buf).chars)
      unfold readPieces Stdio.appendPieces
      dsimp only
      have hgrown : (if (M.intAdd (M.intAdd totalLen (pieceLength buf))
            1).toInt > (defaultBufferSize : Int) then
            data.realloc (sizeOfInt
              (M.intAdd (M.intAdd totalLen (pieceLength buf)) 1))
          else data) =
          growPastDefault
            (total + (CString.ofBytes buf).chars.length + 1) data := by
        unfold growPastDefault
        rw [sizeOfInt_count hroom, hroom]
        simp only [gt_iff_lt, Int.ofNat_lt]
      rw [hgrown, htotal, Int.toNat_natCast, hlength, ← Nat.add_assoc]
      exact hnext

/-- An {lit}`int` can count the text of the output and its terminator. -/
def OutputFits (output : Option Bytes) : Prop :=
  forall stream, output = some stream ->
    (Stdio.text (Stdio.fgets maxbuf stream)).length + 1 < 2 ^ 31

theorem outputFits_of_length {stream : Bytes}
    (h : stream.length + 1 < 2 ^ 31) : OutputFits (some stream) := by
  intro stream' heq
  cases heq
  have hle := (Stdio.text_sublist (Stdio.fgets maxbuf stream)).length_le
  rw [Stdio.flatten_fgets] at hle
  omega

theorem length_of_mem_fgets_maxbuf {stream piece : Bytes}
    (h : piece ∈ Stdio.fgets maxbuf stream) : piece.length < maxBufferSize := by
  have hle := Stdio.length_of_mem_fgets (by decide) h
  unfold maxbuf at hle
  unfold maxBufferSize
  omega

/-- With an output that the count can hold, the counters make no
difference. -/
theorem stnsExecCmdCounted_eq {output : Option Bytes} (h : OutputFits output)
    (arg : CString) (r : Response) :
    stnsExecCmdCounted M arg output r = stnsExecCmd arg output r := by
  cases harg : commandArgument arg with
  | false =>
      unfold stnsExecCmdCounted stnsExecCmd
      dsimp only
      rw [harg, if_pos rfl, if_pos rfl]
  | true =>
      cases output with
      | none => rfl
      | some stream =>
          have hlimit := h stream rfl
          have hzero : (0 : Int32).toInt = (0 : Nat) := rfl
          rw [← Nat.zero_add (Stdio.text _).length] at hlimit
          rcases readPieces_exact M
            (fun piece hpiece => length_of_mem_fgets_maxbuf hpiece) hzero
            hlimit r.data with ⟨hdata, htotal⟩
          rw [Nat.zero_add] at htotal
          have hempty : (readPieces M (Stdio.fgets maxbuf stream)
              (r.data, 0)).2 = 0 <->
                (Stdio.text (Stdio.fgets maxbuf stream)).length = 0 := by
            rw [← Int32.toInt_inj, htotal]
            show (_ : Int) = 0 <-> _
            omega
          rw [stnsExecCmd_stream harg]
          unfold stnsExecCmdCounted
          dsimp only
          rw [harg, if_neg Bool.noConfusion, hdata, sizeOfInt_count htotal]
          simp only [hempty]

end Counters

/-!
## An output that does not fit
-/

/-- Where sums saturate, the count and the buffer stop growing together. -/
theorem readPieces_saturates {pieces : List Bytes}
    (hpieces : forall piece, piece ∈ pieces -> piece.length < maxBufferSize)
    {totalLen : Int32} {total : Nat} (htotal : totalLen.toInt = total)
    {data : Block} (hdata : data.capacity < 2 ^ 31) :
    let counted := readPieces Machine.saturating pieces (data, totalLen)
    counted.1.capacity < 2 ^ 31 ∧
      counted.2.toInt =
        (min (total + (Stdio.text pieces).length) (2 ^ 31 - 1) : Nat) := by
  dsimp only
  induction pieces generalizing totalLen total data with
  | nil =>
      have hlt := totalLen.toInt_lt
      refine ⟨hdata, ?_⟩
      show totalLen.toInt = (min (total + 0) (2 ^ 31 - 1) : Nat)
      omega
  | cons buf rest ih =>
      have hlength : (Stdio.text (buf :: rest)).length =
          (CString.ofBytes buf).chars.length + (Stdio.text rest).length := by
        simp [Stdio.text]
      have hlen := pieceLength_exact (hpieces buf List.mem_cons_self)
      have hsum := Machine.saturating_intAdd htotal hlen
      have hroom := Machine.saturating_intAdd (b := 1) (n := 1) hsum rfl
      have hrest : forall piece, piece ∈ rest ->
          piece.length < maxBufferSize :=
        fun piece hmem => hpieces piece (List.mem_cons_of_mem _ hmem)
      have hgrown : (Block.storeString (if (Machine.saturating.intAdd
          (Machine.saturating.intAdd totalLen (pieceLength buf)) 1).toInt >
            (defaultBufferSize : Int) then
          data.realloc (sizeOfInt (Machine.saturating.intAdd
            (Machine.saturating.intAdd totalLen (pieceLength buf)) 1))
        else data) totalLen.toInt.toNat
          (CString.ofBytes buf).chars).capacity < 2 ^ 31 := by
        rw [Block.storeString_capacity]
        split
        · rw [sizeOfInt_count hroom]
          exact Nat.lt_of_le_of_lt (Nat.min_le_right _ _) (by decide)
        · exact hdata
      rcases ih hrest hsum hgrown with ⟨hcapacity, hcount⟩
      unfold readPieces
      dsimp only
      refine ⟨hcapacity, ?_⟩
      rw [hcount, hlength]
      generalize 2 ^ 31 - 1 = limit
      omega

/-- There an output that does not fit is a success that leaves no room for the
terminator. -/
theorem stnsExecCmdCounted_overflow {arg : CString}
    (harg : commandArgument arg = true) {stream : Bytes}
    (hlong : 2 ^ 31 <= (Stdio.text (Stdio.fgets maxbuf stream)).length + 1)
    {r : Response} (hdata : r.data.capacity < 2 ^ 31) :
    let out := stnsExecCmdCounted Machine.saturating arg (some stream) r
    out.1 = CurlCode.ok ∧ out.2.data.capacity <= out.2.size := by
  dsimp only
  have hzero : (0 : Int32).toInt = (0 : Nat) := rfl
  rcases readPieces_saturates
    (fun piece hpiece => length_of_mem_fgets_maxbuf hpiece) hzero hdata with
    ⟨hcapacity, htotal⟩
  have hmin : min (0 + (Stdio.text (Stdio.fgets maxbuf stream)).length)
      (2 ^ 31 - 1) = 2 ^ 31 - 1 := by omega
  rw [hmin] at htotal
  have hne : (readPieces Machine.saturating (Stdio.fgets maxbuf stream)
      (r.data, 0)).2 ≠ 0 := by
    intro heq
    rw [heq] at htotal
    exact absurd htotal (by decide)
  unfold stnsExecCmdCounted
  dsimp only
  rw [harg, if_neg Bool.noConfusion, if_neg hne]
  refine ⟨rfl, ?_⟩
  dsimp only
  rw [sizeOfInt_count htotal]
  exact Nat.le_sub_one_of_lt hcapacity

/-- The output of a command that starts is captured whole: no store leaves the
buffer, the command succeeds exactly when it writes, and then the buffer holds
the output and a terminator; without output the buffer is left alone. -/
theorem command_output_captured (M : Machine) {arg : CString}
    (harg : commandArgument arg = true) {stream : Bytes} (hnul : 0 ∉ stream)
    (hlength : stream.length < 2 ^ 31 - 1024) {r : Response}
    (hdata : r.data.capacity = defaultBufferSize)
    (hbounds : r.data.inBounds = true) :
    let out := stnsExecCmdCounted M arg (some stream) r
    out.2.data.inBounds = true ∧
      (out.1 = CurlCode.ok <-> stream ≠ []) ∧
      (stream ≠ [] ->
        out.2.size = stream.length ∧ out.2.data.load out.2.size = stream ∧
          out.2.size < out.2.data.capacity ∧
          out.2.data.bytes out.2.size = 0) ∧
      (stream = [] -> out.1 = 1 ∧ out.2.data = r.data ∧ out.2.size = 0) := by
  have hleast : defaultBufferSize <= r.data.capacity :=
    Nat.le_of_eq hdata.symm
  have htext := Stdio.text_fgets maxbuf hnul
  have hinside := Stdio.appendPieces_inBounds grows_growPastDefault
    (Stdio.fgets maxbuf stream) 0 hleast hbounds
  dsimp only
  rw [stnsExecCmdCounted_eq M (outputFits_of_length (by omega)),
    stnsExecCmd_stream harg, htext]
  by_cases hempty : stream = []
  · subst hempty
    refine ⟨hbounds, ?_, fun h => absurd rfl h, fun _ => ⟨rfl, rfl, rfl⟩⟩
    simp [CurlCode.ok]
  · have hpieces : Stdio.fgets maxbuf stream ≠ [] :=
      fun h => hempty (Stdio.fgets_eq_nil_iff.mp h)
    have hload := Stdio.appendPieces_load grows_growPastDefault
      (Stdio.fgets maxbuf stream) r.data 0
    have hend := Stdio.appendPieces_terminated grows_growPastDefault
      hpieces 0 hleast
    rw [htext, Nat.zero_add] at hload hend
    rw [Block.load_zero, List.nil_append] at hload
    rw [if_neg (fun h => hempty (List.length_eq_zero_iff.mp h))]
    refine ⟨hinside, ?_, ?_, fun h => absurd h hempty⟩
    · simp [hempty]
    · intro _
      exact ⟨rfl, hload, hend.right, hend.left⟩

/-- A line without a final newline, under the name of all users. -/
theorem command_output_captured_line :
    let out := stnsExecCmdCounted Machine.wrapping (literal "users")
      (some (ascii "[]")) ⟨⟨defaultBufferSize, fun _ => 255, true⟩, 7, 0⟩
    out.2.data.inBounds = true ∧
      (out.1 = CurlCode.ok <-> ascii "[]" ≠ []) ∧
      (ascii "[]" ≠ [] ->
        out.2.size = (ascii "[]").length ∧
          out.2.data.load out.2.size = ascii "[]" ∧
          out.2.size < out.2.data.capacity ∧
          out.2.data.bytes out.2.size = 0) ∧
      (ascii "[]" = [] -> out.1 = 1 ∧
        out.2.data = ⟨defaultBufferSize, fun _ => 255, true⟩ ∧
        out.2.size = 0) :=
  command_output_captured Machine.wrapping (by decide) (by decide)
    (by decide) rfl rfl

end Stns
