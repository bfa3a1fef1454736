import Stns.Foundation.Block

/-!
# Reading a stream in pieces

A stream is read line by line into a small buffer, so a long line arrives in
several pieces.  A program that appends the string of every piece to a block
gets the text of the stream, whatever it does about the block's room.
-/

namespace Stns

namespace Stdio

def newline : UInt8 := 10

/-- The pieces that repeated {lit}`fgets` calls with a buffer of {lit}`size`
bytes return; {lit}`piece` is what the current call has read so far. -/
def fgetsFrom (size : Nat) : Bytes -> Bytes -> List Bytes
  | piece, [] => if piece = [] then [] else [piece]
  | piece, c :: rest =>
      if c = newline ∨ (piece ++ [c]).length + 1 >= size then
        (piece ++ [c]) :: fgetsFrom size [] rest
      else
        fgetsFrom size (piece ++ [c]) rest

def fgets (size : Nat) (stream : Bytes) : List Bytes :=
  fgetsFrom size [] stream

theorem flatten_fgetsFrom (size : Nat) (piece stream : Bytes) :
    (fgetsFrom size piece stream).flatten = piece ++ stream := by
  induction stream generalizing piece with
  | nil =>
      unfold fgetsFrom
      split
      · rename_i hnil
        simp [hnil]
      · simp
  | cons c rest ih =>
      unfold fgetsFrom
      split
      · simp [ih]
      · simp [ih]

@[simp] theorem flatten_fgets (size : Nat) (stream : Bytes) :
    (fgets size stream).flatten = stream :=
  flatten_fgetsFrom size [] stream

theorem fgets_eq_nil_iff {size : Nat} {stream : Bytes} :
    fgets size stream = [] <-> stream = [] := by
  constructor
  · intro h
    rw [← flatten_fgets size stream, h]
    rfl
  · intro hnil
    rcases hnil with rfl
    rfl

theorem length_of_mem_fgetsFrom {size : Nat} {piece stream : Bytes}
    (hroom : piece.length + 1 < size) :
    forall next, next ∈ fgetsFrom size piece stream ->
      next.length + 1 <= size := by
  induction stream generalizing piece with
  | nil =>
      intro next hnext
      unfold fgetsFrom at hnext
      split at hnext
      · cases hnext
      · rw [List.mem_singleton.mp hnext]
        exact Nat.le_of_lt hroom
  | cons c rest ih =>
      have hgrown : (piece ++ [c]).length = piece.length + 1 := by simp
      intro next hnext
      unfold fgetsFrom at hnext
      split at hnext
      · rcases List.mem_cons.mp hnext with hfirst | hlater
        · rw [hfirst, hgrown]
          exact hroom
        · refine ih ?_ next hlater
          exact Nat.lt_of_le_of_lt (Nat.le_add_left 1 piece.length) hroom
      · rename_i hcontinue
        rw [not_or] at hcontinue
        exact ih (Nat.lt_of_not_le hcontinue.right) next hnext

theorem length_of_mem_fgets {size : Nat} {stream piece : Bytes}
    (hsize : 1 < size) (h : piece ∈ fgets size stream) :
    piece.length + 1 <= size :=
  length_of_mem_fgetsFrom hsize piece h

/-- What the pieces hold for a reader of strings: each up to its first NUL. -/
def text (pieces : List Bytes) : Bytes :=
  pieces.flatMap (fun piece => (CString.ofBytes piece).chars)

theorem nulFree_text (pieces : List Bytes) : 0 ∉ text pieces := by
  intro hmem
  rcases List.mem_flatMap.mp hmem with ⟨piece, _, hpiece⟩
  exact (CString.ofBytes piece).nulFree hpiece

theorem text_of_nulFree {pieces : List Bytes} (h : 0 ∉ pieces.flatten) :
    text pieces = pieces.flatten := by
  induction pieces with
  | nil => rfl
  | cons piece rest ih =>
      rw [List.flatten_cons, List.mem_append, not_or] at h
      show (CString.ofBytes piece).chars ++ text rest = _
      rw [CString.ofBytes_of_nulFree h.left, ih h.right, List.flatten_cons]

/-- The pieces of a text without a NUL show all of it. -/
theorem text_fgets (size : Nat) {stream : Bytes} (h : 0 ∉ stream) :
    text (fgets size stream) = stream := by
  rw [text_of_nulFree (by rwa [flatten_fgets]), flatten_fgets]

theorem text_sublist (pieces : List Bytes) :
    (text pieces).Sublist pieces.flatten := by
  induction pieces with
  | nil => exact List.Sublist.refl _
  | cons piece rest ih =>
      exact (List.takeWhile_sublist _).append ih

/-- Append the string of every piece to a block that holds {lit}`total` bytes;
{lit}`grow` makes room for what the block must hold next. -/
def appendPieces (grow : Nat -> Block -> Block) :
    List Bytes -> Block × Nat -> Block × Nat
  | [], st => st
  | piece :: rest, (data, total) =>
      let chars := (CString.ofBytes piece).chars
      let len := chars.length
      appendPieces grow rest
        ((grow (total + len + 1) data).storeString total chars, total + len)

/-- Growing a block of at least {lit}`least` bytes keeps its bytes and makes the
room. -/
structure Grows (grow : Nat -> Block -> Block) (least : Nat) : Prop where
  load : forall room b count, (grow room b).load count = b.load count
  inBounds : forall room b, (grow room b).inBounds = b.inBounds
  room : forall room b, least <= b.capacity -> room <= (grow room b).capacity
  least : forall room b, least <= b.capacity ->
    least <= (grow room b).capacity

variable {grow : Nat -> Block -> Block} {least : Nat}

theorem appendPieces_total (grow : Nat -> Block -> Block)
    (pieces : List Bytes) (data : Block) (total : Nat) :
    (appendPieces grow pieces (data, total)).2 =
      total + (text pieces).length := by
  induction pieces generalizing data total with
  | nil => rfl
  | cons piece rest ih =>
      unfold appendPieces
      dsimp only
      rw [ih]
      simp [text, Nat.add_assoc]

theorem appendPieces_load (hgrow : Grows grow least) (pieces : List Bytes)
    (data : Block) (total : Nat) :
    (appendPieces grow pieces (data, total)).1.load
        (total + (text pieces).length) = data.load total ++ text pieces := by
  induction pieces generalizing data total with
  | nil => simp [appendPieces, text]
  | cons piece rest ih =>
      unfold appendPieces
      dsimp only
      have hlength : total + (text (piece :: rest)).length =
          total + (CString.ofBytes piece).chars.length +
            (text rest).length := by
        simp [text, Nat.add_assoc]
      rw [hlength, ih, Block.load_storeString, hgrow.load, List.append_assoc]
      rfl

/-- After a first piece the text is terminated, inside the block. -/
theorem appendPieces_terminated (hgrow : Grows grow least)
    {pieces : List Bytes} (hpieces : pieces ≠ []) {data : Block} (total : Nat)
    (hdata : least <= data.capacity) :
    (appendPieces grow pieces (data, total)).1.bytes
        (total + (text pieces).length) = 0 ∧
      total + (text pieces).length <
        (appendPieces grow pieces (data, total)).1.capacity := by
  induction pieces generalizing data total with
  | nil => exact absurd rfl hpieces
  | cons piece rest ih =>
      unfold appendPieces
      dsimp only
      have hlength : total + (text (piece :: rest)).length =
          total + (CString.ofBytes piece).chars.length +
            (text rest).length := by
        simp [text, Nat.add_assoc]
      rw [hlength]
      cases rest with
      | nil =>
          have hroom := hgrow.room
            (total + (CString.ofBytes piece).chars.length + 1) data hdata
          exact ⟨Block.storeString_terminated _ _ _, hroom⟩
      | cons next more => exact ih (by simp) _ (hgrow.least _ _ hdata)

theorem appendPieces_least (hgrow : Grows grow least) (pieces : List Bytes)
    {data : Block} (total : Nat) (hdata : least <= data.capacity) :
    least <= (appendPieces grow pieces (data, total)).1.capacity := by
  induction pieces generalizing data total with
  | nil => exact hdata
  | cons piece rest ih =>
      unfold appendPieces
      exact ih _ (hgrow.least _ _ hdata)

theorem appendPieces_inBounds (hgrow : Grows grow least)
    (pieces : List Bytes) {data : Block} (total : Nat)
    (hdata : least <= data.capacity) (hbounds : data.inBounds = true) :
    (appendPieces grow pieces (data, total)).1.inBounds = true := by
  induction pieces generalizing data total with
  | nil => exact hbounds
  | cons piece rest ih =>
      unfold appendPieces
      dsimp only
      apply ih
      · exact hgrow.least _ _ hdata
      · apply Block.storeString_inBounds
        · rw [hgrow.inBounds]
          exact hbounds
        · exact hgrow.room _ _ hdata

theorem appendPieces_cstring (hgrow : Grows grow least)
    {pieces : List Bytes} (hpieces : pieces ≠ []) {data : Block}
    (hdata : least <= data.capacity) :
    (appendPieces grow pieces (data, 0)).1.cstring.chars = text pieces := by
  rcases appendPieces_terminated hgrow hpieces 0 hdata with ⟨hnul, hroom⟩
  have hload := appendPieces_load hgrow pieces data 0
  rw [Block.load_zero, List.nil_append] at hload
  rw [Block.cstring_of_terminated hroom (by
    rw [hload]
    exact nulFree_text pieces) hnul, hload]

end Stdio

end Stns
