import Mathlib.Algebra.Order.Ring.Nat
import Stns.Foundation.CString

/-!
# Texts in UTF-8

A text is in UTF-8 if it is a run of encoded characters.  A byte below 0x80 is a
character wherever it stands, so that a text can be cut there.
-/

namespace Stns

namespace Utf8

def encode (cs : List Char) : Bytes :=
  cs.flatMap String.utf8EncodeChar

def Valid (s : Bytes) : Prop :=
  exists cs, s = encode cs

theorem encode_cons (ch : Char) (cs : List Char) :
    encode (ch :: cs) = String.utf8EncodeChar ch ++ encode cs := rfl

namespace Valid

variable {s t : Bytes}

theorem nil : Valid [] :=
  ⟨[], rfl⟩

theorem char (ch : Char) : Valid (String.utf8EncodeChar ch) :=
  ⟨[ch], (List.append_nil _).symm⟩

theorem append (hs : Valid s) (ht : Valid t) : Valid (s ++ t) := by
  rcases hs with ⟨cs, rfl⟩
  rcases ht with ⟨cs', rfl⟩
  exact ⟨cs ++ cs', List.flatMap_append.symm⟩

end Valid

/-!
## Bytes below 0x80
-/

section Ascii

variable {s t : Bytes} {c : UInt8} {ch : Char}

theorem le_or {x y : UInt8} (h : 0x80 <= y) : ¬ x ||| y < 0x80 := by
  rw [UInt8.lt_iff_toNat_lt, UInt8.toNat_or]
  have hle := UInt8.le_iff_toNat_le.mp h
  have hor : y.toNat <= x.toNat ||| y.toNat := Nat.right_le_or
  exact Nat.not_lt.mpr (Nat.le_trans hle hor)

/-- The encoding of a character holds a byte below 0x80 only if it is that
byte. -/
theorem encodeChar_ascii (hc : c ∈ String.utf8EncodeChar ch) (h : c < 0x80) :
    String.utf8EncodeChar ch = [c] := by
  rw [String.utf8EncodeChar_eq_utf8EncodeCharFast] at hc ⊢
  unfold String.utf8EncodeCharFast at hc ⊢
  have hno : forall x y : UInt8, 0x80 <= y -> c ≠ x ||| y := by
    intro x y hy heq
    rw [heq] at h
    exact le_or hy h
  dsimp only at hc ⊢
  split at hc
  · rename_i hone
    rw [if_pos hone, List.mem_singleton.mp hc]
  · split at hc
    · simp only [List.mem_cons, List.not_mem_nil, or_false] at hc
      rcases hc with heq | heq
      · exact absurd heq (hno _ _ (by decide))
      · exact absurd heq (hno _ _ (by decide))
    · split at hc
      · simp only [List.mem_cons, List.not_mem_nil, or_false] at hc
        rcases hc with heq | heq | heq
        · exact absurd heq (hno _ _ (by decide))
        · exact absurd heq (hno _ _ (by decide))
        · exact absurd heq (hno _ _ (by decide))
      · simp only [List.mem_cons, List.not_mem_nil, or_false] at hc
        rcases hc with heq | heq | heq | heq
        · exact absurd heq (hno _ _ (by decide))
        · exact absurd heq (hno _ _ (by decide))
        · exact absurd heq (hno _ _ (by decide))
        · exact absurd heq (hno _ _ (by decide))

theorem encodeChar_of_ascii (h : c < 0x80) :
    exists ch, String.utf8EncodeChar ch = [c] := by
  have hlt := UInt8.lt_iff_toNat_lt.mp h
  simp only [UInt8.reduceToNat] at hlt
  have hval : c.toUInt32.toNat = c.toNat := UInt8.toNat_toUInt32 c
  have hvalid : c.toUInt32.toNat.isValidChar := by
    rw [hval]
    exact .inl (by omega)
  refine ⟨⟨c.toUInt32, hvalid⟩, ?_⟩
  rw [String.utf8EncodeChar_eq_singleton]
  · exact congrArg (fun b => [b]) (UInt8.toUInt8_toUInt32 c)
  · rw [Char.utf8Size_eq_one_iff, UInt32.le_iff_toNat_le]
    show c.toUInt32.toNat <= 127
    omega

theorem valid_singleton (h : c < 0x80) : Valid [c] := by
  rcases encodeChar_of_ascii h with ⟨ch, hch⟩
  exact hch ▸ Valid.char ch

theorem valid_ascii (h : forall c, c ∈ s -> c < 0x80) : Valid s := by
  induction s with
  | nil => exact .nil
  | cons c s ih =>
      exact (valid_singleton (h c List.mem_cons_self)).append
        (ih (fun c' hc' => h c' (List.mem_cons_of_mem c hc')))

/-- A text in UTF-8 can be cut at a byte below 0x80. -/
theorem Valid.split (hc : c < 0x80) (h : Valid (s ++ c :: t)) :
    Valid s ∧ Valid t := by
  rcases h with ⟨cs, hcs⟩
  induction cs generalizing s with
  | nil => cases s <;> cases hcs
  | cons ch cs ih =>
      rw [encode_cons] at hcs
      rcases List.append_eq_append_iff.mp hcs with
        ⟨a, hfirst, hrest⟩ | ⟨a, hs, hrest⟩
      · cases a with
        | nil =>
            rw [List.append_nil] at hfirst
            rcases ih (s := []) hrest with ⟨_, ht⟩
            rw [← hfirst]
            exact ⟨.char ch, ht⟩
        | cons c' a =>
            cases hrest
            have hmem : c ∈ String.utf8EncodeChar ch := by
              rw [hfirst]
              simp
            have hone := encodeChar_ascii hmem hc
            rw [hone] at hfirst
            cases s with
            | nil =>
                cases hfirst
                exact ⟨.nil, cs, rfl⟩
            | cons c' s =>
                injection hfirst with _ hnil
                cases s <;> cases hnil
      · rcases ih hrest.symm with ⟨ha, ht⟩
        rw [hs]
        exact ⟨(Valid.char ch).append ha, ht⟩

theorem Valid.tail (hc : c < 0x80) (h : Valid (c :: t)) : Valid t :=
  (Valid.split (s := []) hc h).right

theorem Valid.drop_ascii (hs : forall c, c ∈ s -> c < 0x80)
    (h : Valid (s ++ t)) : Valid t := by
  induction s with
  | nil => exact h
  | cons c s ih =>
      exact ih (fun c' hc' => hs c' (List.mem_cons_of_mem c hc'))
        (h.tail (hs c List.mem_cons_self))

end Ascii

end Utf8

end Stns
