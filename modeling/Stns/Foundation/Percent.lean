import Stns.Foundation.CString

/-!
# Percent encoding

Unreserved bytes stand for themselves, every other byte for a percent sign and
two hexadecimal digits.  The encoding is injective and has no slash.
-/

namespace Stns

namespace Percent

/-- The bytes in an inclusive ASCII range. -/
def inRange (first last c : UInt8) : Bool :=
  decide (first <= c ∧ c <= last)

def isAlnum (c : UInt8) : Bool :=
  inRange 48 57 c || inRange 65 90 c || inRange 97 122 c

/-- Letters, digits, and {lit}`-`, {lit}`.`, {lit}`_`, {lit}`~`. -/
def unreserved (c : UInt8) : Bool :=
  isAlnum c || c == 45 || c == 46 || c == 95 || c == 126

def percent : UInt8 := 37

def hexDigit (n : Nat) : UInt8 :=
  UInt8.ofNat (if n < 10 then 48 + n else 55 + n)

def escapeByte (c : UInt8) : Bytes :=
  if unreserved c then [c]
  else [percent, hexDigit (c.toNat / 16), hexDigit (c.toNat % 16)]

def escape (bytes : Bytes) : Bytes :=
  bytes.flatMap escapeByte

theorem hexDigit_injective {m n : Nat} (hm : m < 16) (hn : n < 16)
    (h : hexDigit m = hexDigit n) : m = n := by
  have hall : forall m, m < 16 -> forall n, n < 16 ->
      hexDigit m = hexDigit n -> m = n := by decide
  exact hall m hm n hn h

theorem escapeByte_prefix_free {c c' : UInt8} {rest rest' : Bytes}
    (h : escapeByte c ++ rest = escapeByte c' ++ rest') :
    c = c' ∧ rest = rest' := by
  unfold escapeByte at h
  have hreserved : unreserved percent = false := by decide
  cases hc : unreserved c with
  | true =>
      cases hc' : unreserved c' with
      | true => simpa [hc, hc'] using h
      | false =>
          simp only [hc, hc', if_true, Bool.false_eq_true, if_false,
            List.cons_append, List.nil_append, List.cons.injEq] at h
          rw [h.left, hreserved] at hc
          cases hc
  | false =>
      cases hc' : unreserved c' with
      | true =>
          simp only [hc, hc', if_true, Bool.false_eq_true, if_false,
            List.cons_append, List.nil_append, List.cons.injEq] at h
          rw [← h.left, hreserved] at hc'
          cases hc'
      | false =>
          simp only [hc, hc', Bool.false_eq_true, if_false, List.cons_append,
            List.nil_append, List.cons.injEq, true_and] at h
          rcases h with ⟨hhigh, hlow, hrest⟩
          have hlt := c.toNat_lt
          have hlt' := c'.toNat_lt
          have hdiv := hexDigit_injective (by omega) (by omega) hhigh
          have hmod := hexDigit_injective (by omega) (by omega) hlow
          refine ⟨?_, hrest⟩
          apply UInt8.toNat_inj.mp
          omega

theorem escapeByte_ne_nil (c : UInt8) : escapeByte c ≠ [] := by
  unfold escapeByte
  split <;> simp

theorem escape_injective {s t : Bytes} (h : escape s = escape t) : s = t := by
  induction s generalizing t with
  | nil =>
      cases t with
      | nil => rfl
      | cons c rest =>
          have hnil : escapeByte c ++ escape rest = [] := by
            simpa [escape] using h.symm
          exact absurd (List.append_eq_nil_iff.mp hnil).left
            (escapeByte_ne_nil c)
  | cons c rest ih =>
      cases t with
      | nil =>
          have hnil : escapeByte c ++ escape rest = [] := by
            simpa [escape] using h
          exact absurd (List.append_eq_nil_iff.mp hnil).left
            (escapeByte_ne_nil c)
      | cons c' rest' =>
          have hsplit : escapeByte c ++ escape rest =
              escapeByte c' ++ escape rest' := by
            simpa [escape] using h
          rcases escapeByte_prefix_free hsplit with ⟨hhead, htail⟩
          rw [hhead, ih htail]

theorem length_le_escape (bytes : Bytes) :
    bytes.length <= (escape bytes).length := by
  induction bytes with
  | nil => exact Nat.le_refl 0
  | cons c rest ih =>
      have hpos := List.length_pos_iff.mpr (escapeByte_ne_nil c)
      have hlength : (escape (c :: rest)).length =
          (escapeByte c).length + (escape rest).length := by
        simp [escape]
      rw [hlength, List.length_cons]
      omega

/-- Any byte that is neither unreserved, nor a percent sign, nor a hexadecimal
digit is gone. -/
theorem slash_not_mem_escape (bytes : Bytes) : 47 ∉ escape bytes := by
  have hdigit : forall n, n < 16 -> hexDigit n ≠ 47 := by decide
  intro hmem
  rcases List.mem_flatMap.mp hmem with ⟨c, _, hc⟩
  have hlt := c.toNat_lt
  unfold escapeByte at hc
  cases hunreserved : unreserved c with
  | true =>
      rw [if_pos hunreserved, List.mem_singleton] at hc
      rw [← hc] at hunreserved
      exact absurd hunreserved (by decide)
  | false =>
      rw [if_neg (by simp [hunreserved])] at hc
      simp only [List.mem_cons, List.not_mem_nil, or_false] at hc
      rcases hc with hpercent | hhigh | hlow
      · exact absurd hpercent (by decide)
      · exact hdigit _ (by omega) hhigh.symm
      · exact hdigit _ (by omega) hlow.symm

end Percent

end Stns
