import Stns.Foundation.Decimal

/-!
# A printed number is read back

The digits of a number, read in base ten, give the number; a number other than
zero does not begin with the digit zero, so that no other base is taken.
-/

namespace Stns

namespace Decimal

theorem formatNat_of_lt {n : Nat} (h : n < 10) :
    formatNat n = [UInt8.ofNat (48 + n)] := by
  unfold formatNat
  rw [Nat.toDigits_of_lt_base h]
  revert n
  decide

theorem formatNat_of_le {n : Nat} (h : 10 <= n) :
    formatNat n = formatNat (n / 10) ++ [UInt8.ofNat (48 + n % 10)] := by
  have hlast := formatNat_of_lt (Nat.mod_lt n (by decide : 0 < 10))
  unfold formatNat at hlast ⊢
  rw [Nat.toDigits_of_lt_base (Nat.mod_lt n (by decide))] at hlast
  rw [Nat.toDigits_of_base_le (by decide) h, List.map_append, hlast]

theorem digitOf_digit {n : Nat} (h : n < 10) :
    digitOf (UInt8.ofNat (48 + n)) = some n := by
  revert n
  decide

theorem numberOf_concat (base : Nat) (digits : Bytes) (c : UInt8) :
    numberOf base (digits ++ [c]) =
      base * numberOf base digits + (digitOf c).getD 0 := by
  unfold numberOf
  rw [List.foldl_append]
  rfl

theorem numberOf_formatNat (n : Nat) : numberOf 10 (formatNat n) = n := by
  induction n using Nat.strongRecOn with
  | ind n ih =>
      rcases Nat.lt_or_ge n 10 with hlt | hge
      · rw [formatNat_of_lt hlt]
        show 10 * 0 + (digitOf (UInt8.ofNat (48 + n))).getD 0 = n
        rw [digitOf_digit hlt]
        exact Nat.zero_add n
      · have hmod := Nat.mod_lt n (by decide : 0 < 10)
        rw [formatNat_of_le hge, numberOf_concat, ih (n / 10) (by omega),
          digitOf_digit hmod]
        exact Nat.div_add_mod n 10

theorem formatNat_ne_nil (n : Nat) : formatNat n ≠ [] := by
  intro h
  exact Nat.toDigits_ne_nil (List.map_eq_nil_iff.mp h)

theorem formatNat_head {n : Nat} (h : 0 < n) :
    (formatNat n).head? ≠ some 48 := by
  induction n using Nat.strongRecOn with
  | ind n ih =>
      rcases Nat.lt_or_ge n 10 with hlt | hge
      · rw [formatNat_of_lt hlt, List.head?_cons]
        intro hzero
        have hdigit := digitOf_digit hlt
        rw [Option.some.inj hzero] at hdigit
        have hn : 0 = n := Option.some.inj hdigit
        omega
      · have hhead := ih (n / 10) (by omega) (by omega)
        rw [formatNat_of_le hge]
        cases hn : formatNat (n / 10) with
        | nil => exact absurd hn (formatNat_ne_nil _)
        | cons c rest =>
            rw [hn] at hhead
            exact hhead

theorem isDigitOf_ten_of_isDigit {c : UInt8} (h : isDigit c = true) :
    isDigitOf 10 c = true := by
  have hrange := h
  unfold isDigit Percent.inRange at hrange
  rw [decide_eq_true_eq, UInt8.le_iff_toNat_le, UInt8.le_iff_toNat_le] at hrange
  have hhigh : c.toNat <= 57 := hrange.right
  unfold isDigitOf digitOf
  rw [if_pos h]
  exact decide_eq_true (by omega)

theorem radix_of_head {text : Bytes} (h : text.head? ≠ some 48) :
    radix text = (10, text) := by
  unfold radix
  split
  · exact absurd rfl h
  · exact absurd rfl h
  · rfl

/-- A number that is not zero is read up to the end of its digits. -/
theorem strtoll_formatNat {n : Nat} (h : 0 < n) (hfits : n < 2 ^ 63) :
    strtoll (formatNat n) = ⟨n, [], true⟩ ∧
      strtoll (minus :: formatNat n) = ⟨-n, [], true⟩ := by
  have hdigits : forall c, c ∈ formatNat n -> isDigit c = true :=
    fun c hc => isDigit_of_mem_formatNat hc
  have htake : (formatNat n).takeWhile (isDigitOf 10) = formatNat n :=
    List.takeWhile_eq_self_iff.mpr
      (fun c hc => isDigitOf_ten_of_isDigit (hdigits c hc))
  have hdrop : (formatNat n).dropWhile (isDigitOf 10) = [] :=
    List.dropWhile_eq_nil_iff.mpr
      (fun c hc => isDigitOf_ten_of_isDigit (hdigits c hc))
  have hradix := radix_of_head (formatNat_head h)
  have hfirst : exists c rest, formatNat n = c :: rest ∧ c ≠ minus ∧
      c ≠ plus ∧ isSpace c = false := by
    cases hn : formatNat n with
    | nil => exact absurd hn (formatNat_ne_nil n)
    | cons c rest =>
        rw [hn] at hdigits
        have hc := hdigits c List.mem_cons_self
        refine ⟨c, rest, rfl, ?_, ?_, isSpace_of_isDigit hc⟩
        · rintro rfl
          exact absurd hc (by decide)
        · rintro rfl
          exact absurd hc (by decide)
  have hspaces : (formatNat n).dropWhile isSpace = formatNat n := by
    rcases hfirst with ⟨c, rest, hn, _, _, hspace⟩
    rw [hn, List.dropWhile_cons_of_neg (by rw [hspace]; exact Bool.noConfusion)]
  have hsign : (formatNat n).head? ≠ some minus ∧
      (formatNat n).head? ≠ some plus := by
    rcases hfirst with ⟨c, rest, hn, hminus, hplus, _⟩
    rw [hn]
    exact ⟨fun h => hminus (Option.some.inj h),
      fun h => hplus (Option.some.inj h)⟩
  have hclamp : clampLong n = n ∧ clampLong (-n) = -n := by
    unfold clampLong
    omega
  constructor
  · unfold strtoll
    rw [hspaces]
    simp only [hsign.left, hsign.right, or_self, if_false, hradix, htake,
      hdrop, formatNat_ne_nil, numberOf_formatNat, hclamp.left,
      decide_true]
  · have hspaces' : (minus :: formatNat n).dropWhile isSpace =
        minus :: formatNat n := List.dropWhile_cons_of_neg (by decide)
    unfold strtoll
    rw [hspaces']
    simp only [List.head?_cons, true_or, if_true, List.tail_cons, hradix,
      htake, hdrop, formatNat_ne_nil, if_false, numberOf_formatNat,
      hclamp.right, decide_true]

end Decimal

end Stns
