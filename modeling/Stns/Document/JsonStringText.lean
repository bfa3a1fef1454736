import Stns.Document.JsonString

/-!
# What the string scanner accepts

The scanner looks for the closing quote without decoding, and the decoder may
look behind it.  Both go through the text character by character, so they agree
on where the string ends, and the decoder never uses what is behind it.
-/

namespace Stns

namespace Parson

open Decimal

/-!
## Characters in UTF-8
-/

section Utf8

theorem continuation_eq (cp shift : UInt32) :
    continuation cp shift = (cp >>> shift).toUInt8 &&& 0x3F ||| 0x80 := by
  unfold continuation
  rw [UInt32.toUInt8_or, UInt32.toUInt8_and]
  rfl

variable {ch : Char}

theorem utf8EncodeChar_one (h : ch.val < 0x80) :
    String.utf8EncodeChar ch = [ch.val.toUInt8] := by
  rw [String.utf8EncodeChar_eq_utf8EncodeCharFast]
  unfold String.utf8EncodeCharFast
  rw [if_pos (by grind)]

theorem utf8EncodeChar_two (hlow : ¬ ch.val < 0x80) (h : ch.val < 0x800) :
    String.utf8EncodeChar ch =
      [((ch.val >>> 6) &&& 0x1F ||| 0xC0).toUInt8, continuation ch.val 0] := by
  rw [String.utf8EncodeChar_eq_utf8EncodeCharFast, continuation_eq,
    UInt32.toUInt8_or, UInt32.toUInt8_and]
  unfold String.utf8EncodeCharFast
  rw [if_neg (by grind), if_pos (by grind)]
  simp

theorem utf8EncodeChar_three (hlow : ¬ ch.val < 0x800)
    (h : ch.val <= 0xFFFF) :
    String.utf8EncodeChar ch =
      [((ch.val >>> 12) &&& 0x0F ||| 0xE0).toUInt8, continuation ch.val 6,
        continuation ch.val 0] := by
  rw [String.utf8EncodeChar_eq_utf8EncodeCharFast, continuation_eq,
    continuation_eq, UInt32.toUInt8_or, UInt32.toUInt8_and]
  unfold String.utf8EncodeCharFast
  rw [if_neg (by grind), if_neg (by grind), if_pos h]
  simp

theorem utf8EncodeChar_four (hlow : ¬ ch.val <= 0xFFFF) :
    String.utf8EncodeChar ch =
      [((ch.val >>> 18) &&& 0x07 ||| 0xF0).toUInt8, continuation ch.val 12,
        continuation ch.val 6, continuation ch.val 0] := by
  rw [String.utf8EncodeChar_eq_utf8EncodeCharFast, continuation_eq,
    continuation_eq, continuation_eq, UInt32.toUInt8_or, UInt32.toUInt8_and]
  unfold String.utf8EncodeCharFast
  rw [if_neg (by grind), if_neg (by grind), if_neg hlow]
  simp

end Utf8

/-!
## One character
-/

section Character

variable {s rest written : Bytes} {cp : UInt32}

theorem hexCharToInt_lt {c : UInt8} {x : UInt32}
    (h : hexCharToInt c = some x) : x.toNat < 16 := by
  unfold hexCharToInt isDigit Percent.inRange at h
  simp only [decide_eq_true_eq, UInt8.le_iff_toNat_le, UInt8.reduceToNat] at h
  split at h
  · cases h
    rw [UInt8.toNat_toUInt32, UInt8.toNat_sub_of_le]
    · simp; omega
    · exact UInt8.le_iff_toNat_le.mpr (by simp; omega)
  · split at h
    · cases h
      rw [UInt8.toNat_toUInt32, UInt8.toNat_add, UInt8.toNat_sub_of_le]
      · simp; omega
      · exact UInt8.le_iff_toNat_le.mpr (by simp; omega)
    · split at h
      · cases h
        rw [UInt8.toNat_toUInt32, UInt8.toNat_add, UInt8.toNat_sub_of_le]
        · simp; omega
        · exact UInt8.le_iff_toNat_le.mpr (by simp; omega)
      · cases h

theorem parseUtf16Hex_le (h : parseUtf16Hex s = some cp) : cp <= 0xFFFF := by
  unfold parseUtf16Hex at h
  split at h
  · split at h
    · rename_i x1 x2 x3 x4 h1 h2 h3 h4
      cases h
      have hx1 := hexCharToInt_lt h1
      have hx2 := hexCharToInt_lt h2
      have hx3 := hexCharToInt_lt h3
      have hx4 := hexCharToInt_lt h4
      have hlt : (x1 <<< 12 ||| x2 <<< 8 ||| x3 <<< 4 ||| x4).toNat <
          2 ^ 16 := by
        simp only [UInt32.toNat_or, UInt32.toNat_shiftLeft]
        refine Nat.or_lt_two_pow (Nat.or_lt_two_pow (Nat.or_lt_two_pow ?_ ?_)
          ?_) ?_
        · simp [Nat.shiftLeft_eq]
          omega
        · simp [Nat.shiftLeft_eq]
          omega
        · simp [Nat.shiftLeft_eq]
          omega
        · omega
      exact UInt32.le_iff_toNat_le.mpr (Nat.le_of_lt_succ hlt)
    · cases h
  · cases h

/-- Four digits are read, whatever is behind them. -/
theorem parseUtf16Hex_eq_some (h : parseUtf16Hex s = some cp) :
    exists a b c d, s = a :: b :: c :: d :: s.drop 4 ∧
      parseUtf16Hex [a, b, c, d] = some cp := by
  unfold parseUtf16Hex at h
  split at h
  · exact ⟨_, _, _, _, rfl, h⟩
  · cases h

theorem parseUtf16Hex_append (a b c d : UInt8) (rest : Bytes) :
    parseUtf16Hex (a :: b :: c :: d :: rest) = parseUtf16Hex [a, b, c, d] :=
  rfl

theorem drop_digits (a b c d : UInt8) (rest : Bytes) :
    (a :: b :: c :: d :: rest).drop 4 = rest := rfl

/-- A lead and a trail stand for a character behind the first 65536. -/
theorem surrogateCode_toNat {lead trail : UInt32}
    (hlead : 0xD800 <= lead.toNat ∧ lead.toNat <= 0xDBFF)
    (htrail : 0xDC00 <= trail.toNat ∧ trail.toNat <= 0xDFFF) :
    (surrogateCode lead trail).toNat =
      0x10000 + (lead.toNat - 0xD800) * 0x400 + (trail.toNat - 0xDC00) := by
  have hmask : forall x : UInt32, (x &&& 0x3FF).toNat = x.toNat % 2 ^ 10 := by
    intro x
    rw [UInt32.toNat_and]
    exact Nat.and_two_pow_sub_one_eq_mod _ 10
  have hleadSub : (lead - 0xD800).toNat = lead.toNat - 0xD800 :=
    UInt32.toNat_sub_of_le _ _ (UInt32.le_iff_toNat_le.mpr hlead.left)
  have htrailSub : (trail - 0xDC00).toNat = trail.toNat - 0xDC00 :=
    UInt32.toNat_sub_of_le _ _ (UInt32.le_iff_toNat_le.mpr htrail.left)
  have hlow : (trail.toNat - 0xDC00) % 2 ^ 10 < 2 ^ 10 :=
    Nat.mod_lt _ (by decide)
  have hshift : ((lead.toNat - 0xD800) % 2 ^ 10) <<<
      ((10 : UInt32).toNat % 32) % 2 ^ 32 = (lead.toNat - 0xD800) <<< 10 := by
    simp [Nat.shiftLeft_eq]
    omega
  unfold surrogateCode
  rw [UInt32.toNat_add, UInt32.toNat_or, UInt32.toNat_shiftLeft, hmask, hmask,
    hleadSub, htrailSub, hshift, ← Nat.shiftLeft_add_eq_or_of_lt hlow,
    Nat.shiftLeft_eq]
  simp
  omega

theorem parseUtf16_unicode {a b c d : UInt8} {ch : Char}
    (h : parseUtf16Hex [a, b, c, d] = some ch.val) (rest : Bytes) :
    parseUtf16 (a :: b :: c :: d :: rest) =
      some (String.utf8EncodeChar ch, rest) := by
  have hle := parseUtf16Hex_le h
  unfold parseUtf16
  rw [parseUtf16Hex_append, h]
  dsimp only
  rw [drop_digits]
  by_cases hone : ch.val < 0x80
  · rw [if_pos hone, utf8EncodeChar_one hone]
  · rw [if_neg hone]
    by_cases htwo : ch.val < 0x800
    · rw [if_pos htwo, utf8EncodeChar_two hone htwo]
    · have hscalar : ch.val < 0xD800 ∨ ch.val > 0xDFFF := by
        rcases ch.valid with hlow | hhigh
        · exact .inl (UInt32.lt_iff_toNat_lt.mpr hlow)
        · exact .inr (UInt32.lt_iff_toNat_lt.mpr hhigh.left)
      rw [if_neg htwo, if_pos hscalar, utf8EncodeChar_three htwo hle]

theorem surrogate_val {lead trail : UInt32} {ch : Char}
    (hleadRange : 0xD800 <= lead.toNat ∧ lead.toNat <= 0xDBFF)
    (htrailRange : 0xDC00 <= trail.toNat ∧ trail.toNat <= 0xDFFF)
    (hch : ch.toNat = 0x10000 + (lead.toNat - 0xD800) * 0x400 +
      (trail.toNat - 0xDC00)) :
    ch.val = surrogateCode lead trail ∧ ¬ ch.val <= 0xFFFF := by
  constructor
  · apply UInt32.toNat_inj.mp
    rw [surrogateCode_toNat hleadRange htrailRange]
    exact hch
  · intro hle
    have hnat : ch.toNat <= 0xFFFF := UInt32.le_iff_toNat_le.mp hle
    omega

theorem parseTrail_surrogates {a b c d : UInt8} {lead trail : UInt32}
    {ch : Char} (htrail : parseUtf16Hex [a, b, c, d] = some trail)
    (hleadRange : 0xD800 <= lead.toNat ∧ lead.toNat <= 0xDBFF)
    (htrailRange : 0xDC00 <= trail.toNat ∧ trail.toNat <= 0xDFFF)
    (hch : ch.toNat = 0x10000 + (lead.toNat - 0xD800) * 0x400 +
      (trail.toNat - 0xDC00)) (rest : Bytes) :
    parseTrail lead (backslash :: 117 :: a :: b :: c :: d :: rest) =
      some (String.utf8EncodeChar ch, rest) := by
  rcases surrogate_val hleadRange htrailRange hch with ⟨hcode, hfour⟩
  have hrange : ¬ (trail < 0xDC00 ∨ trail > 0xDFFF) := by
    simp only [gt_iff_lt, UInt32.lt_iff_toNat_lt, UInt32.reduceToNat]
    omega
  unfold parseTrail
  dsimp only
  rw [if_neg (by simp), parseUtf16Hex_append, htrail]
  dsimp only
  rw [if_neg hrange, drop_digits, utf8EncodeChar_four hfour, hcode]

theorem parseUtf16_surrogate {a b c d : UInt8} {lead : UInt32}
    (hlead : parseUtf16Hex [a, b, c, d] = some lead)
    (hleadRange : 0xD800 <= lead.toNat ∧ lead.toNat <= 0xDBFF)
    (rest : Bytes) :
    parseUtf16 (a :: b :: c :: d :: rest) = parseTrail lead rest := by
  unfold parseUtf16
  rw [parseUtf16Hex_append, hlead]
  dsimp only
  simp only [drop_digits, gt_iff_lt, ge_iff_le, UInt32.lt_iff_toNat_lt,
    UInt32.le_iff_toNat_le, UInt32.reduceToNat]
  rw [if_neg (by omega), if_neg (by omega), if_neg (by omega),
    if_pos hleadRange]

theorem parseTrail_cases {lead : UInt32}
    (hleadRange : 0xD800 <= lead.toNat ∧ lead.toNat <= 0xDBFF)
    (h : parseTrail lead s = some (written, rest)) :
    exists a b c d trail ch, s = backslash :: 117 :: a :: b :: c :: d :: rest ∧
      parseUtf16Hex [a, b, c, d] = some trail ∧
      (0xDC00 <= trail.toNat ∧ trail.toNat <= 0xDFFF) ∧
      Char.toNat ch = 0x10000 + (lead.toNat - 0xD800) * 0x400 +
        (trail.toNat - 0xDC00) ∧
      written = String.utf8EncodeChar ch := by
  unfold parseTrail at h
  split at h
  · rename_i c u second
    split at h
    · cases h
    · rename_i hescape
      rw [not_or, not_not, not_not] at hescape
      rcases hescape with ⟨rfl, rfl⟩
      cases hhex : parseUtf16Hex second with
      | none =>
          rw [hhex] at h
          cases h
      | some trail =>
          rw [hhex] at h
          dsimp only at h
          split at h
          · cases h
          · rename_i hrange
            simp only [gt_iff_lt, UInt32.lt_iff_toNat_lt,
              UInt32.reduceToNat] at hrange
            have htrailRange : 0xDC00 <= trail.toNat ∧
                trail.toNat <= 0xDFFF := by omega
            have hcode := surrogateCode_toNat hleadRange htrailRange
            have hvalid : (surrogateCode lead trail).toNat.isValidChar :=
              .inr (by omega)
            rcases parseUtf16Hex_eq_some hhex with ⟨a, b, c, d, hs, hcp⟩
            injection h with h
            injection h with hwritten hrest
            refine ⟨a, b, c, d, trail, ⟨surrogateCode lead trail, hvalid⟩, ?_,
              hcp, htrailRange, hcode, ?_⟩
            · rw [← hrest, ← hs]
            · rcases @surrogate_val lead trail ⟨_, hvalid⟩ hleadRange
                htrailRange hcode with ⟨_, hfour⟩
              rw [utf8EncodeChar_four hfour, hwritten]
  · cases h

theorem parseUtf16_trail {a b c d : UInt8} {cp : UInt32}
    (hcp : parseUtf16Hex [a, b, c, d] = some cp)
    (hrange : 0xDC00 <= cp.toNat ∧ cp.toNat <= 0xDFFF) (rest : Bytes) :
    parseUtf16 (a :: b :: c :: d :: rest) = none := by
  unfold parseUtf16
  rw [parseUtf16Hex_append, hcp]
  dsimp only
  simp only [gt_iff_lt, ge_iff_le, UInt32.lt_iff_toNat_lt,
    UInt32.le_iff_toNat_le, UInt32.reduceToNat]
  rw [if_neg (by omega), if_neg (by omega), if_neg (by omega),
    if_neg (by omega)]

/-- What an escape writes is the character that its text stands for. -/
theorem parseUtf16_cases (h : parseUtf16 s = some (written, rest)) :
    exists unit, CharText (backslash :: 117 :: unit) written ∧
      s = unit ++ rest := by
  cases hhex : parseUtf16Hex s with
  | none =>
      unfold parseUtf16 at h
      rw [hhex] at h
      cases h
  | some cp =>
      rcases parseUtf16Hex_eq_some hhex with ⟨a, b, c, d, hs, hcp⟩
      have hle := UInt32.le_iff_toNat_le.mp (parseUtf16Hex_le hhex)
      simp only [UInt32.reduceToNat] at hle
      rw [hs] at h ⊢
      by_cases htrailing : 0xDC00 <= cp.toNat ∧ cp.toNat <= 0xDFFF
      · rw [parseUtf16_trail hcp htrailing] at h
        cases h
      · by_cases hleading : 0xD800 <= cp.toNat ∧ cp.toNat <= 0xDBFF
        · rw [parseUtf16_surrogate hcp hleading] at h
          rcases parseTrail_cases hleading h with
            ⟨a', b', c', d', trail, ch, hsecond, htrail, hrange, hch, rfl⟩
          refine ⟨[a, b, c, d, backslash, 117, a', b', c', d'],
            .surrogates hcp htrail hleading hrange hch, ?_⟩
          rw [hsecond]
          rfl
        · have hvalid : cp.toNat.isValidChar := by
            unfold Nat.isValidChar
            omega
          have hcode : parseUtf16Hex [a, b, c, d] =
              some (Char.val ⟨cp, hvalid⟩) := hcp
          rw [parseUtf16_unicode hcode] at h
          cases h
          exact ⟨[a, b, c, d], .unicode hcode, rfl⟩

end Character

section Units

variable {unit written inner chars rest : Bytes}

theorem CharText.length_pos (h : CharText unit written) : 0 < unit.length := by
  cases h <;> simp

theorem unescaped_ne_unicode {c ch : UInt8} (h : unescaped c = some ch) :
    c ≠ 117 := by
  intro hc
  rw [hc] at h
  cases h

theorem processChar_of_unit (h : CharText unit written) (rest : Bytes) :
    processChar (unit ++ rest) = some (written, rest) := by
  cases h with
  | plain hcontrol hquote hbackslash =>
      show processChar (_ :: rest) = _
      unfold processChar
      dsimp only
      rw [if_neg hbackslash, if_neg (UInt8.not_lt.mpr hcontrol)]
  | escape h =>
      show processChar (backslash :: _ :: rest) = _
      unfold processChar
      dsimp only
      rw [if_pos rfl, if_neg (unescaped_ne_unicode h), h]
      rfl
  | unicode h => exact parseUtf16_unicode h rest
  | surrogates hlead htrail hleadRange htrailRange hch =>
      exact (parseUtf16_surrogate hlead hleadRange _).trans
        (parseTrail_surrogates htrail hleadRange htrailRange hch rest)

theorem unit_of_processChar {c : UInt8} {s : Bytes} (hc : c ≠ quote)
    (h : processChar (c :: s) = some (written, rest)) :
    exists unit, CharText unit written ∧ c :: s = unit ++ rest := by
  unfold processChar at h
  dsimp only at h
  split at h
  · rename_i hbackslash
    subst hbackslash
    split at h
    · cases h
    · rename_i e s
      split at h
      · rename_i hunicode
        subst hunicode
        rcases parseUtf16_cases h with ⟨unit, hunit, rfl⟩
        exact ⟨_, hunit, rfl⟩
      · cases hescape : unescaped e with
        | none =>
            rw [hescape] at h
            cases h
        | some ch =>
            rw [hescape] at h
            cases h
            exact ⟨_, .escape hescape, rfl⟩
  · rename_i hbackslash
    split at h
    · cases h
    · rename_i hcontrol
      cases h
      exact ⟨_, .plain (UInt8.not_lt.mp hcontrol) hc hbackslash, rfl⟩

/-!
## Both scans of a string
-/

theorem skipQuotes_plain {c : UInt8} (hquote : c ≠ quote)
    (hbackslash : c ≠ backslash) (s : Bytes) :
    skipQuotes (c :: s) = skipQuotes s := by
  rw [skipQuotes.eq_def]
  dsimp only
  rw [if_neg hquote, if_neg hbackslash]

theorem skipQuotes_escape (e : UInt8) (s : Bytes) :
    skipQuotes (backslash :: e :: s) = skipQuotes s := by
  rw [skipQuotes.eq_def]
  dsimp only
  rw [if_neg (by decide), if_pos rfl]

theorem skipQuotes_digits {a b c d : UInt8} {cp : UInt32}
    (h : parseUtf16Hex [a, b, c, d] = some cp) (s : Bytes) :
    skipQuotes (a :: b :: c :: d :: s) = skipQuotes s := by
  have hplain : forall {e : UInt8} {x : UInt32}, hexCharToInt e = some x ->
      e ≠ quote ∧ e ≠ backslash := by
    intro e x he
    constructor
    · intro hquote
      rw [hquote] at he
      cases he
    · intro hbackslash
      rw [hbackslash] at he
      cases he
  unfold parseUtf16Hex at h
  dsimp only at h
  split at h
  · rename_i x1 x2 x3 x4 h1 h2 h3 h4
    rw [skipQuotes_plain (hplain h1).left (hplain h1).right,
      skipQuotes_plain (hplain h2).left (hplain h2).right,
      skipQuotes_plain (hplain h3).left (hplain h3).right,
      skipQuotes_plain (hplain h4).left (hplain h4).right]
  · cases h

theorem skipQuotes_unit (h : CharText unit written) (s : Bytes) :
    skipQuotes (unit ++ s) = skipQuotes s := by
  cases h with
  | plain hcontrol hquote hbackslash =>
      exact skipQuotes_plain hquote hbackslash s
  | escape h => exact skipQuotes_escape _ s
  | unicode h =>
      exact (skipQuotes_escape _ _).trans (skipQuotes_digits h s)
  | surrogates hlead htrail hleadRange htrailRange hch =>
      exact (skipQuotes_escape _ _).trans ((skipQuotes_digits hlead _).trans
        ((skipQuotes_escape _ _).trans (skipQuotes_digits htrail s)))

theorem skipQuotes_split {s after : Bytes} (h : skipQuotes s = some after) :
    exists inner, s = inner ++ quote :: after := by
  fun_induction skipQuotes s with
  | case1 => cases h
  | case2 rest =>
      cases h
      exact ⟨[], rfl⟩
  | case3 => cases h
  | case4 e rest _ ih =>
      rcases ih h with ⟨inner, rfl⟩
      exact ⟨backslash :: e :: inner, rfl⟩
  | case5 c rest _ _ ih =>
      rcases ih h with ⟨inner, rfl⟩
      exact ⟨c :: inner, rfl⟩

theorem skipQuotes_of_text (h : StringText inner chars) (after : Bytes) :
    skipQuotes (inner ++ quote :: after) = some after := by
  induction h with
  | nil => 
      rw [List.nil_append, skipQuotes.eq_def]
      exact if_pos rfl
  | cons hunit _ ih => rw [List.append_assoc, skipQuotes_unit hunit, ih]

/-- Decoding does not look behind the closing quote. -/
theorem processRounds_of_text (h : StringText inner chars) (after : Bytes)
    {rounds : Nat} (hrounds : inner.length <= rounds) :
    processRounds rounds (inner ++ quote :: after) inner.length =
      some chars := by
  induction h generalizing rounds with
  | nil =>
      cases rounds with
      | zero => rfl
      | succ rounds => exact if_pos (.inr rfl)
  | @cons unit written inner chars hunit _ ih =>
      have hpos := hunit.length_pos
      rw [List.length_append] at hrounds ⊢
      cases rounds with
      | zero => omega
      | succ rounds =>
          have hleft : unit.length + inner.length -
              ((unit ++ (inner ++ quote :: after)).length -
                (inner ++ quote :: after).length) = inner.length := by
            rw [List.length_append]
            omega
          have hnext := @ih rounds (by omega)
          rw [List.append_assoc]
          unfold processRounds
          rw [if_neg, processChar_of_unit hunit]
          · dsimp only
            rw [hleft, hnext, Option.map_some]
          · rw [not_or]
            constructor
            · intro hnil
              rw [List.append_eq_nil_iff] at hnil
              rw [hnil.left] at hpos
              cases hpos
            · omega

theorem text_of_processRounds {rounds : Nat} {s after : Bytes}
    (hskip : skipQuotes s = some after)
    (hrounds : s.length - after.length - 1 <= rounds)
    (h : processRounds rounds s (s.length - after.length - 1) = some chars) :
    exists inner, s = inner ++ quote :: after ∧ StringText inner chars := by
  induction rounds generalizing s chars with
  | zero =>
      cases h
      rcases skipQuotes_split hskip with ⟨inner, rfl⟩
      simp only [List.length_append, List.length_cons] at hrounds
      have hinner : inner = [] := List.length_eq_zero_iff.mp (by omega)
      rw [hinner]
      exact ⟨[], rfl, .nil⟩
  | succ rounds ih =>
      cases s with
      | nil => cases hskip
      | cons c s =>
          by_cases hquote : c = quote
          · subst hquote
            have hsame : s = after := by
              rw [skipQuotes.eq_def] at hskip
              exact Option.some.inj hskip
            subst hsame
            have hleft : (quote :: s).length - s.length - 1 = 0 := by
              rw [List.length_cons]
              omega
            unfold processRounds at h
            rw [hleft, if_pos (.inr rfl)] at h
            cases h
            exact ⟨[], rfl, .nil⟩
          · have hlong : (c :: s).length - after.length - 1 ≠ 0 := by
              rcases skipQuotes_split hskip with ⟨inner, hinner⟩
              cases inner with
              | nil =>
                  injection hinner with hc
                  exact absurd hc hquote
              | cons c' inner =>
                  rw [hinner, List.length_append, List.length_cons,
                    List.length_cons]
                  omega
            unfold processRounds at h
            rw [if_neg (not_or.mpr ⟨List.cons_ne_nil _ _, hlong⟩)] at h
            split at h
            · cases h
            · rename_i written rest hround
              rcases unit_of_processChar hquote hround with
                ⟨unit, hunit, hsplit⟩
              have hpos := hunit.length_pos
              rw [hsplit] at hskip h hrounds ⊢
              rw [skipQuotes_unit hunit] at hskip
              have hleft : (unit ++ rest).length - after.length - 1 -
                  ((unit ++ rest).length - rest.length) =
                    rest.length - after.length - 1 := by
                rw [List.length_append]
                omega
              rw [hleft] at h
              rcases Option.map_eq_some_iff.mp h with ⟨chars, hnext, rfl⟩
              rw [List.length_append] at hrounds
              rcases ih hskip (by omega) hnext with ⟨inner, rfl, htext⟩
              exact ⟨unit ++ inner, (List.append_assoc _ _ _).symm,
                .cons hunit htext⟩

/-- The parser reads a quoted string exactly where there is one, and what it
reads is what the text between the quotes stands for. -/
theorem getQuotedString_iff {s after : Bytes} :
    getQuotedString s = some (chars, after) <->
      exists inner, s = quote :: inner ++ quote :: after ∧
        StringText inner chars := by
  constructor
  · intro h
    unfold getQuotedString at h
    split at h
    · cases h
    · rename_i c rest
      split at h
      · cases h
      · rename_i hquote
        split at h
        · cases h
        · rename_i after' hskip
          rcases Option.map_eq_some_iff.mp h with ⟨chars', hprocess, heq⟩
          cases heq
          have hlength : (c :: rest).length - after.length - 2 =
              rest.length - after.length - 1 := by
            rw [List.length_cons]
            omega
          rw [hlength] at hprocess
          rcases text_of_processRounds hskip (Nat.le_refl _) hprocess with
            ⟨inner, rfl, htext⟩
          rw [not_not.mp hquote]
          exact ⟨inner, rfl, htext⟩
  · intro h
    rcases h with ⟨inner, rfl, htext⟩
    have hlength : (quote :: (inner ++ quote :: after)).length -
        after.length - 2 = inner.length := by
      simp only [List.length_cons, List.length_append]
      omega
    unfold getQuotedString
    dsimp only [List.cons_append]
    rw [if_neg (not_not_intro rfl), skipQuotes_of_text htext]
    dsimp only
    unfold processString
    rw [hlength, processRounds_of_text htext after (Nat.le_refl _),
      Option.map_some]

end Units

end Parson

end Stns
