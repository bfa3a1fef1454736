import Stns.Document.JsonGrammar
import Stns.Foundation.Utf8

/-!
# The encoding of a document

A JSON text in UTF-8 gives a document whose names and strings are in UTF-8: the
bytes of a character are copied together, and an escape is decoded to a whole
character.
-/

namespace Stns

namespace Parson

open Decimal

/-- A string stands in a document, as a value or as a name. -/
inductive Holds (chars : Bytes) : Json -> Prop where
  | string : Holds chars (.string chars)
  | name {members : List (Bytes × Json)} {value : Json}
      (h : (chars, value) ∈ members) : Holds chars (.object members)
  | item {items : List Json} {x : Json} (hx : x ∈ items) (h : Holds chars x) :
      Holds chars (.array items)
  | value {members : List (Bytes × Json)} {m : Bytes × Json}
      (hm : m ∈ members) (h : Holds chars m.2) : Holds chars (.object members)

/-!
## Strings
-/

section Strings

variable {unit written inner chars s t : Bytes} {c : UInt8}

theorem stringText_cases (h : StringText s chars) :
    (s = [] ∧ chars = []) ∨
      exists unit written inner chars', CharText unit written ∧
        StringText inner chars' ∧ s = unit ++ inner ∧
        chars = written ++ chars' := by
  cases h with
  | nil => exact .inl ⟨rfl, rfl⟩
  | cons hunit hrest => exact .inr ⟨_, _, _, _, hunit, hrest, rfl, rfl⟩

theorem ascii_of_hexCharToInt {x : UInt32} (h : hexCharToInt c = some x) :
    c < 0x80 := by
  unfold hexCharToInt isDigit Percent.inRange at h
  simp only [decide_eq_true_eq, UInt8.le_iff_toNat_le,
    UInt8.reduceToNat] at h
  rw [UInt8.lt_iff_toNat_lt]
  simp only [UInt8.reduceToNat]
  split at h
  · omega
  · split at h
    · omega
    · split at h
      · omega
      · cases h

theorem ascii_of_parseUtf16Hex {a b c d : UInt8} {cp : UInt32}
    (h : parseUtf16Hex [a, b, c, d] = some cp) :
    forall x, x ∈ [a, b, c, d] -> x < 0x80 := by
  unfold parseUtf16Hex at h
  dsimp only at h
  split at h
  · rename_i ha hb hc hd
    simp only [List.mem_cons, List.not_mem_nil, or_false]
    intro x hx
    rcases hx with rfl | rfl | rfl | rfl
    · exact ascii_of_hexCharToInt ha
    · exact ascii_of_hexCharToInt hb
    · exact ascii_of_hexCharToInt hc
    · exact ascii_of_hexCharToInt hd
  · cases h

theorem ascii_of_unescaped {ch : UInt8} (h : unescaped c = some ch) :
    c < 0x80 ∧ ch < 0x80 := by
  unfold unescaped at h
  repeat' split at h
  all_goals
    cases h
    try rename_i hc
    try rw [hc]
    try decide

/-- A character of a string is one byte that stands for itself, or text below
0x80 that stands for a character. -/
theorem charText_cases (h : CharText unit written) :
    (exists c, unit = [c] ∧ written = [c] ∧ 0x20 <= c) ∨
      ((forall c, c ∈ unit -> c < 0x80) ∧ Utf8.Valid written ∧
        unit.head? = some backslash) := by
  cases h with
  | @plain c hcontrol hquote hbackslash => exact .inl ⟨c, rfl, rfl, hcontrol⟩
  | escape hch =>
      rcases ascii_of_unescaped hch with ⟨hc, hwritten⟩
      refine .inr ⟨?_, Utf8.valid_singleton hwritten, rfl⟩
      simp only [List.mem_cons, List.not_mem_nil, or_false]
      intro x hx
      rcases hx with rfl | rfl
      · decide
      · exact hc
  | unicode hhex =>
      refine .inr ⟨?_, .char _, rfl⟩
      intro x hx
      rcases List.mem_cons.mp hx with rfl | hx
      · decide
      · rcases List.mem_cons.mp hx with rfl | hx
        · decide
        · exact ascii_of_parseUtf16Hex hhex x hx
  | @surrogates a b c d a' b' c' d' lead trail ch hlead htrail _ _ hch =>
      refine .inr ⟨?_, .char _, rfl⟩
      intro x hx
      have hsplit : x ∈ [backslash, 117] ∨ x ∈ [a, b, c, d] ∨
          x ∈ [backslash, 117] ∨ x ∈ [a', b', c', d'] := by
        simp only [List.mem_cons, List.not_mem_nil, or_false] at hx ⊢
        grind
      have hescape : forall y : UInt8, y ∈ [backslash, 117] -> y < 0x80 := by
        simp only [List.forall_mem_cons]
        exact ⟨by decide, by decide, nofun⟩
      rcases hsplit with h | h | h | h
      · exact hescape x h
      · exact ascii_of_parseUtf16Hex hlead x h
      · exact hescape x h
      · exact ascii_of_parseUtf16Hex htrail x h

/-- Bytes from 0x80 on stand for themselves. -/
theorem stringText_high (hs : forall c, c ∈ s -> ¬ c < 0x80)
    (h : StringText (s ++ t) chars) :
    exists chars', chars = s ++ chars' ∧ StringText t chars' := by
  induction s generalizing chars with
  | nil => exact ⟨chars, rfl, h⟩
  | cons c s ih =>
      have hc := hs c List.mem_cons_self
      rcases stringText_cases h with
        ⟨hnil, _⟩ | ⟨unit, written, inner, chars', hunit, hinner, hsplit, rfl⟩
      · cases hnil
      · rcases charText_cases hunit with
          ⟨c', rfl, rfl, _⟩ | ⟨hascii, _, hhead⟩
        · rcases List.cons.inj hsplit with ⟨hhead, htail⟩
          change s ++ t = inner at htail
          rw [← htail] at hinner
          rcases ih (fun x hx => hs x (List.mem_cons_of_mem c hx)) hinner with
            ⟨chars'', rfl, hrest⟩
          exact ⟨chars'', by rw [hhead]; rfl, hrest⟩
        · rcases List.head?_eq_some_iff.mp hhead with ⟨tail, rfl⟩
          injection hsplit with hbackslash
          exact absurd (hascii _ List.mem_cons_self) (hbackslash ▸ hc)

/-- What a text in UTF-8 stands for is in UTF-8. -/
theorem valid_stringText {n : Nat} (hn : inner.length <= n)
    (h : StringText inner chars) (hvalid : Utf8.Valid inner) :
    Utf8.Valid chars := by
  induction n generalizing inner chars with
  | zero =>
      have hnil : inner = [] := List.length_eq_zero_iff.mp (by omega)
      rcases stringText_cases h with
        ⟨_, rfl⟩ | ⟨unit, written, _, _, hunit, _, hsplit, _⟩
      · exact .nil
      · have hpos := hunit.length_pos
        rw [hnil] at hsplit
        have hzero := congrArg List.length hsplit
        rw [List.length_append, List.length_nil] at hzero
        omega
  | succ n ih =>
      rcases stringText_cases h with
        ⟨_, rfl⟩ | ⟨unit, written, rest, chars', hunit, hrest, rfl, rfl⟩
      · exact .nil
      · have hpos := hunit.length_pos
        rw [List.length_append] at hn
        rcases charText_cases hunit with
          ⟨c, rfl, rfl, _⟩ | ⟨hascii, hwritten, _⟩
        · by_cases hc : c < 0x80
          · exact (Utf8.valid_singleton hc).append
              (ih (by omega) hrest (hvalid.tail hc))
          · rcases hvalid with ⟨cs, hcs⟩
            cases cs with
            | nil => cases hcs
            | cons ch cs =>
                -- no byte of the character is below 0x80, as its first is not
                have hhigh : forall x, x ∈ String.utf8EncodeChar ch ->
                    ¬ x < 0x80 := by
                  intro x hx hlow
                  rw [Utf8.encode_cons, Utf8.encodeChar_ascii hx hlow] at hcs
                  rw [(List.cons.inj hcs).left] at hc
                  exact hc hlow
                have hlength := congrArg List.length hcs
                rw [Utf8.encode_cons, List.length_append,
                  List.length_append] at hlength
                have hchar : 0 < (String.utf8EncodeChar ch).length := by
                  rw [String.length_utf8EncodeChar]
                  exact Char.utf8Size_pos ch
                rw [hcs, Utf8.encode_cons] at h
                rcases stringText_high hhigh h with ⟨tail, heq, htail⟩
                rw [heq]
                exact (Utf8.Valid.char ch).append
                  (ih (by omega) htail ⟨cs, rfl⟩)
        · exact hwritten.append
            (ih (by omega) hrest (hvalid.drop_ascii hascii))

end Strings

/-!
## Items
-/

section Items

variable {item : Type} {itemText : Bytes -> item -> Prop}
  {w s t text : Bytes} {xs : List item} {x : item}

theorem Blank.ascii (hw : Blank w) : forall c, c ∈ w -> c < 0x80 := by
  intro c hc
  have hspace := hw c hc
  unfold isSpace Percent.inRange at hspace
  simp only [Bool.or_eq_true, decide_eq_true_eq, beq_iff_eq,
    UInt8.le_iff_toNat_le, UInt8.reduceToNat] at hspace
  rw [UInt8.lt_iff_toNat_lt]
  simp only [UInt8.reduceToNat]
  rcases hspace with hrange | heq
  · omega
  · rw [heq]
    decide

/-- White space and a byte below 0x80 cut a text in two. -/
theorem valid_cut {c : UInt8} (hw : Blank w) (hc : c < 0x80)
    (h : Utf8.Valid (s ++ (w ++ c :: t))) : Utf8.Valid s ∧ Utf8.Valid t := by
  cases w with
  | nil => exact h.split hc
  | cons c' w =>
      rcases h.split (hw.ascii c' List.mem_cons_self) with ⟨hs, hrest⟩
      have hw' : forall x, x ∈ w -> x < 0x80 :=
        fun x hx => hw.ascii x (List.mem_cons_of_mem c' hx)
      exact ⟨hs, (hrest.drop_ascii hw').tail hc⟩

theorem ItemsText.valid_of_mem (h : ItemsText itemText text xs)
    (hvalid : Utf8.Valid text) (hx : x ∈ xs) :
    exists t, itemText t x ∧ Utf8.Valid t := by
  induction h with
  | @last text w y h hw =>
      rw [List.mem_singleton.mp hx]
      refine ⟨text, h, ?_⟩
      cases w with
      | nil => rwa [List.append_nil] at hvalid
      | cons c w => exact (hvalid.split (hw.ascii c List.mem_cons_self)).left
  | trailing h hw hw' =>
      rw [List.mem_singleton.mp hx]
      exact ⟨_, h, (valid_cut hw (by decide) hvalid).left⟩
  | more h hw hw' _ ih =>
      rcases valid_cut hw (by decide) hvalid with ⟨htext, hrest⟩
      rcases List.mem_cons.mp hx with rfl | hmem
      · exact ⟨_, h, htext⟩
      · exact ih (hrest.drop_ascii hw'.ascii) hmem

theorem BracketedText.valid_of_mem (h : BracketedText itemText text xs)
    (hvalid : Utf8.Valid text) (hx : x ∈ xs) :
    exists t, itemText t x ∧ Utf8.Valid t := by
  cases h with
  | empty => cases hx
  | items hw h => exact h.valid_of_mem (hvalid.drop_ascii hw.ascii) hx

theorem MemberText.valid {inner : Bytes -> Json -> Prop}
    {member : Bytes × Json} (h : MemberText inner text member)
    (hvalid : Utf8.Valid text) :
    Utf8.Valid member.1 ∧ exists t, inner t member.2 ∧ Utf8.Valid t := by
  cases h with
  | member hname _ hw hw' hvalue =>
      rcases (hvalid.tail (by decide)).split (by decide) with ⟨hkey, hrest⟩
      have hbehind := (hrest.drop_ascii hw.ascii).tail (by decide)
      exact ⟨valid_stringText (Nat.le_refl _) hname hkey, _, hvalue,
        hbehind.drop_ascii hw'.ascii⟩

end Items

/-!
## Documents
-/

section Documents

variable {room : Nat} {s text rest chars : Bytes} {v : Json}

theorem valid_of_text (h : ValueText room text v) (hvalid : Utf8.Valid text)
    (hin : Holds chars v) : Utf8.Valid chars := by
  induction room generalizing text v with
  | zero => cases h
  | succ room ih =>
      cases h with
      | nullToken => cases hin
      | trueToken => cases hin
      | falseToken => cases hin
      | number => cases hin
      | string h =>
          cases hin
          exact valid_stringText (Nat.le_refl _) h
            ((hvalid.tail (by decide)).split (by decide)).left
      | array h =>
          have hinner := ((hvalid.tail (by decide)).split (by decide)).left
          cases hin with
          | item hx hin =>
              rcases h.valid_of_mem hinner hx with ⟨t, ht, hitem⟩
              exact ih ht hitem hin
      | object h =>
          have hinner := ((hvalid.tail (by decide)).split (by decide)).left
          cases hin with
          | name hm =>
              rcases h.valid_of_mem hinner hm with ⟨t, ht, hmember⟩
              exact (ht.valid hmember).left
          | value hm hin =>
              rcases h.valid_of_mem hinner hm with ⟨t, ht, hmember⟩
              rcases (ht.valid hmember).right with ⟨t', ht', hvalue⟩
              exact ih ht' hvalue hin

/-- The text of a value that holds a string ends with a quote or a bracket. -/
theorem NodeText.valid_front {inner : Bytes -> Json -> Prop}
    (h : NodeText inner text v) (hin : Holds chars v)
    (hvalid : Utf8.Valid (text ++ rest)) : Utf8.Valid text := by
  have hcut : forall (init : Bytes) {c : UInt8}, c < 0x80 ->
      Utf8.Valid (init ++ [c] ++ rest) -> Utf8.Valid (init ++ [c]) := by
    intro init c hc hfront
    rw [List.append_assoc] at hfront
    exact (hfront.split hc).left.append (Utf8.valid_singleton hc)
  cases h with
  | nullToken => cases hin
  | trueToken => cases hin
  | falseToken => cases hin
  | number => cases hin
  | string => exact hcut (quote :: _) (by decide) hvalid
  | array => exact hcut (openBracket :: _) (by decide) hvalid
  | object => exact hcut (openBrace :: _) (by decide) hvalid

/-- If a text is in UTF-8, so is every string of the document it is parsed
to. -/
theorem valid_of_jsonParseString (h : jsonParseString s = some v)
    (hs : Utf8.Valid s) (hin : Holds chars v) : Utf8.Valid chars := by
  rcases Option.map_eq_some_iff.mp h with ⟨⟨v', rest⟩, hread, rfl⟩
  rw [parseValue_skip] at hread
  rcases skipWhitespaces_split (if s.take 3 = byteOrderMark then s.drop 3
    else s) with ⟨w, hw, hsplit⟩
  rcases text_of_parseValue (partParser maxNesting)
    (started_skipWhitespaces _) hread with ⟨text, htext, hskip⟩ | ⟨hzero, _⟩
  · rw [hskip] at hsplit
    -- behind the mark comes white space or the value, so the text can be cut
    have hbehind : Utf8.Valid (w ++ (text ++ rest)) := by
      by_cases hmark : s.take 3 = byteOrderMark
      · rw [if_pos hmark] at hsplit
        have hwhole : s = byteOrderMark ++ (w ++ (text ++ rest)) := by
          rw [← hsplit, ← hmark, List.take_append_drop]
        rw [hwhole] at hs
        have hfirst : exists c tail, w ++ (text ++ rest) = c :: tail ∧
            c < 0x80 := by
          cases w with
          | cons c w => exact ⟨c, _, rfl, hw.ascii c List.mem_cons_self⟩
          | nil =>
              cases htext with
              | nullToken => exact ⟨110, _, rfl, by decide⟩
              | trueToken => exact ⟨116, _, rfl, by decide⟩
              | falseToken => exact ⟨102, _, rfl, by decide⟩
              | number => cases hin
              | string => exact ⟨quote, _, rfl, by decide⟩
              | array => exact ⟨openBracket, _, rfl, by decide⟩
              | object => exact ⟨openBrace, _, rfl, by decide⟩
        rcases hfirst with ⟨c, tail, hcons, hc⟩
        rw [hcons] at hs ⊢
        exact (Utf8.valid_singleton hc).append (hs.split hc).right
      · rw [if_neg hmark] at hsplit
        rwa [← hsplit]
    have hfront := htext.valid_front hin (hbehind.drop_ascii hw.ascii)
    have hvalue : ValueText (maxNesting + 1) text v' := htext
    exact valid_of_text hvalue hfront hin
  · dsimp only at hzero hin
    rw [hzero] at hin
    cases hin

/-- A list of one string, a character beyond the first plane written as a pair
of escapes. -/
def faceText : Bytes :=
  ascii "[\"\\ud83d\\ude00\"]"

def face : Char := Char.ofNat 0x1F600

theorem valueText_face :
    ValueText (maxNesting + 1) faceText
      (.array [.string (String.utf8EncodeChar face)]) := by
  have hlead : parseUtf16Hex (ascii "d83d") = some 0xD83D := by decide
  have htrail : parseUtf16Hex (ascii "de00") = some 0xDE00 := by decide
  have hchar : CharText (ascii "\\ud83d\\ude00")
      (String.utf8EncodeChar face) :=
    .surrogates hlead htrail (by decide) (by decide) (by decide)
  have hstring : StringText (ascii "\\ud83d\\ude00")
      (String.utf8EncodeChar face) := .cons hchar .nil
  have hinner : ValueText maxNesting (ascii "\"\\ud83d\\ude00\"")
      (.string (String.utf8EncodeChar face)) := .string hstring
  exact .array (.items Blank.nil (.last hinner Blank.nil))

theorem faceText_ascii (c : UInt8) (h : c ∈ faceText) : c < 0x80 := by
  have hall : faceText.all (fun c => decide (c < 0x80)) = true := rfl
  exact of_decide_eq_true (List.all_eq_true.mp hall c h)

theorem jsonParseString_face :
    jsonParseString faceText =
      some (.array [.string (String.utf8EncodeChar face)]) := by
  have hread := jsonParseString_text (v := .array _) trivial (.inl rfl)
    Blank.nil valueText_face []
  rwa [List.append_nil] at hread

theorem valid_of_jsonParseString_face :
    Utf8.Valid [0xF0, 0x9F, 0x98, 0x80] :=
  valid_of_jsonParseString jsonParseString_face
    (Utf8.valid_ascii faceText_ascii) (.item List.mem_cons_self .string)

end Documents

end Parson

end Stns
