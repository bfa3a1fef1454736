import Stns.Foundation.Decimal

/-!
# Strings of a JSON text

The vendored parser scans a quoted string twice: once to find the quote that
closes it, and once to decode the text between the quotes.  A text is what is
left of a C string, so its end is the terminator; the decoder is given the
length of the inner text and may look behind it.
-/

namespace Stns

namespace Parson

open Decimal

def quote : UInt8 := 34

def backslash : UInt8 := 92

/-!
## Escapes
-/

/-- {lit}`hex_char_to_int` -/
def hexCharToInt (c : UInt8) : Option UInt32 :=
  if isDigit c = true then some (c - 48).toUInt32
  else if Percent.inRange 97 102 c = true then some (c - 97 + 10).toUInt32
  else if Percent.inRange 65 70 c = true then some (c - 65 + 10).toUInt32
  else none

/-- {lit}`parse_utf16_hex` -/
def parseUtf16Hex : Bytes -> Option UInt32
  | s0 :: s1 :: s2 :: s3 :: _ =>
      match hexCharToInt s0, hexCharToInt s1, hexCharToInt s2,
          hexCharToInt s3 with
      | some x1, some x2, some x3, some x4 =>
          some (x1 <<< 12 ||| x2 <<< 8 ||| x3 <<< 4 ||| x4)
      | _, _, _, _ => none
  | _ => none

/-- A byte that continues a character: the low six bits of a shifted code. -/
def continuation (cp shift : UInt32) : UInt8 :=
  ((cp >>> shift) &&& 0x3F ||| 0x80).toUInt8

/-- The code of a lead and a trail surrogate. -/
def surrogateCode (lead trail : UInt32) : UInt32 :=
  (((lead - 0xD800) &&& 0x3FF) <<< 10 ||| ((trail - 0xDC00) &&& 0x3FF)) +
    0x010000

/-- {lit}`parse_utf16` behind a lead surrogate, which wants a second escape. -/
def parseTrail (lead : UInt32) : Bytes -> Option (Bytes × Bytes)
  | c :: u :: second =>
      if c ≠ backslash ∨ u ≠ 117 then none
      else
        match parseUtf16Hex second with
        | none => none
        | some trail =>
            if trail < 0xDC00 ∨ trail > 0xDFFF then none
            else
              let cp := surrogateCode lead trail
              some ([((cp >>> 18) &&& 0x07 ||| 0xF0).toUInt8,
                continuation cp 12, continuation cp 6, continuation cp 0],
                second.drop 4)
  | _ => none

/-- {lit}`parse_utf16` behind the {lit}`u`: the bytes it writes, and the text
behind the escape. -/
def parseUtf16 (unprocessed : Bytes) : Option (Bytes × Bytes) :=
  match parseUtf16Hex unprocessed with
  | none => none
  | some cp =>
      let rest := unprocessed.drop 4
      if cp < 0x80 then some ([cp.toUInt8], rest)
      else if cp < 0x800 then
        some ([((cp >>> 6) &&& 0x1F ||| 0xC0).toUInt8, continuation cp 0],
          rest)
      else if cp < 0xD800 ∨ cp > 0xDFFF then
        some ([((cp >>> 12) &&& 0x0F ||| 0xE0).toUInt8, continuation cp 6,
          continuation cp 0], rest)
      else if cp >= 0xD800 ∧ cp <= 0xDBFF then parseTrail cp rest
      else none

/-- The character that a backslash and another character stand for. -/
def unescaped (c : UInt8) : Option UInt8 :=
  if c = quote then some quote
  else if c = backslash then some backslash
  else if c = 47 then some 47
  else if c = 98 then some 8
  else if c = 102 then some 12
  else if c = 110 then some 10
  else if c = 114 then some 13
  else if c = 116 then some 9
  else none

/-!
## Scanning and decoding
-/

/-- {lit}`skip_quotes` behind the opening quote: the text behind the closing
one. -/
def skipQuotes : Bytes -> Option Bytes
  | [] => none
  | c :: rest =>
      if c = quote then some rest
      else if c = backslash then
        match rest with
        | [] => none
        | _ :: rest' => skipQuotes rest'
      else skipQuotes rest

/-- One round of the loop of {lit}`process_string`: the bytes it writes, and the
text it goes on with. -/
def processChar : Bytes -> Option (Bytes × Bytes)
  | [] => none
  | c :: rest =>
      if c = backslash then
        match rest with
        | [] => none
        | e :: rest' =>
            if e = 117 then parseUtf16 rest'
            else (unescaped e).map (fun ch => ([ch], rest'))
      else if c < 0x20 then none
      else some ([c], rest)

/-- The loop of {lit}`process_string` with {lit}`left` bytes of the inner text
to go.  Every round goes on by a byte at least, so there are at most
{lit}`left` rounds. -/
def processRounds : Nat -> Bytes -> Nat -> Option Bytes
  | 0, _, _ => some []
  | rounds + 1, input, left =>
      if input = [] ∨ left = 0 then some []
      else
        match processChar input with
        | none => none
        | some (written, rest) =>
            (processRounds rounds rest
              (left - (input.length - rest.length))).map
              (fun output => written ++ output)

/-- {lit}`process_string` -/
def processString (input : Bytes) (inputLen : Nat) : Option Bytes :=
  processRounds inputLen input inputLen

/-- {lit}`get_quoted_string`: the string, and the text behind it. -/
def getQuotedString : Bytes -> Option (Bytes × Bytes)
  | [] => none
  | c :: rest =>
      if c ≠ quote then none
      else
        match skipQuotes rest with
        | none => none
        | some after =>
            let inputLen := (c :: rest).length - after.length - 2
            (processString rest inputLen).map (fun output => (output, after))

/-!
## What a string text stands for

A character of the text between the quotes is a byte that stands for itself, an
escape of one character, or one or two escapes of a Unicode character.
-/

/-- The text of one character of a string, and the bytes it stands for. -/
inductive CharText : Bytes -> Bytes -> Prop where
  | plain {c : UInt8} (hcontrol : 0x20 <= c) (hquote : c ≠ quote)
      (hbackslash : c ≠ backslash) : CharText [c] [c]
  | escape {c ch : UInt8} (h : unescaped c = some ch) :
      CharText [backslash, c] [ch]
  | unicode {a b c d : UInt8} {ch : Char}
      (h : parseUtf16Hex [a, b, c, d] = some ch.val) :
      CharText [backslash, 117, a, b, c, d] (String.utf8EncodeChar ch)
  | surrogates {a b c d a' b' c' d' : UInt8} {lead trail : UInt32} {ch : Char}
      (hlead : parseUtf16Hex [a, b, c, d] = some lead)
      (htrail : parseUtf16Hex [a', b', c', d'] = some trail)
      (hleadRange : 0xD800 <= lead.toNat ∧ lead.toNat <= 0xDBFF)
      (htrailRange : 0xDC00 <= trail.toNat ∧ trail.toNat <= 0xDFFF)
      (hch : ch.toNat = 0x10000 + (lead.toNat - 0xD800) * 0x400 +
        (trail.toNat - 0xDC00)) :
      CharText [backslash, 117, a, b, c, d, backslash, 117, a', b', c', d']
        (String.utf8EncodeChar ch)

/-- The text between the quotes of a string, and the bytes it stands for. -/
inductive StringText : Bytes -> Bytes -> Prop where
  | nil : StringText [] []
  | cons {unit written inner chars : Bytes} (hunit : CharText unit written)
      (hrest : StringText inner chars) :
      StringText (unit ++ inner) (written ++ chars)

end Parson

end Stns
