import Stns.Foundation.FloatText
import Stns.Document.Json
import Stns.Document.JsonString

/-!
# Parsing of JSON texts

The parser of the vendored library, from the text of a response to its value.
A text is what is left of a C string.  The parser is lenient: it takes a comma
behind the last item of an array or of an object, and it does not look at the
text behind the value.  Allocations succeed.
-/

namespace Stns

namespace Parson

open Decimal FloatText

def comma : UInt8 := 44

def colon : UInt8 := 58

def openBracket : UInt8 := 91

def closeBracket : UInt8 := 93

def openBrace : UInt8 := 123

def closeBrace : UInt8 := 125

def maxNesting : Nat := 2048

/-- {lit}`SKIP_WHITESPACES` -/
def skipWhitespaces (s : Bytes) : Bytes :=
  s.dropWhile isSpace

/-!
## Values without parts
-/

/-- {lit}`is_decimal` -/
def isDecimal (text : Bytes) : Bool :=
  decide (¬ (1 < text.length ∧ text[0]? = some 48 ∧ text[1]? ≠ some point) ∧
    ¬ (2 < text.length ∧ text.take 2 = ascii "-0" ∧
      text[2]? ≠ some point)) &&
    text.all (fun c => decide (c ≠ 120 ∧ c ≠ 88))

/-- {lit}`parse_number_value`.  A text in which {lit}`strtod` finds no number
reads as zero and stays as it is. -/
def parseNumberValue (s : Bytes) : Option (Json × Bytes) :=
  match strtod s with
  | .decimal d rest =>
      match d.integral with
      | none => none
      | some value =>
          if isDecimal (s.take (s.length - rest.length)) = true then
            some (.number value, rest)
          else none
  | .hexadecimal => none
  | .special => none
  | .nothing => some (.number 0, s)

/-- {lit}`parse_string_value` -/
def parseStringValue (s : Bytes) : Option (Json × Bytes) :=
  (getQuotedString s).map (fun read => (.string read.1, read.2))

/-- A fixed token at the front of a text. -/
def parseToken (token : Bytes) (value : Json) (s : Bytes) :
    Option (Json × Bytes) :=
  if s.take token.length = token then some (value, s.drop token.length)
  else none

/-- {lit}`parse_boolean_value` -/
def parseBooleanValue (s : Bytes) : Option (Json × Bytes) :=
  match parseToken (ascii "true") (.boolean true) s with
  | some read => some read
  | none => parseToken (ascii "false") (.boolean false) s

/-- {lit}`parse_null_value` -/
def parseNullValue (s : Bytes) : Option (Json × Bytes) :=
  parseToken (ascii "null") .null s

/-!
## Arrays and objects

The two loops differ in what an item is, in how it is added and in the bracket
that closes them.
-/

section Items

variable {item : Type}

/-- The closing bracket behind the items. -/
def closeItems (close : UInt8) (output : List item) (s : Bytes) :
    Option (List item × Bytes) :=
  match s with
  | [] => none
  | c :: rest => if c = close then some (output, rest) else none

/-- The loop over the items behind the first bracket.  Every round but the last
passes a comma, so there are fewer rounds than bytes. -/
def parseItems (parseItem : Bytes -> Option (item × Bytes))
    (add : List item -> item -> Option (List item)) (close : UInt8) :
    Nat -> Bytes -> List item -> Option (List item × Bytes)
  | 0, _, _ => none
  | rounds + 1, s, output =>
      if s = [] then none
      else
        match parseItem s with
        | none => none
        | some (new, rest) =>
            match add output new with
            | none => none
            | some output' =>
                let rest' := skipWhitespaces rest
                if rest'.head? ≠ some comma then
                  closeItems close output' rest'
                else
                  let next := skipWhitespaces rest'.tail
                  if next.head? = some close then
                    closeItems close output' next
                  else parseItems parseItem add close rounds next output'

/-- The items behind the opening bracket. -/
def parseBracketed (parseItem : Bytes -> Option (item × Bytes))
    (add : List item -> item -> Option (List item)) (close : UInt8)
    (s : Bytes) : Option (List item × Bytes) :=
  let first := skipWhitespaces s
  if first.head? = some close then some ([], first.tail)
  else parseItems parseItem add close (first.length + 1) first []

end Items

/-- {lit}`json_array_add` -/
def jsonArrayAdd (items : List Json) (value : Json) : Option (List Json) :=
  some (items ++ [value])

/-- {lit}`json_object_add`: a name is added once. -/
def jsonObjectAdd (members : List (Bytes × Json)) (member : Bytes × Json) :
    Option (List (Bytes × Json)) :=
  if (members.lookup member.1).isSome = true then none
  else some (members ++ [member])

/-- A name, a colon and a value.  A name with an embedded NUL is refused. -/
def parseMember (parseInner : Bytes -> Option (Json × Bytes)) (s : Bytes) :
    Option ((Bytes × Json) × Bytes) :=
  match getQuotedString s with
  | none => none
  | some (key, rest) =>
      if 0 ∈ key then none
      else
        match skipWhitespaces rest with
        | [] => none
        | c :: behind =>
            if c ≠ colon then none
            else
              (parseInner behind).map (fun read => ((key, read.1), read.2))

/-- {lit}`parse_array_value` behind the bracket. -/
def parseArrayValue (parseInner : Bytes -> Option (Json × Bytes))
    (s : Bytes) : Option (Json × Bytes) :=
  (parseBracketed parseInner jsonArrayAdd closeBracket s).map
    (fun read => (.array read.1, read.2))

/-- {lit}`parse_object_value` behind the brace. -/
def parseObjectValue (parseInner : Bytes -> Option (Json × Bytes))
    (s : Bytes) : Option (Json × Bytes) :=
  (parseBracketed (parseMember parseInner) jsonObjectAdd closeBrace s).map
    (fun read => (.object read.1, read.2))

/-!
## Values
-/

/-- {lit}`parse_value`, with {lit}`MAX_NESTING + 1 - nesting` levels of room. -/
def parseValue : Nat -> Bytes -> Option (Json × Bytes)
  | 0, _ => none
  | room + 1, s =>
      match skipWhitespaces s with
      | [] => none
      | c :: rest =>
          if c = openBrace then parseObjectValue (parseValue room) rest
          else if c = openBracket then parseArrayValue (parseValue room) rest
          else if c = quote then parseStringValue (c :: rest)
          else if c = 102 ∨ c = 116 then parseBooleanValue (c :: rest)
          else if c = minus ∨ isDigit c = true then
            parseNumberValue (c :: rest)
          else if c = 110 then parseNullValue (c :: rest)
          else none

def byteOrderMark : Bytes := [0xEF, 0xBB, 0xBF]

/-- {lit}`json_parse_string` -/
def jsonParseString (s : Bytes) : Option Json :=
  let text := if s.take 3 = byteOrderMark then s.drop 3 else s
  (parseValue (maxNesting + 1) text).map Prod.fst

/-!
## What a text stands for
-/

/-- White space only. -/
def Blank (s : Bytes) : Prop :=
  forall c, c ∈ s -> isSpace c = true

instance (s : Bytes) : Decidable (Blank s) :=
  List.decidableBAll (fun c => isSpace c = true) s

/-- The text of a number: it starts with a digit or a minus, and it has no zero
in front of its digits. -/
structure NumberText (d : DecimalText) : Prop where
  wellFormed : d.WellFormed
  head : d.negative = true ∨ d.whole ≠ []
  noLeadingZero : forall tail, d.whole = 48 :: tail ->
    tail = [] ∧ (d.fraction = none -> d.exponent = none)

/-- Items with commas between them, and perhaps one behind the last. -/
inductive ItemsText {item : Type} (itemText : Bytes -> item -> Prop) :
    Bytes -> List item -> Prop where
  | last {text w : Bytes} {x : item} (h : itemText text x) (hw : Blank w) :
      ItemsText itemText (text ++ w) [x]
  | trailing {text w w' : Bytes} {x : item} (h : itemText text x)
      (hw : Blank w) (hw' : Blank w') :
      ItemsText itemText (text ++ (w ++ comma :: w')) [x]
  | more {text w w' rest : Bytes} {x : item} {xs : List item}
      (h : itemText text x) (hw : Blank w) (hw' : Blank w')
      (hrest : ItemsText itemText rest xs) :
      ItemsText itemText (text ++ (w ++ comma :: (w' ++ rest))) (x :: xs)

/-- Items or white space, up to the closing bracket. -/
inductive BracketedText {item : Type} (itemText : Bytes -> item -> Prop) :
    Bytes -> List item -> Prop where
  | empty {w : Bytes} (hw : Blank w) : BracketedText itemText w []
  | items {w text : Bytes} {xs : List item} (hw : Blank w)
      (h : ItemsText itemText text xs) : BracketedText itemText (w ++ text) xs

/-- The text of a member of an object. -/
inductive MemberText (inner : Bytes -> Json -> Prop) :
    Bytes -> Bytes × Json -> Prop where
  | member {name key w w' text : Bytes} {value : Json}
      (hname : StringText name key) (hkey : 0 ∉ key) (hw : Blank w)
      (hw' : Blank w') (h : inner text value) :
      MemberText inner
        (quote :: (name ++ quote :: (w ++ colon :: (w' ++ text))))
        (key, value)

/-- The text of a value, with a relation for the texts of its parts. -/
inductive NodeText (inner : Bytes -> Json -> Prop) : Bytes -> Json -> Prop where
  | nullToken : NodeText inner (ascii "null") .null
  | trueToken : NodeText inner (ascii "true") (.boolean true)
  | falseToken : NodeText inner (ascii "false") (.boolean false)
  | number {d : DecimalText} {value : Int} (h : NumberText d)
      (hvalue : d.integral = some value) :
      NodeText inner d.text (.number value)
  | string {text chars : Bytes} (h : StringText text chars) :
      NodeText inner (quote :: (text ++ [quote])) (.string chars)
  | array {text : Bytes} {items : List Json}
      (h : BracketedText inner text items) :
      NodeText inner (openBracket :: (text ++ [closeBracket])) (.array items)
  | object {text : Bytes} {members : List (Bytes × Json)}
      (h : BracketedText (MemberText inner) text members)
      (hnames : (members.map Prod.fst).Nodup) :
      NodeText inner (openBrace :: (text ++ [closeBrace])) (.object members)

/-- The text of a value of at most the given depth. -/
def ValueText : Nat -> Bytes -> Json -> Prop
  | 0 => fun _ _ => False
  | room + 1 => NodeText (ValueText room)

end Parson

end Stns
