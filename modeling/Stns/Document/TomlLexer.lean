import Stns.Document.Toml

/-!
# Tokens of a configuration file

The parser asks for one token after the other, and says each time whether a dot
is a token of its own.  A token holds its text and what the file holds behind
it; the token at the end of the file is an empty line ending.
-/

namespace Stns

namespace TomlParser

open Decimal

/-- {lit}`tokentype_t`, without {lit}`INVALID`. -/
inductive TokenType where
  | dot
  | comma
  | equal
  | lbrace
  | rbrace
  | newline
  | lbracket
  | rbracket
  | string
  deriving DecidableEq

/-- {lit}`token_t` -/
structure Token where
  tok : TokenType
  lineno : Nat
  text : Bytes
  rest : Bytes
  eof : Bool

/-- How much of the file begins with the token. -/
def Token.left (t : Token) : Nat :=
  t.text.length + t.rest.length

/-- What {lit}`errbuf` says: a line and a message, or the place of an internal
error. -/
inductive TomlError where
  | line (lineno : Nat) (msg : Bytes)
  | internal

/-- A parse that does not succeed returns with an error, or does not return;
{lit}`fuel` is the bound of the recursions below, which no parse reaches. -/
inductive Failure where
  | error (e : TomlError)
  | endless
  | fuel

abbrev Parse (value : Type) := Except Failure value

/-- {lit}`e_syntax_error` -/
def syntaxError {value : Type} (lineno : Nat) (msg : String) : Parse value :=
  .error (.error (.line lineno (ascii msg)))

/-- {lit}`e_key_exists_error` -/
def keyExistsError {value : Type} (keytok : Token) : Parse value :=
  .error (.error (.line keytok.lineno
    (ascii "key " ++ keytok.text.take 99 ++ ascii " exists")))

/-- {lit}`e_internal_error` -/
def internalError {value : Type} : Parse value :=
  .error (.error .internal)

/-!
## Strings
-/

def lineFeed : UInt8 := 10

def point : UInt8 := 46

def hash : UInt8 := 35

def triple (mark : UInt8) : Bytes :=
  [mark, mark, mark]

/-- Between two characters of a quoted string: whether a backslash is open, and
how many hexadecimal digits have to follow. -/
structure Escape where
  escape : Bool
  hexreq : Nat

def Escape.start : Escape :=
  ⟨false, 0⟩

/-- What a character is inside a quoted string: a part of an escape, with what
has to follow it, or a plain one, which is {lit}`none`. -/
def scanEscape (multiline : Bool) (s : Escape) (c : UInt8) :
    Except String (Option Escape) :=
  if s.escape = true then
    if c ∈ ascii "btnfr\"\\" then .ok (some ⟨false, s.hexreq⟩)
    else if c = 117 then .ok (some ⟨false, 4⟩)
    else if c = 85 then .ok (some ⟨false, 8⟩)
    else if multiline = true ∧ c = lineFeed then .ok (some ⟨false, s.hexreq⟩)
    else .error "bad escape char"
  else if s.hexreq ≠ 0 then
    if c ∈ ascii "0123456789ABCDEF" then .ok (some ⟨false, s.hexreq - 1⟩)
    else .error "expect hex char"
  else if c = backslash then .ok (some ⟨true, 0⟩)
  else .ok none

/-- A text and what is left behind it, with a character in front. -/
def consText (c : UInt8) (split : Bytes × Bytes) : Bytes × Bytes :=
  (c :: split.1, split.2)

/-- The text up to three marks in a row, and what is left behind them. -/
def findTriple (mark : UInt8) : Bytes -> Option (Bytes × Bytes)
  | [] => none
  | c :: rest =>
      if (triple mark).isPrefixOf (c :: rest) = true then
        some (triple mark, rest.drop 2)
      else (findTriple mark rest).map (consText c)

/-- The text of a string in three quotes behind the first three; {lit}`qcnt`
quotes stand in a row. -/
def scanTriple : Escape -> Nat -> Bytes -> Except String (Bytes × Bytes)
  | _, _, [] => .error "unterminated triple-quote"
  | s, qcnt, c :: rest =>
      match scanEscape true s c with
      | .error msg => .error msg
      | .ok (some s') => (scanTriple s' qcnt rest).map (consText c)
      | .ok none =>
          if c = quote then
            if qcnt = 2 then .ok ([c], rest)
            else (scanTriple s (qcnt + 1) rest).map (consText c)
          else (scanTriple s 0 rest).map (consText c)

/-- The text of a string in quotes behind the first one. -/
def scanQuoted : Escape -> Bytes -> Except String (Bytes × Bytes)
  | _, [] => .error "unterminated quote"
  | s, c :: rest =>
      match scanEscape false s c with
      | .error msg => .error msg
      | .ok (some s') => (scanQuoted s' rest).map (consText c)
      | .ok none =>
          if c = lineFeed then .error "unterminated quote"
          else if c = quote then .ok ([c], rest)
          else (scanQuoted s rest).map (consText c)

/-- The text of a string in apostrophes behind the first one. -/
def scanLiteral : Bytes -> Except String (Bytes × Bytes)
  | [] => .error "unterminated s-quote"
  | c :: rest =>
      if c = lineFeed then .error "unterminated s-quote"
      else if c = apostrophe then .ok ([c], rest)
      else (scanLiteral rest).map (consText c)

def isBare (dotisspecial : Bool) (c : UInt8) : Bool :=
  if c = point ∧ dotisspecial = true then false
  else Percent.isAlnum c || (ascii "+-_.:").contains c

/-- The text of {lit}`scan_string` and what is left behind it.  A character
that begins no string has an empty text. -/
def scanText (dotisspecial : Bool) (s : Bytes) :
    Except String (Bytes × Bytes) :=
  if (triple apostrophe).isPrefixOf s = true then
    match findTriple apostrophe (s.drop 3) with
    | none => .error "unterminated triple-s-quote"
    | some (text, rest) => .ok (triple apostrophe ++ text, rest)
  else if (triple quote).isPrefixOf s = true then
    (scanTriple Escape.start 0 (s.drop 3)).map
      (fun split => (triple quote ++ split.1, split.2))
  else if s.head? = some apostrophe then
    (scanLiteral s.tail).map (consText apostrophe)
  else if s.head? = some quote then
    (scanQuoted Escape.start s.tail).map (consText quote)
  else
    .ok (s.takeWhile (isBare dotisspecial), s.dropWhile (isBare dotisspecial))

/-- {lit}`scan_string` -/
def scanString (dotisspecial : Bool) (lineno : Nat) (s : Bytes) :
    Parse Token :=
  match scanText dotisspecial s with
  | .error msg => syntaxError lineno msg
  | .ok (text, rest) => .ok ⟨.string, lineno, text, rest, false⟩

/-!
## The next token
-/

/-- What is left behind white space and comments; a comment ends before the
line feed. -/
def skipBlanks : Bool -> Bytes -> Bytes
  | _, [] => []
  | true, c :: rest =>
      if c = lineFeed then c :: rest else skipBlanks true rest
  | false, c :: rest =>
      if c = hash then skipBlanks true rest
      else if c = 13 ∨ c = 32 ∨ c = 9 then skipBlanks false rest
      else c :: rest

def punctuation (c : UInt8) : Option TokenType :=
  if c = 44 then some .comma
  else if c = 61 then some .equal
  else if c = 123 then some .lbrace
  else if c = 125 then some .rbrace
  else if c = 91 then some .lbracket
  else if c = 93 then some .rbracket
  else if c = lineFeed then some .newline
  else none

/-- {lit}`next_token`, behind the current token. -/
def nextToken (dotisspecial : Bool) (t : Token) : Parse Token :=
  let lineno := t.lineno + t.text.count lineFeed
  match skipBlanks false t.rest with
  | [] => .ok ⟨.newline, lineno, [], [], true⟩
  | c :: rest =>
      if dotisspecial = true ∧ c = point then
        .ok ⟨.dot, lineno, [c], rest, false⟩
      else
        match punctuation c with
        | some tok => .ok ⟨tok, lineno, [c], rest, false⟩
        | none => scanString dotisspecial lineno (c :: rest)

/-!
## Keys
-/

/-- Where the copy of a key is: between characters, behind a backslash, or
behind {lit}`ch` in a {lit}`\u` with {lit}`more` of {lit}`nhex` digits after
the next one. -/
inductive KeyState where
  | plain
  | escape
  | hex (nhex more ucs : Nat) (ch : UInt8)

/-- {lit}`normalize_string` that keeps line-ending backslashes. -/
def normalizeKeyString : KeyState -> Bytes -> Except Bytes Bytes
  | .plain, [] => .ok []
  | .escape, [] => .error (ascii "last backslash is invalid")
  | .hex nhex _ _ ch, [] =>
      .error (ascii "\\" ++ [ch] ++ ascii " expects " ++ formatNat nhex ++
        ascii " hex chars")
  | .plain, c :: rest =>
      if c = backslash then normalizeKeyString .escape rest
      else (normalizeKeyString .plain rest).map (fun dst => c :: dst)
  | .escape, c :: rest =>
      if c = 117 then normalizeKeyString (.hex 4 3 0 c) rest
      else if c = 85 then normalizeKeyString (.hex 8 7 0 c) rest
      else
        match escaped c with
        | none => .error (ascii "illegal escape char \\" ++ [c])
        | some ch =>
            (normalizeKeyString .plain rest).map (fun dst => ch :: dst)
  | .hex nhex more ucs _, c :: rest =>
      match upperHex c with
      | none => .error (ascii "invalid hex chars for \\u or \\U")
      | some v =>
          match more with
          | more' + 1 =>
              normalizeKeyString (.hex nhex more' (ucs * 16 + v) c) rest
          | 0 =>
              match tomlUcsToUtf8 (ucs * 16 + v) with
              | none => .error (ascii "illegal ucs code in \\u or \\U")
              | some bytes =>
                  (normalizeKeyString .plain rest).map
                    (fun dst => bytes ++ dst)

def isBareKey (c : UInt8) : Bool :=
  Percent.isAlnum c || c == 95 || c == 45

/-- The text between the quotes of a key: three of them where the file has two
more of the first one. -/
def keyBody (t : Token) (mark : UInt8) : Bytes :=
  let ptr := t.text ++ t.rest
  if ptr[1]? = some mark ∧ ptr[2]? = some mark then
    (t.text.drop 3).take (t.text.length - 6)
  else (t.text.drop 1).take (t.text.length - 2)

/-- A key in quotes must not span lines. -/
def oneLine (lineno : Nat) (ret : CString) : Parse CString :=
  if lineFeed ∈ ret.chars then syntaxError lineno "bad key" else .ok ret

/-- {lit}`normalize_key` -/
def normalizeKey (strtok : Token) : Parse CString :=
  if strtok.text.head? = some apostrophe then
    oneLine strtok.lineno (CString.ofBytes (keyBody strtok apostrophe))
  else if strtok.text.head? = some quote then
    match normalizeKeyString .plain (keyBody strtok quote) with
    | .error msg => .error (.error (.line strtok.lineno msg))
    | .ok ret => oneLine strtok.lineno (CString.ofBytes ret)
  else if strtok.text.all isBareKey = true then
    .ok (CString.ofBytes strtok.text)
  else syntaxError strtok.lineno "bad key"

end TomlParser

end Stns
