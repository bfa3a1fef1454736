import Stns.Document.TomlLexer

/-!
# Parsing of a configuration file

The parser of the vendored library, from the text of a file to its tables.  The
tables that the parser reaches by pointers are parts of one tree here; the
table that the next line belongs to is a path into it.  Loops that skip line
endings do not stop at the end of the file.
-/

namespace Stns

namespace TomlParser

/-!
## Tables and arrays under construction
-/

mutual

/-- {lit}`toml_table_t`, with the keys of its members. -/
inductive TableNode where
  | mk (implicit : Bool) (kval : List (CString × CString))
      (arr : List (CString × ArrayNode)) (tab : List (CString × TableNode))

/-- {lit}`toml_array_t`: an array without a kind, of values of one type, of
arrays, or of tables. -/
inductive ArrayNode where
  | untyped
  | values (type : Char) (val : List CString)
  | arrays (arr : List ArrayNode)
  | tables (tab : List TableNode)

end

namespace TableNode

def implicit : TableNode -> Bool
  | mk implicit _ _ _ => implicit

def kval : TableNode -> List (CString × CString)
  | mk _ kval _ _ => kval

def arr : TableNode -> List (CString × ArrayNode)
  | mk _ _ arr _ => arr

def tab : TableNode -> List (CString × TableNode)
  | mk _ _ _ tab => tab

def empty : TableNode :=
  mk false [] [] []

def keys (t : TableNode) : List CString :=
  t.kval.map Prod.fst ++ (t.arr.map Prod.fst ++ t.tab.map Prod.fst)

def addKval (t : TableNode) (key val : CString) : TableNode :=
  mk t.implicit (t.kval ++ [(key, val)]) t.arr t.tab

def addArr (t : TableNode) (key : CString) (a : ArrayNode) : TableNode :=
  mk t.implicit t.kval (t.arr ++ [(key, a)]) t.tab

def addTab (t : TableNode) (key : CString) (next : TableNode) : TableNode :=
  mk t.implicit t.kval t.arr (t.tab ++ [(key, next)])

end TableNode

/-- The member under a key gets another value. -/
def setMember {value : Type} (key : CString) (v : value) :
    List (CString × value) -> List (CString × value)
  | [] => []
  | entry :: rest =>
      if key = entry.1 then (entry.1, v) :: rest
      else entry :: setMember key v rest

namespace TableNode

def setArr (t : TableNode) (key : CString) (a : ArrayNode) : TableNode :=
  mk t.implicit t.kval (setMember key a t.arr) t.tab

def setTab (t : TableNode) (key : CString) (next : TableNode) : TableNode :=
  mk t.implicit t.kval t.arr (setMember key next t.tab)

def explicit (t : TableNode) : TableNode :=
  mk false t.kval t.arr t.tab

end TableNode

/-- The member that has a key. -/
def findMember {value : Type} (key : CString)
    (list : List (CString × value)) : Option value :=
  (list.find? (fun entry => key = entry.1)).map Prod.snd

inductive Found where
  | value
  | array (a : ArrayNode)
  | table (t : TableNode)

/-- {lit}`check_key` -/
def checkKey (tab : TableNode) (key : CString) : Option Found :=
  match findMember key tab.kval with
  | some _ => some .value
  | none =>
      match findMember key tab.arr with
      | some a => some (.array a)
      | none => (findMember key tab.tab).map .table

/-- {lit}`create_keyval_in_table`, with the value that the caller stores. -/
def createKeyvalInTable (tab : TableNode) (keytok : Token) (val : CString) :
    Parse TableNode := do
  let newkey ← normalizeKey keytok
  match checkKey tab newkey with
  | some _ => keyExistsError keytok
  | none => .ok (tab.addKval newkey val)

/-- {lit}`create_keytable_in_table`: the key, the table under it, and the table
it is in. -/
def createKeytableInTable (tab : TableNode) (keytok : Token) :
    Parse (CString × TableNode × TableNode) := do
  let newkey ← normalizeKey keytok
  match checkKey tab newkey with
  | some (.table dest) =>
      if dest.implicit = true then
        .ok (newkey, dest.explicit, tab.setTab newkey dest.explicit)
      else keyExistsError keytok
  | some _ => keyExistsError keytok
  | none =>
      .ok (newkey, TableNode.empty, tab.addTab newkey TableNode.empty)

/-- {lit}`create_keyarray_in_table`; NULL is a key that is there, but not as an
array. -/
def createKeyarrayInTable (tab : TableNode) (keytok : Token)
    (skipIfExist : Bool) : Parse (CString × Option ArrayNode × TableNode) := do
  let newkey ← normalizeKey keytok
  match checkKey tab newkey with
  | some found =>
      if skipIfExist = true then
        match found with
        | .array dest => .ok (newkey, some dest, tab)
        | _ => .ok (newkey, none, tab)
      else keyExistsError keytok
  | none => .ok (newkey, some .untyped, tab.addArr newkey .untyped)

/-!
## Values, arrays and inline tables
-/

/-- {lit}`SKIP_NEWLINES` -/
def skipNewlines : Nat -> Token -> Parse Token
  | 0, _ => .error .fuel
  | fuel + 1, t =>
      if t.tok = .newline then
        if t.eof = true then .error .endless
        else do
          let t ← nextToken false t
          skipNewlines fuel t
      else .ok t

section Values

variable (valtype : CString -> Char)

/-- A value in an array: it sets the kind and the type of the array, or has to
fit them. -/
def pushValue (t : Token) : ArrayNode -> Parse ArrayNode
  | .untyped =>
      let val := CString.ofBytes t.text
      .ok (.values (valtype val) [val])
  | .values type vals =>
      let val := CString.ofBytes t.text
      if type = valtype val then .ok (.values type (vals ++ [val]))
      else syntaxError t.lineno "array type mismatch"
  | _ => syntaxError t.lineno "a string array can only contain strings"

/-- The arrays of an array that can take one more. -/
def arraysOf (t : Token) : ArrayNode -> Parse (List ArrayNode)
  | .untyped => .ok []
  | .arrays list => .ok list
  | _ => syntaxError t.lineno "array type mismatch"

/-- The tables of an array that can take one more. -/
def tablesOf (t : Token) : ArrayNode -> Parse (List TableNode)
  | .untyped => .ok []
  | .tables list => .ok list
  | _ => syntaxError t.lineno "array type mismatch"

mutual

/-- The loop of {lit}`parse_table`, behind its brace. -/
def parseTable : Nat -> Token -> TableNode -> Parse (Token × TableNode)
  | 0, _, _ => .error .fuel
  | fuel + 1, t, tab => do
      let t ← skipNewlines (fuel + 1) t
      match t.tok with
      | .rbrace => return (← nextToken false t, tab)
      | .string =>
          let (t, tab) ← parseKeyval fuel t tab
          let t ← skipNewlines (fuel + 1) t
          match t.tok with
          | .comma =>
              let t ← nextToken false t
              parseTable fuel t tab
          | .rbrace => return (← nextToken false t, tab)
          | _ => syntaxError t.lineno "syntax error"
      | _ => syntaxError t.lineno "syntax error"

/-- The loop of {lit}`parse_array`, behind its bracket. -/
def parseArray : Nat -> Token -> ArrayNode -> Parse (Token × ArrayNode)
  | 0, _, _ => .error .fuel
  | fuel + 1, t, arr => do
      let t ← skipNewlines (fuel + 1) t
      match t.tok with
      | .rbracket => return (← nextToken false t, arr)
      | _ =>
          let (t, arr) ← parseElement fuel t arr
          let t ← skipNewlines (fuel + 1) t
          match t.tok with
          | .comma =>
              let t ← nextToken false t
              parseArray fuel t arr
          | .rbracket => return (← nextToken false t, arr)
          | _ => syntaxError t.lineno "syntax error"

/-- An element of an array. -/
def parseElement : Nat -> Token -> ArrayNode -> Parse (Token × ArrayNode)
  | 0, _, _ => .error .fuel
  | fuel + 1, t, arr =>
      match t.tok with
      | .string => do
          let arr ← pushValue valtype t arr
          return (← nextToken false t, arr)
      | .lbracket => do
          let list ← arraysOf t arr
          let (t, element) ← parseArray fuel (← nextToken false t) .untyped
          return (t, .arrays (list ++ [element]))
      | .lbrace => do
          let list ← tablesOf t arr
          let (t, element) ←
            parseTable fuel (← nextToken false t) TableNode.empty
          return (t, .tables (list ++ [element]))
      | _ => syntaxError t.lineno "syntax error"

/-- {lit}`parse_keyval` -/
def parseKeyval : Nat -> Token -> TableNode -> Parse (Token × TableNode)
  | 0, _, _ => .error .fuel
  | fuel + 1, key, tab =>
      if key.tok ≠ .string then internalError
      else do
        let t ← nextToken false key
        if t.tok ≠ .equal then syntaxError t.lineno "missing ="
        else
          let t ← nextToken false t
          match t.tok with
          | .string =>
              let tab ← createKeyvalInTable tab key (CString.ofBytes t.text)
              return (← nextToken false t, tab)
          | .lbracket =>
              let (newkey, _, tab) ← createKeyarrayInTable tab key false
              let (t, arr) ← parseArray fuel (← nextToken false t) .untyped
              return (t, tab.setArr newkey arr)
          | .lbrace =>
              let (newkey, nxttab, tab) ← createKeytableInTable tab key
              let (t, nxttab) ← parseTable fuel (← nextToken false t) nxttab
              return (t, tab.setTab newkey nxttab)
          | _ => syntaxError t.lineno "syntax error"

end

end Values

/-!
## Table headers
-/

/-- A step down from a table: to the table under a key, or to the last table of
the array under a key. -/
inductive PathStep where
  | sub (key : CString)
  | last (key : CString)

/-- The last table of an array of tables, and the array with another one in its
place. -/
def lastTable : ArrayNode -> Option (TableNode × (TableNode -> ArrayNode))
  | .tables list =>
      match list.getLast? with
      | none => none
      | some t => some (t, fun t' => .tables (list.dropLast ++ [t']))
  | _ => none

/-- A change of the table at the end of a path. -/
def atPath {value : Type}
    (change : TableNode -> Parse (value × TableNode)) :
    List PathStep -> TableNode -> Parse (value × TableNode)
  | [], tab => change tab
  | .sub key :: path, tab =>
      match findMember key tab.tab with
      | none => internalError
      | some next => do
          let (v, next) ← atPath change path next
          return (v, tab.setTab key next)
  | .last key :: path, tab =>
      match (findMember key tab.arr).bind lastTable with
      | none => internalError
      | some (next, back) => do
          let (v, next) ← atPath change path next
          return (v, tab.setArr key (back next))

/-- The keys of a header up to its bracket; {lit}`room` more of them fit into
{lit}`tpath`. -/
def fillTabpath (lineno : Nat) :
    Nat -> Token -> Parse (List (CString × Token) × Token)
  | 0, _ => syntaxError lineno "table path is too deep; max allowed is 10."
  | room + 1, t =>
      if t.tok ≠ .string then syntaxError lineno "invalid or missing key"
      else do
        let key ← normalizeKey t
        let next ← nextToken true t
        match next.tok with
        | .rbracket => return ([(key, t)], next)
        | .dot =>
            let (path, t') ← fillTabpath lineno room (← nextToken true next)
            return ((key, t) :: path, t')
        | _ => syntaxError lineno "invalid key"

/-- {lit}`walk_tabpath`: the path that the keys stand for, and the table with
the tables that were not there. -/
def walkTabpath : List (CString × Token) -> TableNode ->
    Parse (List PathStep × TableNode)
  | [], tab => .ok ([], tab)
  | (key, tok) :: rest, tab =>
      match checkKey tab key with
      | some (.table next) => do
          let (path, next) ← walkTabpath rest next
          return (.sub key :: path, tab.setTab key next)
      | some (.array a) =>
          match lastTable a with
          | none => internalError
          | some (next, back) => do
              let (path, next) ← walkTabpath rest next
              return (.last key :: path, tab.setArr key (back next))
      | some .value => keyExistsError tok
      | none => do
          let (path, next) ← walkTabpath rest (.mk true [] [] [])
          return (.sub key :: path, tab.addTab key next)

/-- The table that a header in double brackets adds to its array. -/
def addToArray (z : Token) (tab : TableNode) :
    Parse (PathStep × TableNode) := do
  let (key, found, tab) ← createKeyarrayInTable tab z true
  match found with
  | none => syntaxError z.lineno "key exists"
  | some .untyped =>
      return (.last key, tab.setArr key (.tables [TableNode.empty]))
  | some (.tables list) =>
      return (.last key, tab.setArr key (.tables (list ++ [TableNode.empty])))
  | some _ => syntaxError z.lineno "array mismatch"

/-- The table that a header in brackets creates. -/
def addTable (z : Token) (tab : TableNode) : Parse (PathStep × TableNode) := do
  let (key, _, tab) ← createKeytableInTable tab z
  return (.sub key, tab)

/-- The next token, where a header has a second bracket. -/
def nextIf (double dotisspecial : Bool) (t : Token) : Parse Token :=
  if double = true then nextToken dotisspecial t else .ok t

/-- {lit}`parse_select`: the token behind the header, the path to the table that
it selects, and the root. -/
def parseSelect (t : Token) (root : TableNode) :
    Parse (Token × List PathStep × TableNode) := do
  let first ← nextToken true t
  let double := decide (first.tok = .lbracket)
  let t ← nextIf double true first
  let (tpath, next) ← fillTabpath t.lineno 10 t
  match tpath.getLast? with
  | none => syntaxError t.lineno "empty table selector"
  | some (_, z) =>
      let (path, root) ← walkTabpath tpath.dropLast root
      let (step, root) ←
        atPath (if double = true then addToArray z else addTable z) path root
      if next.tok ≠ .rbracket then syntaxError next.lineno "expects ]"
      else
        let t ← nextToken false next
        if double = true ∧ t.tok ≠ .rbracket then
          syntaxError t.lineno "expects ]]"
        else
          let t ← nextIf double false t
          if t.tok ≠ .newline then
            syntaxError t.lineno "extra chars after ] or ]]"
          else return (t, path ++ [step], root)

/-!
## Files
-/

section Files

variable (valtype : CString -> Char)

/-- The loop of {lit}`toml_parse`; {lit}`curtab` is the path to the current
table. -/
def parseLines : Nat -> Token -> List PathStep -> TableNode ->
    Parse TableNode
  | 0, _, _, _ => .error .fuel
  | fuel + 1, tok, curtab, root =>
      if tok.eof = true then .ok root
      else
        match tok.tok with
        | .newline => do
            let t ← nextToken true tok
            parseLines fuel t curtab root
        | .string => do
            let (t, root) ←
              atPath (parseKeyval valtype fuel tok) curtab root
            if t.tok ≠ .newline then
              syntaxError t.lineno "extra chars after value"
            else
              let t ← nextToken false t
              parseLines fuel t curtab root
        | .lbracket => do
            let (t, curtab, root) ← parseSelect tok root
            parseLines fuel t curtab root
        | _ => syntaxError tok.lineno "syntax error"

/-- A bound for the steps of a parse. -/
def enoughFuel (conf : Bytes) : Nat :=
  2 * conf.length + 4

/-- {lit}`toml_parse` -/
def tomlParse (conf : CString) : Parse TableNode :=
  parseLines valtype (enoughFuel conf.chars) ⟨.newline, 1, [], conf.chars,
    false⟩ [] TableNode.empty

/-- {lit}`toml_parse_file`, from the content of the file on; its {lit}`int`
offsets reach files below 2^31 bytes. -/
def tomlParseFile (content : Bytes) : Parse TableNode :=
  tomlParse valtype (CString.ofBytes content)

end Files

end TomlParser

end Stns
