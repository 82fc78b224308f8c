import FrameGraph.Text.Hexadecimal

/-!
The characters of TOML: white space, comments, and the four kinds of strings. A reader gives what it
has read and the rest of the text.
-/

namespace FrameGraph.Toml

def isBlank (c : Char) : Bool :=
  c == ' ' || c == '\t'

def skipBlank (cs : List Char) : List Char :=
  cs.dropWhile isBlank

/-- A tab and the printing characters; every character beyond ASCII counts as printing. -/
def isPlain (c : Char) : Bool :=
  c == '\t' || (' ' ≤ c && c ≤ '~') || 128 ≤ c.toNat

def newline? : List Char → Option (List Char)
  | '\n' :: rest => some rest
  | '\r' :: '\n' :: rest => some rest
  | _ => none

def skipComment : List Char → List Char
  | '#' :: rest => rest.dropWhile isPlain
  | rest => rest

/-- Passes over white space and a comment to the start of the next line or to the end. -/
def lineEnd? (cs : List Char) : Option (List Char) :=
  match skipComment (skipBlank cs) with
  | [] => some []
  | rest => newline? rest

/-- Passes over white space, comments and newlines. Every round passes at least one newline, so the
number of characters is fuel enough. -/
def skipLines : Nat → List Char → List Char
  | 0, cs => cs
  | fuel + 1, cs =>
    match skipBlank cs with
    | [] => []
    | c :: rest =>
      match newline? (skipComment (c :: rest)) with
      | some rest => skipLines fuel rest
      | none => c :: rest

/-! ### Strings -/

def charOfHex? (digits : List Char) : Option Char := do
  let n ← hexNumber? digits
  if n < 0xD800 || (0xE000 ≤ n && n < 0x110000) then some (Char.ofNat n) else none

def escape? : List Char → Option (Char × List Char)
  | 'b' :: rest => some ('\x08', rest)
  | 'f' :: rest => some ('\x0c', rest)
  | 'n' :: rest => some ('\n', rest)
  | 'r' :: rest => some ('\r', rest)
  | 't' :: rest => some ('\t', rest)
  | '"' :: rest => some ('"', rest)
  | '\\' :: rest => some ('\\', rest)
  | 'u' :: rest =>
    if 4 ≤ rest.length then (charOfHex? (rest.take 4)).map fun c => (c, rest.drop 4) else none
  | 'U' :: rest =>
    if 8 ≤ rest.length then (charOfHex? (rest.take 8)).map fun c => (c, rest.drop 8) else none
  | _ => none

/-- A string between double quotes, after the opening one; `taken` is what has been read of it,
backwards. Every round passes at least one character. -/
def readBasic (taken : List Char) : Nat → List Char → Option (String × List Char)
  | 0, _ | _, [] => none
  | _, '"' :: rest => some (String.ofList taken.reverse, rest)
  | fuel + 1, '\\' :: rest => do
    let (c, rest) ← escape? rest
    readBasic (c :: taken) fuel rest
  | fuel + 1, c :: rest => if isPlain c then readBasic (c :: taken) fuel rest else none

def skipSpace : List Char → List Char
  | ' ' :: rest | '\t' :: rest | '\n' :: rest | '\r' :: '\n' :: rest => skipSpace rest
  | rest => rest

/-- A string between triple double quotes, after the first newline. Up to two quotes may stand right
before the closing ones. A backslash at the end of a line joins it to the next character that is not
white space. -/
def readLongBasic (taken : List Char) : Nat → List Char → Option (String × List Char)
  | 0, _ | _, [] => none
  | _, '"' :: '"' :: '"' :: '"' :: '"' :: rest =>
    some (String.ofList ('"' :: '"' :: taken).reverse, rest)
  | _, '"' :: '"' :: '"' :: '"' :: rest => some (String.ofList ('"' :: taken).reverse, rest)
  | _, '"' :: '"' :: '"' :: rest => some (String.ofList taken.reverse, rest)
  | fuel + 1, '\\' :: rest =>
    match newline? (skipBlank rest) with
    | some rest => readLongBasic taken fuel (skipSpace rest)
    | none => do
      let (c, rest) ← escape? rest
      readLongBasic (c :: taken) fuel rest
  | fuel + 1, c :: rest =>
    match newline? (c :: rest) with
    | some rest => readLongBasic ('\n' :: taken) fuel rest
    | none => if isPlain c then readLongBasic (c :: taken) fuel rest else none

def readLiteral (cs : List Char) : Option (String × List Char) :=
  let inside (c : Char) := isPlain c && c != '\''
  match cs.dropWhile inside with
  | '\'' :: rest => some (String.ofList (cs.takeWhile inside), rest)
  | _ => none

def readLongLiteral (taken : List Char) : Nat → List Char → Option (String × List Char)
  | 0, _ | _, [] => none
  | _, '\'' :: '\'' :: '\'' :: '\'' :: '\'' :: rest =>
    some (String.ofList ('\'' :: '\'' :: taken).reverse, rest)
  | _, '\'' :: '\'' :: '\'' :: '\'' :: rest => some (String.ofList ('\'' :: taken).reverse, rest)
  | _, '\'' :: '\'' :: '\'' :: rest => some (String.ofList taken.reverse, rest)
  | fuel + 1, c :: rest =>
    match newline? (c :: rest) with
    | some rest => readLongLiteral ('\n' :: taken) fuel rest
    | none => if isPlain c then readLongLiteral (c :: taken) fuel rest else none

def skipFirstNewline (cs : List Char) : List Char :=
  (newline? cs).getD cs

def readString : List Char → Option (String × List Char)
  | '"' :: '"' :: '"' :: rest => readLongBasic [] rest.length (skipFirstNewline rest)
  | '"' :: rest => readBasic [] rest.length rest
  | '\'' :: '\'' :: '\'' :: rest => readLongLiteral [] rest.length (skipFirstNewline rest)
  | '\'' :: rest => readLiteral rest
  | _ => none

/-! ### Keys -/

def isBareKey (c : Char) : Bool :=
  c.isAlphanum || c == '_' || c == '-'

def readSimpleKey : List Char → Option (String × List Char)
  | '"' :: rest => readBasic [] rest.length rest
  | '\'' :: rest => readLiteral rest
  | cs =>
    if (cs.takeWhile isBareKey).isEmpty then none
    else some (String.ofList (cs.takeWhile isBareKey), cs.dropWhile isBareKey)

def readParts : Nat → List Char → Option (List String × List Char)
  | 0, _ => none
  | fuel + 1, cs => do
    let (part, rest) ← readSimpleKey (skipBlank cs)
    match skipBlank rest with
    | '.' :: rest => do
      let (parts, rest) ← readParts fuel rest
      return (part :: parts, rest)
    | rest => return ([part], rest)

/-- The number of parts, and of arrays and tables inside each other, that is refused. -/
def depthLimit : Nat := 80

def readKey (cs : List Char) : Option (List String × List Char) :=
  readParts (depthLimit - 1) cs

end FrameGraph.Toml
