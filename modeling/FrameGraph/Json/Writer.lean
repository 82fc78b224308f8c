import FrameGraph.Json.Basic

/-!
Writing JSON text: over several lines, with two spaces for each level, or in one line.
-/

namespace FrameGraph.Json

def hexDigit (n : Nat) : Char :=
  if n < 10 then Char.ofNat ('0'.toNat + n) else Char.ofNat ('a'.toNat + (n - 10))

def escapeChar (c : Char) : List Char :=
  match c with
  | '"' => ['\\', '"']
  | '\\' => ['\\', '\\']
  | '\x08' => ['\\', 'b']
  | '\x0c' => ['\\', 'f']
  | '\n' => ['\\', 'n']
  | '\r' => ['\\', 'r']
  | '\t' => ['\\', 't']
  | c =>
    if c.toNat < 32 then ['\\', 'u', '0', '0', hexDigit (c.toNat / 16), hexDigit (c.toNat % 16)]
    else [c]

def quoted (s : String) : String :=
  "\"" ++ String.ofList (s.toList.flatMap escapeChar) ++ "\""

/-- A string without a text is written as one unpaired surrogate. -/
def writeString : Option String → String
  | some s => quoted s
  | none => "\"\\ud800\""

def newLine (level : Nat) : String :=
  "\n" ++ String.ofList (List.replicate (2 * level) ' ')

mutual

def writeValue (level : Nat) : Json → String
  | null => "null"
  | boolean true => "true"
  | boolean false => "false"
  | number value => value.text
  | string text => writeString text
  | array [] => "[]"
  | array (item :: items) =>
    "[" ++ newLine (level + 1) ++ writeValue (level + 1) item ++ writeItems level items
  | object [] => "\x7b\x7d"
  | object ((key, value) :: members) =>
    "\x7b" ++ newLine (level + 1) ++ writeString key ++ ": " ++ writeValue (level + 1) value ++
      writeMembers level members

def writeItems (level : Nat) : List Json → String
  | [] => newLine level ++ "]"
  | item :: items =>
    "," ++ newLine (level + 1) ++ writeValue (level + 1) item ++ writeItems level items

def writeMembers (level : Nat) : List (Option String × Json) → String
  | [] => newLine level ++ "\x7d"
  | (key, value) :: members =>
    "," ++ newLine (level + 1) ++ writeString key ++ ": " ++ writeValue (level + 1) value ++
      writeMembers level members

end

def pretty (value : Json) : String :=
  writeValue 0 value

mutual

def compact : Json → String
  | null => "null"
  | boolean true => "true"
  | boolean false => "false"
  | number value => value.text
  | string text => writeString text
  | array items => "[" ++ ",".intercalate (compactItems items) ++ "]"
  | object members => "\x7b" ++ ",".intercalate (compactMembers members) ++ "\x7d"

def compactItems : List Json → List String
  | [] => []
  | item :: items => compact item :: compactItems items

def compactMembers : List (Option String × Json) → List String
  | [] => []
  | (key, value) :: members =>
    (writeString key ++ ":" ++ compact value) :: compactMembers members

end

end FrameGraph.Json
