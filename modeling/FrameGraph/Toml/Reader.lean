import FrameGraph.Toml.Number
import FrameGraph.Toml.Text

/-!
Reading TOML documents.
-/

namespace FrameGraph.Toml

def readItems (readItem : List Char → Option (Toml × List Char)) :
    Nat → List Char → Option (List Toml × List Char)
  | 0, _ => none
  | fuel + 1, cs =>
    match skipLines cs.length cs with
    | ']' :: rest => some ([], rest)
    | cs => do
      let (item, rest) ← readItem cs
      match skipLines rest.length rest with
      | ',' :: rest => do
        let (items, rest) ← readItems readItem fuel rest
        return (item :: items, rest)
      | ']' :: rest => return ([item], rest)
      | _ => none

def readPair (readItem : List Char → Option (Toml × List Char)) (cs : List Char) :
    Option ((List String × Toml) × List Char) := do
  let (path, rest) ← readKey cs
  let '=' :: rest := rest | none
  let (value, rest) ← readItem (skipBlank rest)
  return ((path, value), rest)

def readPairs (readItem : List Char → Option (Toml × List Char)) :
    Nat → List Char → Option (List (List String × Toml) × List Char)
  | 0, _ => none
  | fuel + 1, cs => do
    let (pair, rest) ← readPair readItem cs
    match skipBlank rest with
    | ',' :: rest => do
      let (pairs, rest) ← readPairs readItem fuel rest
      return (pair :: pairs, rest)
    | '}' :: rest => return ([pair], rest)
    | _ => none

/-- A value in which fewer arrays and tables are inside each other than the given number. -/
def readValue : Nat → List Char → Option (Toml × List Char)
  | depth, cs =>
    match cs with
    | '"' :: _ | '\'' :: _ => (readString cs).map fun (text, rest) => (.string text, rest)
    | 't' :: 'r' :: 'u' :: 'e' :: rest => some (.boolean true, rest)
    | 'f' :: 'a' :: 'l' :: 's' :: 'e' :: rest => some (.boolean false, rest)
    | '[' :: rest =>
      match depth with
      | 0 => none
      | depth + 1 =>
        (readItems (readValue depth) (rest.length + 1) rest).map fun (items, rest) =>
          (.array items, rest)
    | '\x7b' :: rest =>
      match depth with
      | 0 => none
      | depth + 1 =>
        match skipBlank rest with
        | '}' :: rest => some (.table .inline [], rest)
        | rest => do
          let (pairs, rest) ← readPairs (readValue depth) (rest.length + 1) rest
          return (.table .inline (← TomlEntries.ofInline? pairs), rest)
    | cs => readNumber cs

def readLine : List Char → Option (TomlLine × List Char)
  | '[' :: '[' :: rest => do
    let (path, rest) ← readKey rest
    let ']' :: ']' :: rest := rest | none
    return (.tableItem path, ← lineEnd? rest)
  | '[' :: rest => do
    let (path, rest) ← readKey rest
    let ']' :: rest := rest | none
    return (.table path, ← lineEnd? rest)
  | cs => do
    let ((path, value), rest) ← readPair (readValue (depthLimit - 1)) cs
    return (.entry path value, ← lineEnd? rest)

/-- The lines of a document. Every line has characters, so their number is fuel enough. -/
def readLines : Nat → List Char → Option (List TomlLine)
  | 0, _ => none
  | fuel + 1, cs =>
    match skipBlank cs with
    | [] => some []
    | '#' :: rest => do readLines fuel (← lineEnd? ('#' :: rest))
    | cs =>
      match newline? cs with
      | some rest => readLines fuel rest
      | none => do
        let (line, rest) ← readLine cs
        return line :: (← readLines fuel rest)

/-- Reads a document. A byte order mark in front is passed over. -/
def parse? (text : String) : Option TomlEntries := do
  let cs := match text.toList with
    | '\uFEFF' :: rest => rest
    | cs => cs
  TomlEntries.ofLines? (← readLines (cs.length + 1) cs)

end FrameGraph.Toml
