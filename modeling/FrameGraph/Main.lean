import FrameGraph.CommandLine.Command
import FrameGraph.Identifier
import Std.Time.DateTime

/-!
The command line program.
-/

namespace FrameGraph.CommandLine

def diskFiles : FileAccess IO where
  read? path := do
    try
      return some (← IO.FS.readFile path)
    catch _ => return none
  write path text := do
    try
      IO.FS.writeFile path text
      return true
    catch _ => return false

def now : IO String := do
  let moment ← Std.Time.Timestamp.now
  let d := Std.Time.PlainDateTime.ofWallTime (moment.toWallTime .zero)
  let digits (width : Nat) (n : Int) : String :=
    let text := toString n
    "".pushn '0' (width - text.length) ++ text
  return digits 4 d.date.year.toInt ++ "-" ++ digits 2 d.date.month.val ++ "-" ++
    digits 2 d.date.day.val ++ "T" ++ digits 2 d.time.hour.val ++ ":" ++
    digits 2 d.time.minute.val ++ ":" ++ digits 2 d.time.second.val ++ "+00:00"

def surroundings : IO Surroundings := do
  let bytes ← IO.getRandomBytes 12
  let start := bytes.foldl (fun n byte => 256 * n + byte.toNat) 0
  return {
    registry := Catalog.registry
    supply := fun i => Identifier.numbered (start + i)
    time := ← now }

def usageText : String :=
  "Usage: [-c <file>] [--log-level <level>] <command>\n\n" ++
  "  compile <document> [--tree <name>] [--no-comments]  print the procedures of a document\n" ++
  "  repair <document> [-o <file>]                       assign missing identifiers\n" ++
  "  nodes [--search <term>]                             list the node kinds\n"

def reportUsage : UsageError → IO UInt32
  | .displayHelp => do
    IO.print usageText
    return 0
  | _ => do
    IO.eprint usageText
    return 2

def reportError (error : CommandError) : IO UInt32 := do
  for message in error.messages do
    IO.eprintln message
  return 1

end FrameGraph.CommandLine

open FrameGraph.CommandLine in
def main (words : List String) : IO UInt32 := do
  match Arguments.ofWords words with
  | .error e => reportUsage e
  | .ok arguments =>
    match ← (arguments.configuration diskFiles).run with
    | .error e => reportError e
    | .ok config =>
      match ← (arguments.command.run diskFiles (← surroundings) config).run with
      | .error e => reportError e
      | .ok text =>
        if !text.isEmpty then IO.println text
        return 0
