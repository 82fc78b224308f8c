import FrameGraph.CommandLine.Command

/-!
Files in memory. A path is relative to one directory; a directory is there if a file is in it, or if
it lies on the way up from that one.
-/

namespace FrameGraph.CommandLine

/-- Files by path, without `.`, and with `..` only at its start. -/
structure MemoryFiles where
  files : List (String × String)
deriving DecidableEq, Repr

namespace MemoryFiles

def joinPath (parts : List String) : String :=
  "/".intercalate parts

def isDirectory (memory : MemoryFiles) (parts : List String) : Bool :=
  parts.all (· = "..") || memory.files.any fun file => (joinPath parts ++ "/").isPrefixOf file.1

def parent (directory : List String) : List String :=
  if directory.all (· = "..") then directory ++ [".."] else directory.dropLast

def nameLimit : Nat := 255

def pathLimit : Nat := 4095

/-- Follows the parts of a path; what is on the way must be a directory. -/
def follow (memory : MemoryFiles) (directory : List String) : List String → Option (List String)
  | [] => none
  | [part] =>
    if part ∈ ["", ".", ".."] || nameLimit < part.utf8ByteSize then none
    else some (directory ++ [part])
  | part :: rest =>
    if part ∈ ["", "."] then follow memory directory rest
    else if part = ".." then follow memory (parent directory) rest
    else if memory.isDirectory (directory ++ [part]) then follow memory (directory ++ [part]) rest
    else none

def locate? (memory : MemoryFiles) (path : String) : Option String := do
  if path.startsWith "/" || path.contains '\x00' || pathLimit < path.utf8ByteSize then none
  else
    let parts ← memory.follow [] (path.splitOn "/")
    if memory.isDirectory parts then none else some (joinPath parts)

/-- A file that is always empty: what is written to it is lost. It alone has an absolute path. -/
def nullDevice : String := "/dev/null"

def read? (memory : MemoryFiles) (path : String) : Option String := do
  if path = nullDevice then some "" else memory.files.lookup (← memory.locate? path)

def write? (memory : MemoryFiles) (path text : String) : Option MemoryFiles := do
  if path = nullDevice then return memory
  let name ← memory.locate? path
  return ⟨(name, text) :: memory.files.filter (·.1 ≠ name)⟩

def access : FileAccess (StateM MemoryFiles) where
  read? path := return (← get).read? path
  write path text := do
    match (← get).write? path text with
    | some memory =>
      set memory
      return true
    | none => return false

end MemoryFiles

end FrameGraph.CommandLine
