/-!
The shape of generated node identifiers.
-/

namespace FrameGraph.Identifier

def alphabet : List Char :=
  "abcdefghijklmnopqrstuvwxyz0123456789".toList

def randomLength : Nat := 15

def isGenerated (identifier : String) : Bool :=
  match identifier.toList with
  | '_' :: cs => cs.length == randomLength && cs.all fun c => c.isDigit || c.isLower
  | _ => false

/-- The generated identifier for a number. Different numbers below `36 ^ 15` have different ones. -/
def numbered (n : Nat) : String :=
  String.ofList ('_' :: (List.range randomLength).map fun place =>
    alphabet.getD (n / Nat.pow alphabet.length place % alphabet.length) 'a')

end FrameGraph.Identifier
