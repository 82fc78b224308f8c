/-!
The ways in which an edit of a tree is refused.
-/

namespace FrameGraph

inductive EditError
  | unknownKind (kind : String)
  | nodeNotFound (node : String)
  | socketNotFound (node socket : String)
  | treeNotFound (tree : String)
deriving DecidableEq, Repr

namespace EditError

def message : EditError → String
  | unknownKind kind => "unknown node kind '" ++ kind ++ "'"
  | nodeNotFound node => "node '" ++ node ++ "' not found"
  | socketNotFound node socket => "socket '" ++ socket ++ "' not found on node '" ++ node ++ "'"
  | treeNotFound tree => "tree '" ++ tree ++ "' not found"

end EditError

end FrameGraph
