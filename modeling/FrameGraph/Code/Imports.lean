/-!
The modules that code imports, each once and in the order of first use.
-/

namespace FrameGraph.Imports

def modules (requested : List String) : List String :=
  (requested.filter (· ≠ "")).eraseDups

def importLine (module : String) : String :=
  "import " ++ module

end FrameGraph.Imports
