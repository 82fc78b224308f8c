import FrameGraph.Code.Lexeme

/-!
Marking names in code. A name directly after a dot and text inside string literals stay as they are.
-/

namespace FrameGraph.Tag

def self : Char := '#'

def input : Char := '%'

def output : Char := '$'

def wrap (tag : Char) (name : String) : String :=
  tag.toString ++ name ++ tag.toString

/-- The code with the marker on both sides of every free-standing occurrence of the name. -/
def tagName (code name : String) (tag : Char) : String :=
  String.join (Lexeme.mapNames (fun text => if text = name then wrap tag text else text) id false
    (Lexeme.lex code))

def tagRepeatedly (code name : String) (tag : Char) : Nat → String
  | 0 => code
  | times + 1 => tagRepeatedly (tagName code name tag) name tag times

end FrameGraph.Tag
