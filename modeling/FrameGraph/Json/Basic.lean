import FrameGraph.Number.Numeral

/-!
JSON values as they are written: members in their order, numbers as numerals.
-/

namespace FrameGraph

/-- A JSON value. A string is `none` when half of a surrogate pair stands alone in it; such a string
may be passed over but has no text. Members may repeat a key. -/
inductive Json
  | null
  | boolean (value : Bool)
  | number (value : Numeral)
  | string (text : Option String)
  | array (items : List Json)
  | object (members : List (Option String × Json))
deriving Inhabited

namespace Json

def ofString (s : String) : Json :=
  string (some s)

def ofMembers (members : List (String × Json)) : Json :=
  object (members.map fun member => (some member.1, member.2))

end Json

end FrameGraph
