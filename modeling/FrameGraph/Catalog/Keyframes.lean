import FrameGraph.Catalog.Procedural

/-!
Nodes that set keyframes on a list of animated properties, which they store as a property.
-/

namespace FrameGraph.Catalog

inductive PathPreset
  | custom
  | location
  | rotation
  | scale
  | locRotScale
deriving DecidableEq, Repr

namespace PathPreset

def all : List PathPreset := [custom, location, rotation, scale, locRotScale]

instance : Inhabited PathPreset := ⟨location⟩

def name : PathPreset → String
  | custom => "Custom"
  | location => "Location"
  | rotation => "Rotation"
  | scale => "Scale"
  | locRotScale => "LocRotScale"

def paths : PathPreset → List String
  | custom => [""]
  | location => ["location"]
  | rotation => ["rotation_euler"]
  | scale => ["scale"]
  | locRotScale => ["location", "rotation_euler", "scale"]

def ofName? (name : String) : Option PathPreset :=
  all.find? (·.name = name)

theorem ofName?_name (preset : PathPreset) : ofName? preset.name = some preset := by
  cases preset <;> decide

def unknownMessage (name : String) : String :=
  "unknown path type: " ++ name

end PathPreset

/-- An animated property; the index -1 means every element of an array. -/
structure KeyframePath where
  path : String
  index : Int64
deriving DecidableEq

namespace KeyframePath

def ofPath (path : String) : KeyframePath := ⟨path, -1⟩

def toValue (path : KeyframePath) : Value :=
  .list [.string path.path, .integer path.index]

def ofValue? : Value → Option KeyframePath
  | .list [.string path, .integer index] => some ⟨path, index⟩
  | _ => none

theorem ofValue?_toValue (path : KeyframePath) : ofValue? path.toValue = some path := rfl

/-- The path before its first dot, if there is one, and what follows. -/
def splitOwner (path : KeyframePath) : Option String × String :=
  let cs := path.path.toList
  match cs.dropWhile (· != '.') with
  | _ :: rest => (some (String.ofList (cs.takeWhile (· != '.'))), String.ofList rest)
  | [] => (none, path.path)

end KeyframePath

namespace SetKeyframes

/-- The stored paths; an entry that is no path is passed over. -/
def paths (node : Node) : List KeyframePath :=
  match node.property? "paths" with
  | some (.list items) => items.filterMap KeyframePath.ofValue?
  | _ => []

def storePaths (node : Node) (paths : List KeyframePath) : Node :=
  node.setProperty "paths" (.list (paths.map KeyframePath.toValue))

def selectedPreset (node : Node) : PathPreset :=
  (((node.property? "selectedPathType").bind Value.asString?).bind PathPreset.ofName?).getD default

def addPath (node : Node) (path : KeyframePath) : Node :=
  storePaths node (paths node ++ [path])

def addPresetPaths (node : Node) : Node :=
  storePaths node (paths node ++ (selectedPreset node).paths.map KeyframePath.ofPath)

def removePath (node : Node) (index : Nat) : Option (KeyframePath × Node) :=
  (paths node)[index]?.map fun removed => (removed, storePaths node ((paths node).eraseIdx index))

end SetKeyframes

def setKeyframes : Kind where
  declaration :=
    { Declaration.named "mn_SetKeyframesNode" "Set Keyframes" with
      category := "Animation"
      searchTags := ["Insert Keyframe"] }
  create node :=
    SetKeyframes.storePaths
      ((node
        |>.addInput (.ofType .boolean "Enable" "enable")
        |>.addInput (.ofType .boolean "Set Keyframe" "setKeyframe")
        |>.addInput (.ofType .boolean "Remove Unwanted" "removeUnwanted")
        |>.addInput (.ofType .object "Object" "object")).setProperty
          "selectedPathType" (.string (default : PathPreset).name)) []
  code _ _ := .procedure

end FrameGraph.Catalog
