import FrameGraph.Kind

/-!
The standard kinds whose nodes do their work in a procedure of their own and never change their
sockets.
-/

namespace FrameGraph.Catalog

def socketWith (type : SocketType) (name identifier : String) (value : Value) : Socket :=
  ⟨name, identifier, type, value⟩

def colorMix : Kind where
  declaration :=
    { Declaration.named "an_ColorMix" "Color Mix" with
      category := "Color"
      searchTags := ["Mix Colors", "Blend"] }
  create node :=
    node
      |>.addInput (.ofType .float "Factor" "factor")
      |>.addInput (.ofType .color "Color 1" "a")
      |>.addInput (.ofType .color "Color 2" "b")
      |>.addOutput (.ofType .color "Color" "color")
  code _ _ := .procedure

/-- Merges the vertices of a mesh that are close together. An unset mesh starts empty, so the mesh
module is always needed. -/
def meshRemoveDoubles : Kind where
  declaration :=
    { Declaration.named "an_MeshRemoveDoubles" "Mesh Remove Doubles" with
      category := "Mesh"
      searchTags := ["Merge Vertices"] }
  create node :=
    node
      |>.addInput (.ofType .mesh "Mesh" "bm")
      |>.addInput (socketWith .float "Distance" "distance" (.float (.ofRatio false 1 10000)))
      |>.addOutput (.ofType .mesh "Mesh" "mesh")
  code _ _ := .procedure
  usedModules _ := ["bmesh"]

def objectGroupInput : Kind where
  declaration :=
    { Declaration.named "an_ObjectGroupInput" "Object Group Input" with category := "Object" }
  create node :=
    (node.setProperty "groupName" (.string ""))
      |>.addInput (.ofType .objectGroup "Group" "group")
      |>.addOutput (.ofType .objectList "Objects" "objects")
  code _ _ := .procedure

def thirtyDegrees : Binary64 :=
  .ofRatio false 5235987755982988 (Nat.pow 10 16)

/-- Noise driven rotation. The seed separates nodes that are otherwise equal; a copy keeps it. -/
def eulerWiggle : Kind where
  declaration :=
    { Declaration.named "an_EulerWiggleNode" "Euler Wiggle" with
      category := "Rotation"
      searchTags := ["Random Rotation", "Noise"] }
  create node :=
    (node
      |>.addInput (.ofType .float "Seed" "seed")
      |>.addInput (.ofType .float "Evolution" "evolution")
      |>.addInput (socketWith .float "Speed" "speed" (.float (.ofNat 1)))
      |>.addInput (socketWith .euler "Amplitude" "amplitude"
        (.euler thirtyDegrees thirtyDegrees thirtyDegrees))
      |>.addInput (socketWith .integer "Octaves" "octaves" (.integer 2))
      |>.addInput (socketWith .float "Persistance" "persistance" (.float (.ofRatio false 3 10)))
      |>.addOutput (.ofType .euler "Euler" "euler")).setProperty "nodeSeed" (.integer 0)
  code _ _ := .procedure

def lowerLetters : String := "abcdefghijklmnopqrstuvwxyz"
def upperLetters : String := "ABCDEFGHIJKLMNOPQRSTUVWXYZ"
def digits : String := "0123456789"
def specialCharacters : String := "!$%&/()=?*+#'-_.:,;\""

def allCharacters : String :=
  lowerLetters ++ upperLetters ++ digits ++ specialCharacters

def characters : Kind where
  declaration :=
    { Declaration.named "an_CharactersNode" "Characters" with category := "Text" }
  create node :=
    node
      |>.addOutput (.ofType .string "Lower Case" "lower")
      |>.addOutput (.ofType .string "Upper Case" "upper")
      |>.addOutput (.ofType .string "Digits" "digits")
      |>.addOutput (.ofType .string "Special" "special")
      |>.addOutput (.ofType .string "All" "all")
  code _ _ := .procedure

end FrameGraph.Catalog
