import FrameGraph.Number.Shortest
import FrameGraph.Value

/-!
The literals that stand for values in host code, and the modules that these literals need.
-/

namespace FrameGraph

/-- Host code writes floats positionally from `0.0001` to below `1e16`, leaves out the plus sign of
an exponent, and takes the upper of two equally near decimals. -/
def hostLayout : DecimalLayout where
  positionalFrom := -4
  positionalBelow := 16
  plusSign := false
  tie := .up

def floatText (x : Binary64) : String :=
  if x.isFinite then (hostLayout.ofBinary64 x).text
  else if x.isNaN then "NaN"
  else if x.isNegative then "-inf"
  else "inf"

def floatLiteral (x : Binary64) : String :=
  if x.isFinite then (hostLayout.ofBinary64 x).text
  else if x.isNaN then "float('nan')"
  else if x.isNegative then "float('-inf')"
  else "float('inf')"

def escapeLiteralChar : Char → List Char
  | '"' => ['\\', '"']
  | '\\' => ['\\', '\\']
  | '\n' => ['\\', 'n']
  | '\r' => ['\\', 'r']
  | '\t' => ['\\', 't']
  | c => [c]

def stringLiteral (s : String) : String :=
  "\"" ++ String.ofList (s.toList.flatMap escapeLiteralChar) ++ "\""

namespace Value

def floatList (xs : List Binary64) : String :=
  ", ".intercalate (xs.map floatLiteral)

mutual

/-- The host expression for a value. Vectors and rotations are built by the host's math module. -/
def literal : Value → String
  | .none => "None"
  | .float x => floatLiteral x
  | .integer n => toString n.toInt
  | .boolean b => if b then "True" else "False"
  | .string s => stringLiteral s
  | .vector x y z => "mathutils.Vector((" ++ floatList [x, y, z] ++ "))"
  | .euler x y z => "mathutils.Euler((" ++ floatList [x, y, z] ++ "))"
  | .quaternion w x y z => "mathutils.Quaternion((" ++ floatList [w, x, y, z] ++ "))"
  | .color r g b a => "(" ++ floatList [r, g, b, a] ++ ")"
  | .list items => "[" ++ ", ".intercalate (literals items) ++ "]"

def literals : List Value → List String
  | [] => []
  | item :: items => item.literal :: literals items

end

mutual

/-- The module that the literal refers to; of several items the first that needs one. -/
def requiredModule? : Value → Option String
  | .vector .. | .euler .. | .quaternion .. => some "mathutils"
  | .list items => firstRequiredModule? items
  | _ => Option.none

def firstRequiredModule? : List Value → Option String
  | [] => Option.none
  | item :: items =>
    match item.requiredModule? with
    | some module => some module
    | Option.none => firstRequiredModule? items

end

@[simp] theorem literals_eq_map (items : List Value) : literals items = items.map literal := by
  induction items with
  | nil => rfl
  | cons item items ih => simp [literals, ih]

@[simp] theorem firstRequiredModule?_eq (items : List Value) :
    firstRequiredModule? items = items.findSome? requiredModule? := by
  induction items with
  | nil => rfl
  | cons item items ih =>
    simp only [firstRequiredModule?, List.findSome?_cons, ih]
    cases item.requiredModule? <;> rfl

end Value

end FrameGraph
