import FrameGraph.Number.Binary64

/-!
The values that sockets and properties hold, and the types of sockets.
-/

namespace FrameGraph

/-- A value stored on a socket or a property. A quaternion starts with its real part and a colour
ends with its opacity. -/
inductive Value
  | none
  | float (x : Binary64)
  | integer (n : Int64)
  | boolean (b : Bool)
  | string (s : String)
  | vector (x y z : Binary64)
  | euler (x y z : Binary64)
  | quaternion (w x y z : Binary64)
  | color (r g b a : Binary64)
  | list (items : List Value)
deriving Inhabited

namespace Value

mutual

private def decideEq : (a b : Value) → Decidable (a = b)
  | .none, b => match b with
    | .none => isTrue rfl
    | .float _ | .integer _ | .boolean _ | .string _ | .vector .. | .euler .. | .quaternion ..
    | .color .. | .list _ => isFalse (by simp)
  | .float x, b => match b with
    | .float y => decidable_of_iff (x = y) (by simp)
    | .none | .integer _ | .boolean _ | .string _ | .vector .. | .euler .. | .quaternion ..
    | .color .. | .list _ => isFalse (by simp)
  | .integer m, b => match b with
    | .integer n => decidable_of_iff (m = n) (by simp)
    | .none | .float _ | .boolean _ | .string _ | .vector .. | .euler .. | .quaternion ..
    | .color .. | .list _ => isFalse (by simp)
  | .boolean p, b => match b with
    | .boolean q => decidable_of_iff (p = q) (by simp)
    | .none | .float _ | .integer _ | .string _ | .vector .. | .euler .. | .quaternion ..
    | .color .. | .list _ => isFalse (by simp)
  | .string s, b => match b with
    | .string t => decidable_of_iff (s = t) (by simp)
    | .none | .float _ | .integer _ | .boolean _ | .vector .. | .euler .. | .quaternion ..
    | .color .. | .list _ => isFalse (by simp)
  | .vector x y z, b => match b with
    | .vector x' y' z' => decidable_of_iff (x = x' ∧ y = y' ∧ z = z') (by simp)
    | .none | .float _ | .integer _ | .boolean _ | .string _ | .euler .. | .quaternion ..
    | .color .. | .list _ => isFalse (by simp)
  | .euler x y z, b => match b with
    | .euler x' y' z' => decidable_of_iff (x = x' ∧ y = y' ∧ z = z') (by simp)
    | .none | .float _ | .integer _ | .boolean _ | .string _ | .vector .. | .quaternion ..
    | .color .. | .list _ => isFalse (by simp)
  | .quaternion w x y z, b => match b with
    | .quaternion w' x' y' z' =>
      decidable_of_iff (w = w' ∧ x = x' ∧ y = y' ∧ z = z') (by simp)
    | .none | .float _ | .integer _ | .boolean _ | .string _ | .vector .. | .euler ..
    | .color .. | .list _ => isFalse (by simp)
  | .color r g b a, c => match c with
    | .color r' g' b' a' => decidable_of_iff (r = r' ∧ g = g' ∧ b = b' ∧ a = a') (by simp)
    | .none | .float _ | .integer _ | .boolean _ | .string _ | .vector .. | .euler ..
    | .quaternion .. | .list _ => isFalse (by simp)
  | .list items, b => match b with
    | .list others =>
      match decideListEq items others with
      | isTrue h => isTrue (by rw [h])
      | isFalse h => isFalse (by simpa using h)
    | .none | .float _ | .integer _ | .boolean _ | .string _ | .vector .. | .euler ..
    | .quaternion .. | .color .. => isFalse (by simp)

private def decideListEq : (as bs : List Value) → Decidable (as = bs)
  | [], [] => isTrue rfl
  | [], _ :: _ => isFalse (by simp)
  | _ :: _, [] => isFalse (by simp)
  | a :: as, b :: bs =>
    match decideEq a b, decideListEq as bs with
    | isTrue h, isTrue hs => isTrue (by rw [h, hs])
    | isFalse h, _ => isFalse (by simp [h])
    | _, isFalse hs => isFalse (by simp [hs])

end

instance : DecidableEq Value :=
  decideEq

def asString? : Value → Option String
  | .string s => some s
  | _ => Option.none

def asInteger? : Value → Option Int64
  | .integer n => some n
  | _ => Option.none

end Value

/-- What a socket carries. A generic socket accepts every value; an empty socket exists only to be
linked. -/
inductive SocketType
  | float
  | integer
  | boolean
  | string
  | vector
  | euler
  | quaternion
  | color
  | object
  | objectList
  | objectGroup
  | mesh
  | generic
  | empty
deriving DecidableEq, Repr

namespace SocketType

def all : List SocketType :=
  [float, integer, boolean, string, vector, euler, quaternion, color, object, objectList,
    objectGroup, mesh, generic, empty]

theorem mem_all (t : SocketType) : t ∈ all := by
  cases t <;> decide

def name : SocketType → String
  | float => "Float"
  | integer => "Integer"
  | boolean => "Boolean"
  | string => "String"
  | vector => "Vector"
  | euler => "Euler"
  | quaternion => "Quaternion"
  | color => "Color"
  | object => "Object"
  | objectList => "ObjectList"
  | objectGroup => "ObjectGroup"
  | mesh => "Mesh"
  | generic => "Generic"
  | empty => "Empty"

def idName (t : SocketType) : String :=
  "an_" ++ t.name ++ "Socket"

def ofName? (name : String) : Option SocketType :=
  all.find? (·.name = name)

def ofIdName? (idName : String) : Option SocketType :=
  all.find? (·.idName = idName)

theorem ofName?_name (t : SocketType) : ofName? t.name = some t := by
  cases t <;> decide

theorem ofIdName?_idName (t : SocketType) : ofIdName? t.idName = some t := by
  cases t <;> decide

def defaultValue : SocketType → Value
  | float => .float .zero
  | integer => .integer 0
  | boolean => .boolean false
  | string => .string ""
  | vector => .vector .zero .zero .zero
  | euler => .euler .zero .zero .zero
  | quaternion => .quaternion (.ofNat 1) .zero .zero .zero
  | color => .color .zero .zero .zero (.ofNat 1)
  | objectList => .list []
  | object | objectGroup | mesh | generic | empty => .none

def requiredModule? : SocketType → Option String
  | vector | euler | quaternion => some "mathutils"
  | mesh => some "bmesh"
  | _ => Option.none

def feeds : SocketType → SocketType → Bool
  | generic, _ | _, generic | empty, _ | _, empty => true
  | integer, float | boolean, integer | boolean, float => true
  | source, target => source == target

end SocketType

end FrameGraph
