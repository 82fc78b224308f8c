import FrameGraph.Kind

/-!
Projection of a point onto a plane. Only the outputs that are linked are computed.
-/

namespace FrameGraph.Catalog

def projectionLines (context : LinkContext) : List String :=
  ["plane_co = planePoint",
    "plane_no = planeNormal if planeNormal.length_squared != 0 else mathutils.Vector((0, 0, 1))"] ++
  (if context.isOutputLinked "projection" then
    ["intersection = mathutils.geometry.intersect_line_plane(point, point + plane_no, plane_co, plane_no, False)",
      "projection = mathutils.Vector((0, 0, 0)) if intersection is None else intersection"]
  else []) ++
  (if context.isOutputLinked "distance" then
    ["distance = mathutils.geometry.distance_point_to_plane(point, plane_co, plane_no)"]
  else [])

def projectPointOnPlane : Kind where
  declaration :=
    { Declaration.named "an_ProjectPointOnPlaneNode" "Project Point on Plane" with
      category := "Geometry"
      searchTags := ["Distance Point to Plane", "Closest Point on Plane"] }
  create node :=
    node
      |>.addInput (.ofType .vector "Point" "point")
      |>.addInput (.ofType .vector "Plane Point" "planePoint")
      |>.addInput ⟨"Plane Normal", "planeNormal", .vector, .vector .zero .zero (.ofNat 1)⟩
      |>.addOutput (.ofType .vector "Projection" "projection")
      |>.addOutput (.ofType .float "Signed Distance" "distance")
  code _ context :=
    .raw (if context.anyOutputLinked then .lines (projectionLines context) else .empty)
  usedModules _ := ["mathutils"]

end FrameGraph.Catalog
