import FrameGraph.Catalog.GroupInput
import FrameGraph.Catalog.Keyframes
import FrameGraph.Catalog.Projection
import FrameGraph.Catalog.Quaternion
import FrameGraph.Kind.Registry

/-!
The standard node kinds.
-/

namespace FrameGraph.Catalog

def kinds : List Kind :=
  [setKeyframes, colorMix, projectPointOnPlane, meshRemoveDoubles, objectGroupInput, eulerWiggle,
    quaternionMath, groupInput, characters]

def registry : Registry :=
  .ofKinds kinds

end FrameGraph.Catalog
