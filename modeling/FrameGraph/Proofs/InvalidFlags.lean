import FrameGraph.Catalog
import FrameGraph.Compile
import FrameGraph.Proofs.Outcomes

/-!
Flags of nodes in invalid networks. Main statement: flagging nodes does not change what a tree
compiles to if no kind looks at the flag.
-/

namespace FrameGraph

namespace Kind

/-- Whether the code of a node and the modules it uses are the same in and outside of invalid
networks. -/
def IgnoresFlag (kind : Kind) : Prop :=
  ∀ (node : Node) (flag : Bool),
    (∀ context, kind.code { node with inInvalidNetwork := flag } context = kind.code node context) ∧
    kind.usedModules { node with inInvalidNetwork := flag } = kind.usedModules node

end Kind

namespace Registry

def IgnoresFlags (registry : Registry) : Prop :=
  ∀ name kind, registry.kind? name = some kind → kind.IgnoresFlag

theorem ignoresFlags_ofKinds {kinds : List Kind} (each : ∀ kind ∈ kinds, kind.IgnoresFlag) :
    (ofKinds kinds).IgnoresFlags := by
  have grown (registry : Registry) (ignores : registry.IgnoresFlags) :
      (kinds.foldl register registry).IgnoresFlags := by
    induction kinds generalizing registry with
    | nil => exact ignores
    | cons kind kinds ih =>
        refine ih (fun other member => each other (List.mem_cons_of_mem _ member)) _ ?_
        intro name found registered
        rw [kind?_register] at registered
        split at registered
        · obtain rfl := Option.some.inj registered
          exact each _ List.mem_cons_self
        · exact ignores name found registered
  apply grown
  intro name kind found
  contradiction

end Registry

theorem Catalog.ignoresFlags_registry : Catalog.registry.IgnoresFlags := by
  apply Registry.ignoresFlags_ofKinds
  intro kind member
  simp only [kinds, List.mem_cons, List.not_mem_nil, or_false] at member
  rcases member with rfl | rfl | rfl | rfl | rfl | rfl | rfl | rfl | rfl <;>
    exact fun node flag => ⟨fun context => rfl, rfl⟩

namespace Node

def flagInvalid (node : Node) (invalid : List String) : Node :=
  { node with inInvalidNetwork := invalid.contains node.identifier }

end Node

namespace Tree

variable (tree : Tree) (invalid : List String)

theorem nodes_flagInvalid :
    (tree.flagInvalid invalid).nodes = tree.nodes.map (·.flagInvalid invalid) :=
  rfl

theorem flagInvalid_flagInvalid (others : List String) :
    (tree.flagInvalid invalid).flagInvalid others = tree.flagInvalid others := by
  simp [flagInvalid, Function.comp_def]

theorem node?_flagInvalid (identifier : String) :
    (tree.flagInvalid invalid).node? identifier =
      (tree.node? identifier).map (·.flagInvalid invalid) := by
  rw [node?, nodes_flagInvalid, List.find?_map]
  rfl

theorem lastIndex?_flagInvalid (identifier : String) :
    (tree.flagInvalid invalid).lastIndex? identifier = tree.lastIndex? identifier := by
  unfold lastIndex?
  rw [nodes_flagInvalid]
  induction tree.nodes with
  | nil => rfl
  | cons node nodes ih =>
      simp only [List.map_cons, FrameGraph.lastIndex?, ih]
      rfl

theorem edges_flagInvalid : (tree.flagInvalid invalid).edges = tree.edges := by
  simp only [edges, lastIndex?_flagInvalid]
  rfl

theorem evaluationOrder_flagInvalid :
    (tree.flagInvalid invalid).evaluationOrder = tree.evaluationOrder := by
  have size : (tree.flagInvalid invalid).nodes.length = tree.nodes.length := by
    simp [nodes_flagInvalid]
  have named (positions : List Nat) :
      (tree.flagInvalid invalid).identifiersAt positions = tree.identifiersAt positions := by
    simp only [identifiersAt, nodes_flagInvalid, List.getElem?_map, Option.map_map]
    rfl
  simp only [evaluationOrder, edges_flagInvalid, size, named]

/-! Validation -/

theorem identifierProblems_flagInvalid :
    (tree.flagInvalid invalid).identifierProblems = tree.identifierProblems := by
  simp only [identifierProblems, nodes_flagInvalid, List.zipIdx_map, List.filterMap_map,
    List.countP_map, List.findIdx_map]
  rfl

theorem kindProblems_flagInvalid (registry : Registry) :
    (tree.flagInvalid invalid).kindProblems registry = tree.kindProblems registry := by
  simp only [kindProblems, nodes_flagInvalid, List.filter_map, List.map_map]
  rfl

theorem linkProblems_flagInvalid (link : Link) :
    (tree.flagInvalid invalid).linkProblems link = tree.linkProblems link := by
  simp only [linkProblems, endProblem?, node?_flagInvalid]
  cases tree.node? link.fromNode <;> cases tree.node? link.toNode <;> rfl

theorem problems_flagInvalid (registry : Registry) :
    (tree.flagInvalid invalid).problems registry = tree.problems registry := by
  have links : (tree.flagInvalid invalid).links = tree.links := rfl
  have inputs : (tree.flagInvalid invalid).nodes.flatMap (tree.flagInvalid invalid).inputProblems =
      tree.nodes.flatMap tree.inputProblems := by
    rw [nodes_flagInvalid, List.flatMap_map]
    rfl
  have ends : (tree.flagInvalid invalid).linkProblems = tree.linkProblems :=
    funext (tree.linkProblems_flagInvalid invalid)
  rw [problems, problems, identifierProblems_flagInvalid, kindProblems_flagInvalid, links, ends,
    inputs]

theorem typeProblems_flagInvalid :
    (tree.flagInvalid invalid).typeProblems = tree.typeProblems := by
  have links : (tree.flagInvalid invalid).links = tree.links := rfl
  have each : (tree.flagInvalid invalid).typeProblem? = tree.typeProblem? := by
    funext link
    simp only [typeProblem?, node?_flagInvalid]
    cases tree.node? link.fromNode <;> cases tree.node? link.toNode <;> rfl
  rw [typeProblems, typeProblems, links, each]

theorem invalidNodes_flagInvalid (problems : List Problem) :
    (tree.flagInvalid invalid).invalidNodes problems = tree.invalidNodes problems := by
  have forest : Forest.ofTree (tree.flagInvalid invalid) = Forest.ofTree tree := by
    simp only [Forest.ofTree, edges_flagInvalid, nodes_flagInvalid, List.length_map]
  have positions : (tree.flagInvalid invalid).lastIndex? = tree.lastIndex? :=
    funext (tree.lastIndex?_flagInvalid invalid)
  simp only [invalidNodes, networkMembers, forest, positions, nodes_flagInvalid, List.zipIdx_map,
    List.filter_map, List.map_map]
  rfl

/-! Linking -/

theorem ofTree_flagInvalid :
    Variables.ofTree (tree.flagInvalid invalid) = Variables.ofTree tree := by
  unfold Variables.ofTree
  rw [nodes_flagInvalid]
  generalize ([] : List String) = used
  induction tree.nodes generalizing used with
  | nil => rfl
  | cons node nodes ih =>
      simp only [List.map_cons, Variables.nameNodes, ih]
      rfl

theorem inputSource?_flagInvalid (node socket : String) :
    (tree.flagInvalid invalid).inputSource? node socket = tree.inputSource? node socket := by
  have links : (tree.flagInvalid invalid).links = tree.links := rfl
  simp only [inputSource?, links, nodes_flagInvalid, List.filter_map, List.findSome?_map]
  rfl

end Tree

namespace AssembledNode

def flagInvalid (assembled : AssembledNode) (invalid : List String) : AssembledNode :=
  { assembled with node := assembled.node.flagInvalid invalid }

end AssembledNode

namespace CompiledNode

def flagInvalid (compiled : CompiledNode) (invalid : List String) : CompiledNode :=
  { compiled with assembled := compiled.assembled.flagInvalid invalid }

end CompiledNode

namespace Tree

variable (tree : Tree) (invalid : List String)

theorem linkNode_flagInvalid (names : Variables) (options : CompileOptions)
    (assembled : AssembledNode) :
    Linking.linkNode (tree.flagInvalid invalid) names options (assembled.flagInvalid invalid) =
      Linking.linkNode tree names options assembled := by
  have input (name : String) :
      Linking.inputText (tree.flagInvalid invalid) names (assembled.flagInvalid invalid).node name =
        Linking.inputText tree names assembled.node name := by
    unfold Linking.inputText
    rw [inputSource?_flagInvalid]
    rfl
  have text : Linking.tokenText (tree.flagInvalid invalid) names
      (assembled.flagInvalid invalid).node = Linking.tokenText tree names assembled.node := by
    funext token
    cases token with
    | input name => exact congrArg Prod.fst (input name)
    | text s => rfl
    | self => rfl
    | output name => rfl
  have module : Linking.tokenModule? (tree.flagInvalid invalid) names
      (assembled.flagInvalid invalid).node = Linking.tokenModule? tree names assembled.node := by
    funext token
    cases token with
    | input name => exact congrArg Prod.snd (input name)
    | text s => rfl
    | self => rfl
    | output name => rfl
  have line : Linking.lineText (tree.flagInvalid invalid) names
      (assembled.flagInvalid invalid).node = Linking.lineText tree names assembled.node := by
    funext line
    simp only [Linking.lineText, text]
  simp only [Linking.linkNode, line, module]
  rfl

theorem link_flagInvalid (options : CompileOptions) (assembled : List AssembledNode) :
    Linking.link (tree.flagInvalid invalid) options (assembled.map (·.flagInvalid invalid)) =
      Linking.link tree options assembled := by
  have named : (tree.flagInvalid invalid).name = tree.name := rfl
  simp only [Linking.link, ofTree_flagInvalid, List.map_map, Function.comp_def,
    linkNode_flagInvalid, named]

theorem stats_flagInvalid (nodes : List CompiledNode) (procedure : Procedure) :
    Compile.stats (tree.flagInvalid invalid) (nodes.map (·.flagInvalid invalid)) procedure =
      Compile.stats tree nodes procedure := by
  simp only [Compile.stats, List.countP_map, nodes_flagInvalid, List.length_map]
  rfl

variable {registry : Registry}

theorem compileNode_flagInvalid (ignores : registry.IgnoresFlags) (node : Node) :
    Compile.compileNode (tree.flagInvalid invalid) registry (node.flagInvalid invalid) =
      (Compile.compileNode tree registry node).map (·.flagInvalid invalid) := by
  have named : (node.flagInvalid invalid).kind = node.kind := rfl
  have context : LinkContext.ofNode (tree.flagInvalid invalid) (node.flagInvalid invalid) =
      LinkContext.ofNode tree node := rfl
  unfold Compile.compileNode
  rw [named, context]
  cases registered : registry.kind? node.kind with
  | none => rfl
  | some kind =>
      obtain ⟨code, modules⟩ := ignores node.kind kind registered node
        (invalid.contains node.identifier)
      have sameCode : kind.code (node.flagInvalid invalid) (.ofNode tree node) =
          kind.code node (.ofNode tree node) := code _
      have sameModules : kind.usedModules (node.flagInvalid invalid) = kind.usedModules node :=
        modules
      simp only [sameCode, sameModules]
      cases kind.code node (.ofNode tree node) <;> rfl

theorem compileNodes_flagInvalid (ignores : registry.IgnoresFlags) (order : List String) :
    Compile.compileNodes (tree.flagInvalid invalid) registry order =
      (Compile.compileNodes tree registry order).map (List.map (·.flagInvalid invalid)) := by
  have nodes : order.filterMap (tree.flagInvalid invalid).node? =
      (order.filterMap tree.node?).map (·.flagInvalid invalid) := by
    rw [List.map_filterMap]
    congr 1
    funext identifier
    exact tree.node?_flagInvalid invalid identifier
  rw [Compile.compileNodes, nodes]
  exact mapM_map_of_eq (tree.compileNode_flagInvalid invalid ignores) _

theorem compile_flagInvalid (ignores : registry.IgnoresFlags) (options : CompileOptions) :
    (tree.flagInvalid invalid).compile registry options = tree.compile registry options := by
  have named : (tree.flagInvalid invalid).name = tree.name := rfl
  simp only [compile, problems_flagInvalid, evaluationOrder_flagInvalid, typeProblems_flagInvalid,
    compileNodes_flagInvalid tree invalid ignores, named]
  split
  · rfl
  · cases tree.evaluationOrder with
    | error nodes => rfl
    | ok order =>
        cases compiled : Compile.compileNodes tree registry order with
        | error e => simp [compiled, Except.map, bind, Except.bind]
        | ok nodes =>
            have assembled : (nodes.map (·.flagInvalid invalid)).map (·.assembled) =
                (nodes.map (·.assembled)).map (·.flagInvalid invalid) := by
              simp [CompiledNode.flagInvalid]
            simp only [compiled, Except.map, bind, Except.bind, assembled, link_flagInvalid,
              stats_flagInvalid]

end Tree

end FrameGraph
