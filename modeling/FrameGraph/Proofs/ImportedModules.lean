import FrameGraph.Identifier
import FrameGraph.Proofs.LineNames
import FrameGraph.Proofs.RequestedModules
import FrameGraph.Proofs.StandardModules
import FrameGraph.Proofs.ValidEdits

/-!
The imports of standard procedures. Main statement: however a tree of standard nodes has been
edited, its procedure imports the host modules that its body names, and no module without need.
-/

namespace FrameGraph

open Lexeme

/-! Trees whose nodes get generated identifiers. -/

theorem Identifier.head?_of_isGenerated {identifier : String}
    (generated : isGenerated identifier = true) : identifier.toList.head? = some '_' := by
  unfold isGenerated at generated
  split at generated
  · rename_i whole
    rw [whole, List.head?_cons]
  · contradiction

def EditRules.generating : EditRules :=
  ⟨fun _ identifier => Identifier.isGenerated identifier = true, fun _ => True⟩

def Node.setValue (node : Node) (side : Side) (socket : String) (value : Value) : Node :=
  node.setSockets side (setFirstValue socket value (node.sockets side))

theorem Node.identifiers_setValue (node : Node) (side other : Side) (socket : String)
    (value : Value) : (node.setValue side socket value).identifiers other =
      node.identifiers other := by
  have same (sockets : List Socket) :
      (setFirstValue socket value sockets).map (·.identifier) = sockets.map (·.identifier) := by
    induction sockets with
    | nil => rfl
    | cons first rest ih =>
        rw [setFirstValue]
        split
        · rfl
        · rw [List.map_cons, ih, List.map_cons]
  by_cases chosen : other = side
  · subst chosen
    rw [setValue, Node.identifiers_setSockets]
    exact same _
  · rw [setValue, Node.identifiers_setSockets_of_ne chosen]

namespace Tree

/-- The trees that changes lead to, where any values are written into sockets in between. -/
inductive Edited (registry : Registry) (rules : EditRules) : Tree → Prop
  | new (name : String) (stamp : Stamp) : Edited registry rules (Tree.new name stamp)
  | change {tree : Tree} (edited : Edited registry rules tree) (change : Change) (stamp : Stamp)
      (allowed : change.Allowed registry rules tree) :
      Edited registry rules (change.apply registry stamp tree)
  | write {tree : Tree} (edited : Edited registry rules tree) (node : String) (side : Side)
      (socket : String) (value : Value) :
      Edited registry rules (tree.updateNode node (·.setValue side socket value))

variable {tree : Tree} {registry : Registry} {options : CompileOptions} {node : Node}
  {module : String}

theorem Edited.keeps {rules : EditRules} {P : Tree → Prop}
    (empty : ∀ name stamp, P (Tree.new name stamp))
    (step : ∀ ⦃tree changed⦄, P tree → Step registry rules tree changed → P changed)
    (written : ∀ ⦃tree⦄, P tree → ∀ node side socket value,
      P (tree.updateNode node (·.setValue side socket value)))
    (edited : Edited registry rules tree) : P tree := by
  induction edited with
  | new name stamp => exact empty name stamp
  | change _ change stamp allowed ih => exact (steps_change allowed stamp).keeps step ih
  | write _ node side socket value ih => exact written ih node side socket value

theorem Edited.standard {rules : EditRules} (edited : tree.Edited Catalog.registry rules) :
    ∀ node ∈ tree.nodes, Catalog.Standard node := by
  refine edited.keeps (P := fun tree => ∀ node ∈ tree.nodes, Catalog.Standard node)
    (fun _ _ _ member => absurd member List.not_mem_nil)
    (fun _ _ => step_forall_nodes Catalog.keeps_standard) fun _ all _ side socket value => ?_
  exact forall_mem_updateFirst all fun node standard =>
    standard.of_identifiers (by cases side <;> rfl)
      fun other => node.identifiers_setValue side other socket value

theorem Edited.marked (edited : tree.Edited Catalog.registry .generating) : tree.Marked := by
  refine edited.keeps (P := Marked) (fun _ _ _ member => absurd member List.not_mem_nil)
    (fun tree changed marked step node member => ?_) fun _ marked _ side _ _ => ?_
  · have identity : Catalog.registry.Hooks fun node after => after.identifier = node.identifier :=
      fun _ _ found => (Catalog.sameNode_registry found).mono fun _ _ => And.left
    rcases step_identifiers identity step _ (List.mem_map_of_mem member) with old | fresh
    · obtain ⟨other, inside, same⟩ := List.mem_map.mp old
      exact same ▸ marked other inside
    · exact Identifier.head?_of_isGenerated fresh
  · refine forall_mem_updateFirst marked fun node start => ?_
    cases side <;> exact start

theorem WellFormed.requests_of_mem_callLine (wellFormed : tree.WellFormed registry)
    (marked : tree.Marked) (member : node ∈ tree.nodes) (distinct : node.DistinctSockets)
    {kind : Kind} (registered : registry.kind? node.kind = some kind)
    (procedure : kind.code node (.ofNode tree node) = .procedure) (host : module ∈ hostModules)
    (named : module ∈ names (tree.callLine node)) : tree.Requests registry node module := by
  obtain ⟨socket, inside, named⟩ :=
    wellFormed.exists_input_of_mem_callLine marked member host named
  obtain ⟨unlinked, asked⟩ := wellFormed.asked_of_mem_names marked host named
  have uses : (kind.code node (.ofNode tree node)).Uses socket.identifier := by
    rw [procedure]
    trivial
  exact .literal registered uses (find?_key (distinct .input) inside) unlinked asked

theorem WellFormed.requests_of_mem_contributionLines (wellFormed : tree.WellFormed registry)
    (marked : tree.Marked) (member : node ∈ tree.nodes) {kind : Kind}
    (registered : registry.kind? node.kind = some kind) {code : RawCode}
    (contributed : kind.code node (.ofNode tree node) = .raw code)
    (nonempty : code.isEmpty = false)
    (among : Catalog.NamesAmong code (kind.usedModules node)) (host : module ∈ hostModules)
    {line : String} (written : line ∈ tree.contributionLines node (.raw code))
    (named : module ∈ names line) : tree.Requests registry node module := by
  rw [wellFormed.contributionLines_raw member nonempty among.closed] at written
  obtain ⟨piece, cut, rfl⟩ := List.mem_map.mp written
  rcases wellFormed.asked_of_mem_rewrite marked member host named with
    named | ⟨name, used, socket, input, unlinked, asked⟩
  · exact .declared registered (among.named piece cut module host named)
  · have inside : name ∈ names code.joined := by
      rw [← Text.joinLines_lines code.joined]
      exact (names_joinLines among.closed).symm.subset (List.mem_flatMap.mpr ⟨piece, cut, used⟩)
    have uses : (kind.code node (.ofNode tree node)).Uses name := by
      rw [contributed]
      exact inside
    exact .literal registered uses input unlinked asked

/-- A host module that a line of a standard node names is one that the node needs. -/
theorem WellFormed.requests_of_mem_nodeLines (wellFormed : tree.WellFormed Catalog.registry)
    (marked : tree.Marked) (member : node ∈ tree.nodes) (standard : Catalog.Standard node)
    (host : module ∈ hostModules) {line : String}
    (written : line ∈ tree.nodeLines Catalog.registry node) (named : module ∈ names line) :
    tree.Requests Catalog.registry node module := by
  obtain ⟨kind, registered⟩ := wellFormed.registered node member
  obtain ⟨known, idName⟩ := Registry.mem_of_kind?_ofKinds registered
  have lines : tree.nodeLines Catalog.registry node =
      tree.contributionLines node (kind.code node (.ofNode tree node)) := by
    rw [nodeLines, registered]
  rw [lines] at written
  rcases Catalog.code_of_mem known with procedure | ⟨inline, rfl⟩
  · rw [procedure, contributionLines, List.mem_singleton] at written
    exact wellFormed.requests_of_mem_callLine marked member standard.distinct registered
      (by rw [procedure]) host (written ▸ named)
  · obtain ⟨code, contributed, among⟩ :=
      inline.exists_namesAmong standard idName.symm (.ofNode tree node)
    rw [contributed] at written
    cases empty : code.isEmpty with
    | true =>
        rw [contributionLines, if_pos empty] at written
        cases written
    | false =>
        have among := among.resolve_left (by simp [empty])
        exact wellFormed.requests_of_mem_contributionLines marked member registered contributed
          empty among host written named

/-- Whether a procedure imports the modules that it takes and no others. -/
structure ExactImports (tree : Tree) (registry : Registry) (procedure : Procedure) : Prop where
  /-- What a line names outside of string literals and not behind a dot. -/
  complete : ∀ line ∈ procedure.body, ∀ module ∈ hostModules, module ∈ Lexeme.names line →
    module ∈ procedure.modules
  nodup : procedure.modules.Nodup
  nonempty : "" ∉ procedure.modules
  needed : ∀ module ∈ procedure.modules, ∃ node ∈ tree.nodes, tree.Requests registry node module

/-- However a tree of standard nodes has been edited and whatever values its sockets hold, the
imports of its procedure are complete and exact. -/
theorem Edited.exactImports (edited : tree.Edited Catalog.registry .generating)
    (uncommented : options.debugComments = false) {compiled : Compiled}
    (done : tree.compile Catalog.registry options = .ok compiled) :
    tree.ExactImports Catalog.registry compiled.procedure := by
  have standard := edited.standard
  obtain ⟨nodup, modules⟩ := compile_modules done
  obtain ⟨wellFormed, order, compiledNodes, ordered, compiledAll, rfl⟩ := compile_ok done
  have perm := (wellFormed.nodes_of_order ordered).2
  refine ⟨?_, nodup, fun empty => ((modules "").mp empty).1 rfl,
    fun module member => ((modules module).mp member).2⟩
  intro line written module host named
  have nameless : "" ∉ hostModules := by decide
  rw [wellFormed.body_link (fun node member => (standard node member).distinct .input)
    compiledAll] at written
  obtain ⟨node, inside, written⟩ := List.mem_flatMap.mp written
  have member := perm.subset inside
  have silent : tree.commentLines Catalog.registry options node = [] := by
    rw [commentLines]
    split <;> simp [uncommented]
  rw [silent, List.nil_append] at written
  exact (modules module).mpr ⟨fun empty => nameless (empty ▸ host), node, member,
    wellFormed.requests_of_mem_nodeLines edited.marked member (standard node member) host written
      named⟩

/-- The entry of a subprogram with a mesh for a parameter, which a node merges, and a rotation with
a list for its seed. -/
def mergedParameter : Tree :=
  let made := ofChanges
    [.edit (.newNode "an_GroupInput" "_group0000000000"),
      .edit (.newNode "an_MeshRemoveDoubles" "_merge0000000000"),
      .edit (.newNode "an_EulerWiggleNode" "_wiggle000000000"),
      .newParameter "_group0000000000" .mesh "Mesh" .none,
      .edit (.link ⟨"_group0000000000", "parameter", "_merge0000000000", "bm"⟩)]
  made.updateNode "_wiggle000000000" (·.setValue .input "seed"
    (.list [.list [.string "bmesh", .list []], .list [.vector .zero .zero .zero]]))

theorem edited_mergedParameter : mergedParameter.Edited Catalog.registry .generating := by
  have empty : Edited Catalog.registry .generating (Tree.new "Main" ⟨0, ""⟩) := .new _ _
  have group := empty.change (.edit (.newNode "an_GroupInput" "_group0000000000")) ⟨0, ""⟩
    (by decide : Identifier.isGenerated "_group0000000000" = true)
  have merge := group.change (.edit (.newNode "an_MeshRemoveDoubles" "_merge0000000000")) ⟨0, ""⟩
    (by decide : Identifier.isGenerated "_merge0000000000" = true)
  have wiggle := merge.change (.edit (.newNode "an_EulerWiggleNode" "_wiggle000000000")) ⟨0, ""⟩
    (by decide : Identifier.isGenerated "_wiggle000000000" = true)
  have mesh := wiggle.change (.newParameter "_group0000000000" .mesh "Mesh" .none) ⟨0, ""⟩ trivial
  have linked := mesh.change
    (.edit (.link ⟨"_group0000000000", "parameter", "_merge0000000000", "bm"⟩)) ⟨0, ""⟩ trivial
  exact linked.write "_wiggle000000000" .input "seed" _

def mergedBody : List String :=
  ["_group0000000000_parameter = _group0000000000.parameters.get(\"parameter\", bmesh.new())",
    "_merge0000000000_mesh = _merge0000000000.execute(_group0000000000_parameter, 0.0001)",
    "_wiggle000000000_euler = _wiggle000000000.execute([[\"bmesh\", []], " ++
      "[mathutils.Vector((0.0, 0.0, 0.0))]], 0.0, 1.0, mathutils.Euler((0.5235987755982988, " ++
      "0.5235987755982988, 0.5235987755982988)), 2, 0.3)"]

/-- The mesh module is needed for the parameter, not for the string in the list, and the list asks
for the module of the vector inside. -/
theorem Edited.exactImports_mergedParameter :
    ∃ compiled, mergedParameter.compile Catalog.registry .production = .ok compiled ∧
      compiled.procedure.body = mergedBody ∧
      compiled.procedure.modules = ["bmesh", "mathutils"] ∧
      mergedParameter.ExactImports Catalog.registry compiled.procedure := by
  have parts : (mergedParameter.compile Catalog.registry .production).toOption.map
      (fun compiled => (compiled.procedure.body, compiled.procedure.modules)) =
        some (mergedBody, ["bmesh", "mathutils"]) := by
    decide +kernel
  cases done : mergedParameter.compile Catalog.registry .production with
  | error error =>
      rw [done] at parts
      contradiction
  | ok compiled =>
      rw [done] at parts
      obtain ⟨body, modules⟩ := Prod.mk.inj (Option.some.inj parts)
      exact ⟨compiled, rfl, body, modules, edited_mergedParameter.exactImports rfl done⟩

end Tree

end FrameGraph
