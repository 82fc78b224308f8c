import FrameGraph.Proofs.AssignedOutputs
import FrameGraph.Proofs.LinkIntegrity

/-!
Trees that edits keep fit for compilation. Main statement: validation finds nothing in a tree of
standard nodes, however it has been edited, so only a cycle keeps it from being compiled.
-/

namespace FrameGraph

/-- A new node gets an identifier, as generated ones are never empty, and one that no other node
has. -/
def EditRules.namingNodes : EditRules :=
  ⟨fun tree identifier => identifier ≠ "" ∧ identifier ∉ tree.identifiers, fun _ => True⟩

/-- Whether a node is still the same one, whatever a hook has made of its sockets. -/
def Node.SameNode (node after : Node) : Prop :=
  after.identifier = node.identifier ∧ after.kind = node.kind

namespace Tree

variable {registry : Registry} {rules others : EditRules} {tree changed : Tree}

theorem Step.mono (fresh : ∀ identifier, rules.fresh tree identifier → others.fresh tree identifier)
    (movable : ∀ name kind, registry.kind? name = some kind → rules.movable kind →
      others.movable kind)
    (step : Step registry rules tree changed) : Step registry others tree changed := by
  cases step with
  | created found free nodes links => exact .created found (fresh _ free) nodes links
  | copied member found free nodes links => exact .copied member found (fresh _ free) nodes links
  | removed identifier nodes links => exact .removed identifier nodes links
  | linked output input nodes links => exact .linked output input nodes links
  | dropped nodes links => exact .dropped nodes links
  | settled found adapted nodes links => exact .settled found adapted nodes links
  | moved found registered allowed perm nodes links =>
      exact .moved found registered (movable _ _ registered allowed) perm nodes links
  | extended found type name value nodes links => exact .extended found type name value nodes links

theorem step_identifiers
    (hooks : registry.Hooks fun node after => after.identifier = node.identifier)
    (step : Step registry rules tree changed) :
    ∀ identifier ∈ changed.identifiers,
      identifier ∈ tree.identifiers ∨ rules.fresh tree identifier := by
  have appended {added : Node} (free : rules.fresh tree added.identifier)
      (nodes : changed.nodes = tree.nodes ++ [added]) :
      ∀ identifier ∈ changed.identifiers,
        identifier ∈ tree.identifiers ∨ rules.fresh tree identifier := by
    intro identifier member
    rw [identifiers, nodes, List.map_append, List.mem_append, List.map_singleton,
      List.mem_singleton] at member
    rcases member with old | rfl
    · exact .inl old
    · exact .inr free
  have kept (same : changed.identifiers = tree.identifiers) :
      ∀ identifier ∈ changed.identifiers,
        identifier ∈ tree.identifiers ∨ rules.fresh tree identifier :=
    fun identifier member => .inl (same ▸ member)
  have replaced {target after : Node} (found : tree.node? target.identifier = some target)
      (same : after.identifier = target.identifier)
      (nodes : changed.nodes = (tree.updateNode target.identifier fun _ => after).nodes) :
      changed.identifiers = tree.identifiers := by
    rw [identifiers, nodes]
    exact identifiers_updateNode found same
  cases step with
  | created found free nodes links =>
      exact appended (by rw [(hooks found).create]; exact free) nodes
  | copied member found free nodes links =>
      exact appended (by rw [(hooks found).duplicate]; exact free) nodes
  | removed identifier nodes links =>
      intro other member
      rw [identifiers, nodes] at member
      exact .inl ((List.eraseP_sublist.map _).subset member)
  | linked output input nodes links => exact kept (by rw [identifiers, nodes, identifiers])
  | dropped nodes links => exact kept (by rw [identifiers, nodes, identifiers])
  | settled found adapted nodes links =>
      exact kept (replaced found (adapted.identifier hooks) nodes)
  | moved found registered allowed perm nodes links =>
      exact kept (replaced found
        (((hooks registered).socketChanged _).trans (Node.identifier_setSockets _ _ _)) nodes)
  | extended found type name value nodes links =>
      exact kept
        (replaced found (Catalog.GroupInput.identifier_addParameter _ type name value) nodes)

theorem keeps_registered (hooks : registry.Hooks Node.SameNode) :
    registry.Keeps fun node => ∃ kind, registry.kind? node.kind = some kind where
  created found fresh := ⟨_, by rw [((hooks found).create _).2]; exact found⟩
  copied found kept fresh := by rw [((hooks found).duplicate _ _).2]; exact kept
  propertySet found kept property value := by
    rw [((hooks found).propertyChanged _ _).2]
    exact kept
  edited found kept := by rw [((hooks found).edit _).2]; exact kept
  socketsChanged {kind node} found kept side sockets less := by
    have same : (node.setSockets side sockets).kind = node.kind := by cases side <;> rfl
    rw [((hooks found).socketChanged _).2, same]
    exact kept
  parameterAdded kept type name value := by
    rw [Catalog.GroupInput.addParameter, Catalog.GroupInput.kind_keepNewParameterLast]
    exact kept

/-- Every step keeps a tree free of faults if hooks leave nodes the same and a moved socket in
place. -/
theorem step_wellFormed (hooks : registry.Hooks Node.SameNode)
    (sockets : ∀ name kind, registry.kind? name = some kind → kind.KeepsSockets)
    (wellFormed : tree.WellFormed registry) (step : Step registry .namingNodes tree changed) :
    changed.WellFormed registry := by
  have identity : registry.Hooks fun node after => after.identifier = node.identifier :=
    fun _ _ found => (hooks found).mono fun _ _ => And.left
  have sound : changed.SoundlyLinked :=
    step_soundlyLinked identity
      (fun link member => ⟨wellFormed.sources link member, wellFormed.targets link member⟩)
      (step.mono (fun _ _ => trivial) fun name kind found _ => sockets name kind found)
  refine ⟨?_, ?_, ?_, fun link member => (sound link member).1,
    fun link member => (sound link member).2, step_singlyLinked wellFormed.single step⟩
  · intro node member
    rcases step_identifiers identity step _ (List.mem_map_of_mem member) with old | fresh
    · obtain ⟨other, inside, same⟩ := List.mem_map.mp old
      exact same ▸ wellFormed.identified other inside
    · exact fresh.1
  · exact step_distinct identity wellFormed.distinct
      (step.mono (fun _ => And.right) fun _ _ _ _ => trivial)
  · exact step_forall_nodes (keeps_registered hooks) wellFormed.registered step

theorem Reachable.wellFormed (hooks : registry.Hooks Node.SameNode)
    (sockets : ∀ name kind, registry.kind? name = some kind → kind.KeepsSockets)
    (reached : tree.Reachable registry .namingNodes) : tree.WellFormed registry := by
  refine reached.keeps (fun name stamp => ?_) fun _ _ => step_wellFormed hooks sockets
  exact ⟨nofun, .nil, nofun, nofun, nofun, fun _ _ => Nat.zero_le 1⟩

end Tree

namespace Catalog

variable {kind : Kind}

@[simp] theorem sameNode_addInput (node after : Node) (socket : Socket) :
    node.SameNode (after.addInput socket) ↔ node.SameNode after :=
  .rfl

@[simp] theorem sameNode_addOutput (node after : Node) (socket : Socket) :
    node.SameNode (after.addOutput socket) ↔ node.SameNode after :=
  .rfl

@[simp] theorem sameNode_setProperty (node after : Node) (name : String) (value : Value) :
    node.SameNode (after.setProperty name value) ↔ node.SameNode after :=
  .rfl

@[simp] theorem sameNode_rebuildInputs (node after : Node) :
    node.SameNode (rebuildInputs after) ↔ node.SameNode after := by
  rw [rebuildInputs_eq]
  exact .rfl

theorem sameNode_create (member : kind ∈ kinds) (node : Node) :
    node.SameNode (kind.create node) := by
  have same : node.SameNode node := ⟨rfl, rfl⟩
  simp only [kinds, List.mem_cons, List.not_mem_nil, or_false] at member
  rcases member with rfl | rfl | rfl | rfl | rfl | rfl | rfl | rfl | rfl <;>
    simpa [setKeyframes, SetKeyframes.storePaths, colorMix, projectPointOnPlane, meshRemoveDoubles,
      objectGroupInput, eulerWiggle, quaternionMath, groupInput, characters] using same

theorem sameNode_keepNewParameterLast (node : Node) :
    node.SameNode (GroupInput.keepNewParameterLast node) :=
  ⟨GroupInput.identifier_keepNewParameterLast node, GroupInput.kind_keepNewParameterLast node⟩

theorem sameNode_registry : registry.Hooks Node.SameNode := by
  intro name kind found
  have member := (Registry.mem_of_kind?_ofKinds found).1
  refine ⟨sameNode_create member, ?_, ?_, ?_, ?_⟩
  · rw [edit_of_mem member]
    exact fun _ => ⟨rfl, rfl⟩
  · rw [duplicate_of_mem member]
    exact fun _ _ => ⟨rfl, rfl⟩
  · rcases socketChanged_of_mem member with unchanged | last
    · rw [unchanged]
      exact fun _ => ⟨rfl, rfl⟩
    · rw [last]
      exact sameNode_keepNewParameterLast
  · rcases propertyChanged_of_mem member with unchanged | rfl
    · rw [unchanged]
      exact fun _ _ => ⟨rfl, rfl⟩
    · intro node property
      simp only [quaternionMath]
      split
      · exact (sameNode_rebuildInputs node node).mpr ⟨rfl, rfl⟩
      · exact ⟨rfl, rfl⟩

theorem keepsSockets_of_mem (member : kind ∈ kinds) : kind.KeepsSockets := by
  intro node side
  rcases socketChanged_of_mem member with unchanged | last
  · rw [unchanged]
    exact fun _ => id
  · rw [last]
    exact (GroupInput.perm_identifiers_keepNewParameterLast node side).symm.subset

end Catalog

namespace Tree

variable {tree : Tree}

/-- In a tree of standard nodes, however it has been edited, validation finds nothing. It compiles,
or else its links lead in a circle and that is what is reported. -/
theorem Reachable.compiles_or_cyclic
    (reached : tree.Reachable Catalog.registry .namingNodes) (options : CompileOptions) :
    tree.problems Catalog.registry = [] ∧
      ((¬ tree.HasCycle ∧ ∃ compiled, tree.compile Catalog.registry options = .ok compiled) ∨
        (tree.HasCycle ∧
          ∃ nodes, tree.compile Catalog.registry options = .error (.cycle nodes))) := by
  have wellFormed : tree.WellFormed Catalog.registry :=
    reached.wellFormed Catalog.sameNode_registry fun _ _ found =>
      Catalog.keepsSockets_of_mem (Registry.mem_of_kind?_ofKinds found).1
  have sound := not_fault_iff.mpr wellFormed
  refine ⟨problems_eq_nil_iff_wellFormed.mpr wellFormed, ?_⟩
  rcases compile_cases tree Catalog.registry options with
    ⟨fault, -⟩ | ⟨-, cycle, refused⟩ | ⟨-, acyclic, compiled⟩
  · exact absurd fault sound
  · exact .inr ⟨cycle, refused⟩
  · exact .inl ⟨acyclic, compiled⟩

/-- A parameter that is absorbed and moved behind its placeholder, and a node that has lost an input
and is copied. -/
def absorbedParameter : Tree :=
  ofChanges
    [.edit (.newNode "an_GroupInput" "g"), .edit (.newNode "an_QuaternionMathNode" "q"),
      .edit (.link ⟨"g", "newParameter", "q", "b"⟩),
      .edit (.setProperty "q" "operation" (.string "INVERT")),
      .edit (.link ⟨"g", "newParameter", "q", "a"⟩), .edit (.absorbParameters "g"),
      .edit (.moveSocket "g" "parameter" .output 5), .edit (.duplicateNode "q" "r"),
      .edit (.link ⟨"q", "result", "r", "a"⟩)]

theorem reachable_absorbedParameter :
    absorbedParameter.Reachable Catalog.registry .namingNodes := by
  have empty : Reachable Catalog.registry .namingNodes (Tree.new "Main" ⟨0, ""⟩) := .new _ _
  have group := empty.change (.edit (.newNode "an_GroupInput" "g")) ⟨0, ""⟩
    (And.intro (by decide) (by decide))
  have math := group.change (.edit (.newNode "an_QuaternionMathNode" "q")) ⟨0, ""⟩
    (And.intro (by decide) (by decide))
  have linked := math.change (.edit (.link ⟨"g", "newParameter", "q", "b"⟩)) ⟨0, ""⟩ trivial
  have inverted := linked.change (.edit (.setProperty "q" "operation" (.string "INVERT"))) ⟨0, ""⟩
    trivial
  have again := inverted.change (.edit (.link ⟨"g", "newParameter", "q", "a"⟩)) ⟨0, ""⟩ trivial
  have absorbed := again.change (.edit (.absorbParameters "g")) ⟨0, ""⟩ trivial
  have moved := absorbed.change (.edit (.moveSocket "g" "parameter" .output 5)) ⟨0, ""⟩
    fun _ _ _ _ => trivial
  have copied := moved.change (.edit (.duplicateNode "q" "r")) ⟨0, ""⟩
    (And.intro (by decide) (by decide +kernel))
  exact copied.change (.edit (.link ⟨"q", "result", "r", "a"⟩)) ⟨0, ""⟩ trivial

/-- The links lead from the parameter through both nodes; one more closes a circle. -/
theorem Reachable.compiles_or_cyclic_absorbedParameter :
    let circular := (Change.edit (.link ⟨"r", "result", "q", "a"⟩)).apply Catalog.registry ⟨0, ""⟩
      absorbedParameter
    absorbedParameter.Reachable Catalog.registry .namingNodes ∧
    absorbedParameter.links = [⟨"g", "parameter", "q", "a"⟩, ⟨"q", "result", "r", "a"⟩] ∧
    absorbedParameter.problems Catalog.registry = [] ∧
    (∃ compiled, absorbedParameter.compile Catalog.registry .default = .ok compiled) ∧
    circular.problems Catalog.registry = [] ∧ circular.HasCycle ∧
    circular.compile Catalog.registry .default = .error (.cycle ["q", "r"]) := by
  intro circular
  have straight : (absorbedParameter.compile Catalog.registry .default).isOk := by decide +kernel
  have refused : circular.compile Catalog.registry .default = .error (.cycle ["q", "r"]) := by
    decide +kernel
  have first := reachable_absorbedParameter
  have second := first.change (.edit (.link ⟨"r", "result", "q", "a"⟩)) ⟨0, ""⟩ trivial
  obtain ⟨sound, ended⟩ := first.compiles_or_cyclic .default
  obtain ⟨soundToo, endedToo⟩ := second.compiles_or_cyclic .default
  refine ⟨first, by decide +kernel, sound, ?_, soundToo, ?_, refused⟩
  · rcases ended with ⟨-, compiled⟩ | ⟨-, nodes, cyclic⟩
    · exact compiled
    · rw [cyclic] at straight
      contradiction
  · rcases endedToo with ⟨-, compiled, done⟩ | ⟨cycle, -⟩
    · exact absurd (done.symm.trans refused) (by simp)
    · exact cycle

end Tree

end FrameGraph
