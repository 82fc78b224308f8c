import FrameGraph.Proofs.LinkIntegrity
import FrameGraph.Proofs.StandardNodes

/-!
The inputs of a node with a selectable operation. Main statement: setting the operation leaves the
node with the inputs of the operation, of which those that stay keep their values and links.
-/

namespace FrameGraph

theorem Dictionary.insert_insert {α : Type} (d : Dictionary α) (key : String) (value : α) :
    (d.insert key value).insert key value = d.insert key value := by
  have again (entries : List (String × α)) :
      insertEntry key value (insertEntry key value entries) = insertEntry key value entries := by
    induction entries with
    | nil => simp [insertEntry]
    | cons first rest ih =>
        rw [insertEntry]
        split
        · simp [insertEntry]
        · split
          · simp [insertEntry]
          · rename_i notBefore other
            rw [insertEntry, if_neg notBefore, if_neg other, ih]
  exact ext_entries (again d.entries)

namespace Tree

variable {tree : Tree} {registry : Registry}

theorem soundlyLinked_settle (tree : Tree) (stamp : Stamp) :
    (tree.settle stamp).SoundlyLinked := by
  intro link member
  change link ∈ tree.soundLinks at member
  obtain ⟨output, input⟩ := ends_of_mem_soundLinks member
  exact ⟨output.of_nodes_eq rfl, input.of_nodes_eq rfl⟩

theorem SoundlyLinked.ends (sound : tree.SoundlyLinked) (distinct : tree.identifiers.Nodup)
    {link : Link} (member : link ∈ tree.links) :
    tree.hasSource link = true ∧ tree.hasTarget link = true := by
  obtain ⟨⟨source, left, starts, output⟩, target, entered, ends, input⟩ := sound link member
  have output := Node.hasOutput_iff.mpr (List.mem_map.mpr output)
  have input := Node.hasInput_iff.mpr (List.mem_map.mpr input)
  exact ⟨(any_node?_iff distinct).mpr ⟨source, left, starts, output⟩,
    (any_node?_iff distinct).mpr ⟨target, entered, ends, input⟩⟩

theorem SoundlyLinked.soundLinks_eq (sound : tree.SoundlyLinked)
    (distinct : tree.identifiers.Nodup) : tree.soundLinks = tree.links := by
  refine List.filter_eq_self.mpr fun link member => ?_
  obtain ⟨source, target⟩ := sound.ends distinct member
  rw [source, target]
  rfl

theorem updateNode_self {node : Node} (found : tree.node? node.identifier = some node) :
    tree.updateNode node.identifier (fun _ => node) = tree :=
  congrArg (fun nodes => { tree with nodes }) (updateFirst_self found)

/-- A node that gets other inputs loses the links into those that are missing. -/
theorem SoundlyLinked.soundLinks_replaced (sound : tree.SoundlyLinked)
    (distinct : tree.identifiers.Nodup) {target after : Node}
    (found : tree.node? target.identifier = some target)
    (same : after.identifier = target.identifier) (outputs : after.outputs = target.outputs) :
    (tree.updateNode target.identifier fun _ => after).soundLinks =
      tree.links.filter fun link =>
        link.toNode ≠ target.identifier ∨ link.toSocket ∈ after.inputs.map (·.identifier) := by
  refine List.filter_congr fun link member => ?_
  obtain ⟨source, ends⟩ := sound.ends distinct member
  have left : (tree.updateNode target.identifier fun _ => after).hasSource link = true := by
    rw [hasSource, node?_replaced found after same]
    split
    · rename_i here
      rw [hasSource, here, found] at source
      rwa [Option.any_some, Node.hasOutput, outputs]
    · exact source
  have entered : (tree.updateNode target.identifier fun _ => after).hasTarget link = true ↔
      link.toNode ≠ target.identifier ∨ link.toSocket ∈ after.inputs.map (·.identifier) := by
    rw [hasTarget, node?_replaced found after same]
    split
    · rename_i here
      rw [Option.any_some, Node.hasInput_iff]
      simp [here]
    · rename_i other
      exact iff_of_true ends (.inl other)
  rw [left, Bool.true_and, Bool.eq_iff_iff, entered, decide_eq_true_iff]

end Tree

namespace Catalog

def operationNamed (value : Value) : QuaternionOperation :=
  (value.asString?.bind QuaternionOperation.ofId?).getD .add

theorem operationNamed_id (operation : QuaternionOperation) :
    operationNamed (.string operation.id) = operation := by
  change (QuaternionOperation.ofId? operation.id).getD .add = operation
  rw [QuaternionOperation.ofId?_id]
  rfl

theorem operationNamed_of_forall_ne {value : Value}
    (unnamed : ∀ operation : QuaternionOperation, value ≠ .string operation.id) :
    operationNamed value = .add := by
  have none : value.asString?.bind QuaternionOperation.ofId? = none := by
    cases value with
    | string name =>
        change QuaternionOperation.all.find? (·.id = name) = none
        rw [List.find?_eq_none]
        intro operation _
        simpa using fun same => unnamed operation (congrArg Value.string same.symm)
    | _ => rfl
  rw [operationNamed, none]
  rfl

/-- The input with what the first input with its identifier and type held before, if there was
one. -/
def keptInput (previous : List Socket) (declared : Socket) : Socket :=
  { declared with
    value := (previous.find? fun input =>
      input.identifier = declared.identifier && input.type = declared.type).elim
        declared.value (·.value) }

/-- The node with the operation, its inputs being those that the operation declares. -/
def withOperation (node : Node) (value : Value) : Node :=
  { node with
    properties := node.properties.insert operationProperty value
    inputs := (operationNamed value).inputs.map (keptInput node.inputs) }

theorem keepValue_eq (previous : List Socket) : keepValue previous = keptInput previous := by
  funext declared
  rw [keepValue, keptInput]
  cases previous.find? fun input =>
    input.identifier = declared.identifier && input.type = declared.type <;> rfl

theorem propertyChanged_operation (node : Node) (value : Value) :
    quaternionMath.propertyChanged (node.setProperty operationProperty value) operationProperty =
      withOperation node value := by
  have operation : quaternionOperation (node.setProperty operationProperty value) =
      operationNamed value := by
    rw [quaternionOperation, Node.property?, Node.setProperty, Dictionary.get?_insert_self]
    rfl
  change rebuildInputs (node.setProperty operationProperty value) = _
  rw [rebuildInputs_eq, operation, keepValue_eq]
  rfl

theorem identifiers_withOperation (node : Node) (value : Value) :
    (withOperation node value).inputs.map (·.identifier) =
      (operationNamed value).inputs.map (·.identifier) := by
  rw [withOperation, List.map_map]
  rfl

theorem keptInput_map_keptInput {declared : List Socket}
    (nodup : (declared.map (·.identifier)).Nodup) (previous : List Socket) {input : Socket}
    (member : input ∈ declared) :
    keptInput (declared.map (keptInput previous)) input = keptInput previous input := by
  have found : declared.find? (fun other => other.identifier = input.identifier &&
      other.type = input.type) = some input := by
    cases found : declared.find? (fun other => other.identifier = input.identifier &&
        other.type = input.type) with
    | none =>
        have absent := List.find?_eq_none.mp found input member
        simp at absent
    | some other =>
        have same : other.identifier = input.identifier := by
          have both := List.find?_some found
          simp only [Bool.and_eq_true, decide_eq_true_eq] at both
          exact both.1
        rw [List.inj_on_of_nodup_map nodup (List.mem_of_find?_eq_some found) member same]
  rw [keptInput, List.find?_map, Function.comp_def]
  change ({ input with value := ((declared.find? fun other =>
    other.identifier = input.identifier && other.type = input.type).map _).elim _ _ } : Socket) = _
  rw [found]
  rfl

theorem withOperation_withOperation (node : Node) (value : Value) :
    withOperation (withOperation node value) value = withOperation node value := by
  have inputs : (operationNamed value).inputs.map (keptInput (withOperation node value).inputs) =
      (operationNamed value).inputs.map (keptInput node.inputs) :=
    List.map_congr_left fun _ => keptInput_map_keptInput (nodup_inputs _) node.inputs
  rw [withOperation, inputs]
  simp only [withOperation, Dictionary.insert_insert]

variable {tree : Tree} {registry : Registry} {node : Node}

theorem setProperty_operation_eq_ok (found : tree.node? node.identifier = some node)
    (registered : registry.kind? node.kind = some quaternionMath) (value : Value) (stamp : Stamp) :
    tree.setProperty registry node.identifier operationProperty value stamp =
      .ok ((tree.updateNode node.identifier fun _ => withOperation node value).settle stamp) := by
  have replaced := Tree.nodes_updateNode found fun n =>
    quaternionMath.propertyChanged (n.setProperty operationProperty value) operationProperty
  rw [propertyChanged_operation] at replaced
  simp only [Tree.setProperty, Tree.requireNode, found, Tree.requireKind, registered, bind,
    Except.bind, replaced]
  rfl

/-- Setting the operation of a node, to whatever value, gives it the inputs of the operation that
results. Of the links only those into inputs that are gone are dropped, nothing else changes, and
setting the value again changes nothing. -/
theorem setProperty_operation (distinct : tree.identifiers.Nodup) (sound : tree.SoundlyLinked)
    (found : tree.node? node.identifier = some node)
    (registered : registry.kind? node.kind = some quaternionMath) (value : Value) (stamp : Stamp) :
    (∀ operation : QuaternionOperation, value = .string operation.id →
      operationNamed value = operation) ∧
    ((∀ operation : QuaternionOperation, value ≠ .string operation.id) →
      operationNamed value = .add) ∧
    ∃ changed,
      tree.setProperty registry node.identifier operationProperty value stamp = .ok changed ∧
      changed.nodes = (tree.updateNode node.identifier fun _ => withOperation node value).nodes ∧
      changed.links = tree.links.filter (fun link => link.toNode ≠ node.identifier ∨
        link.toSocket ∈ (operationNamed value).inputs.map (·.identifier)) ∧
      ∀ later, ∃ again,
        changed.setProperty registry node.identifier operationProperty value later = .ok again ∧
          again.nodes = changed.nodes ∧ again.links = changed.links := by
  refine ⟨fun operation named => named ▸ operationNamed_id operation, operationNamed_of_forall_ne,
    _, setProperty_operation_eq_ok found registered value stamp, rfl, ?_, fun later => ?_⟩
  · rw [← identifiers_withOperation node value]
    exact sound.soundLinks_replaced distinct found rfl rfl
  · let after := withOperation node value
    let changed := (tree.updateNode node.identifier fun _ => after).settle stamp
    have there : changed.node? after.identifier = some after :=
      (Tree.node?_replaced found after rfl after.identifier).trans (if_pos rfl)
    have identifiers : changed.identifiers.Nodup := by
      have same : changed.identifiers = tree.identifiers := Tree.identifiers_updateNode found rfl
      rwa [same]
    have again := setProperty_operation_eq_ok there registered value later
    rw [withOperation_withOperation, Tree.updateNode_self there] at again
    exact ⟨_, again, rfl, (Tree.soundlyLinked_settle _ stamp).soundLinks_eq identifiers⟩

def chainedRotations : Tree :=
  { Tree.new "Main" ⟨0, ""⟩ with
    nodes := [quaternionMath.create (Node.ofKind "p" "an_QuaternionMathNode"),
      quaternionMath.create (Node.ofKind "q" "an_QuaternionMathNode")]
    links := [⟨"p", "result", "q", "b"⟩, ⟨"p", "result", "q", "a"⟩] }

theorem setProperty_operation_chainedRotations :
    ∃ changed,
      chainedRotations.setProperty Catalog.registry "q" operationProperty (.string "SCALE")
        ⟨1, ""⟩ = .ok changed ∧
      changed.links = [⟨"p", "result", "q", "a"⟩] := by
  have complete : chainedRotations.soundLinks = chainedRotations.links := by decide
  have sound : chainedRotations.SoundlyLinked := fun link member =>
    Tree.ends_of_mem_soundLinks (complete ▸ member)
  obtain ⟨-, -, changed, ran, -, links, -⟩ :=
    @setProperty_operation chainedRotations Catalog.registry
      (quaternionMath.create (Node.ofKind "q" "an_QuaternionMathNode")) (by decide) sound rfl rfl
      (.string "SCALE") ⟨1, ""⟩
  exact ⟨changed, ran, links.trans (by decide)⟩

end Catalog

end FrameGraph
