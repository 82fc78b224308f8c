import FrameGraph.Proofs.EditHistory

/-!
What edits keep. Main statement: whatever hooks do to sockets, identifiers stay distinct and inputs
singly linked; and no link loses an end unless a hook drops sockets when one is moved.
-/

namespace FrameGraph

namespace Tree

variable {registry : Registry} {rules : EditRules} {tree changed : Tree}

/-! What steps keep: the identifiers, and the links. -/

theorem identifiers_updateNode {target after : Node}
    (found : tree.node? target.identifier = some target)
    (same : after.identifier = target.identifier) :
    (tree.updateNode target.identifier fun _ => after).identifiers = tree.identifiers :=
  map_updateFirst found same

theorem Adapted.identifier
    (hooks : registry.Hooks fun node after => after.identifier = node.identifier)
    {target after : Node} (adapted : Adapted registry target after) :
    after.identifier = target.identifier := by
  cases adapted with
  | propertySet found property value => exact (hooks found).propertyChanged _ _
  | edited found => exact (hooks found).edit _
  | socketRemoved found side socket =>
      exact ((hooks found).socketChanged _).trans (Node.identifier_setSockets _ _ _)

theorem step_distinct (hooks : registry.Hooks fun node after => after.identifier = node.identifier)
    (distinct : tree.identifiers.Nodup) (step : Step registry .freshIdentifiers tree changed) :
    changed.identifiers.Nodup := by
  have appended {added : Node} (free : added.identifier ∉ tree.identifiers)
      (nodes : changed.nodes = tree.nodes ++ [added]) : changed.identifiers.Nodup := by
    rw [identifiers, nodes, List.map_append, List.map_singleton]
    exact distinct.append (List.nodup_singleton _) (List.disjoint_singleton.mpr free)
  have replaced {target after : Node} (found : tree.node? target.identifier = some target)
      (same : after.identifier = target.identifier)
      (nodes : changed.nodes = (tree.updateNode target.identifier fun _ => after).nodes) :
      changed.identifiers.Nodup := by
    rw [identifiers, nodes]
    exact (congrArg List.Nodup (identifiers_updateNode found same)).mpr distinct
  cases step with
  | created found free nodes links =>
      exact appended (by rw [(hooks found).create]; exact free) nodes
  | copied member found free nodes links =>
      exact appended (by rw [(hooks found).duplicate]; exact free) nodes
  | removed identifier nodes links =>
      rw [identifiers, nodes]
      exact distinct.sublist (List.eraseP_sublist.map _)
  | linked output input nodes links => rwa [identifiers, nodes]
  | dropped nodes links => rwa [identifiers, nodes]
  | settled found adapted nodes links => exact replaced found (adapted.identifier hooks) nodes
  | moved found registered allowed perm nodes links =>
      exact replaced found
        (((hooks registered).socketChanged _).trans (Node.identifier_setSockets _ _ _)) nodes
  | extended found type name value nodes links =>
      exact replaced found (Catalog.GroupInput.identifier_addParameter _ type name value) nodes

def SinglyLinked (tree : Tree) : Prop :=
  ∀ node socket, tree.links.countP (·.entersInput node socket) ≤ 1

theorem step_singlyLinked (single : tree.SinglyLinked) (step : Step registry rules tree changed) :
    changed.SinglyLinked := by
  have fewer (less : changed.links.Sublist tree.links) : changed.SinglyLinked :=
    fun node socket => less.countP_le.trans (single node socket)
  cases step with
  | created found free nodes links => exact fewer (links ▸ .refl _)
  | copied member found free nodes links => exact fewer (links ▸ .refl _)
  | removed identifier nodes links => exact fewer (links ▸ List.filter_sublist)
  | linked output input nodes links =>
      rename_i new
      intro node socket
      rw [links, List.countP_append, List.countP_singleton, List.countP_filter]
      by_cases enters : new.entersInput node socket = true
      · have same : new.toNode = node ∧ new.toSocket = socket := by
          simpa [Link.entersInput] using enters
        have none : tree.links.countP (fun link => link.entersInput node socket &&
            !link.entersInput new.toNode new.toSocket) = 0 := by
          rw [same.1, same.2]
          simp
        rw [none, if_pos enters]
      · rw [if_neg enters]
        refine Nat.le_trans (List.countP_mono_left fun link _ both => ?_) (single node socket)
        exact (Bool.and_eq_true _ _ ▸ both).1
  | dropped nodes links => exact fewer links
  | settled found adapted nodes links => exact fewer (links ▸ List.filter_sublist)
  | moved found registered allowed perm nodes links => exact fewer (links ▸ .refl _)
  | extended found type name value nodes links => exact fewer (links ▸ .refl _)

def HasSocket (tree : Tree) (side : Side) (node socket : String) : Prop :=
  ∃ n ∈ tree.nodes, n.identifier = node ∧ socket ∈ n.identifiers side

theorem hasOutput_iff {node socket : String} :
    tree.HasOutput node socket ↔ tree.HasSocket .output node socket := by
  simp [HasOutput, HasSocket, Node.identifiers, Node.sockets]

theorem hasInput_iff {node socket : String} :
    tree.HasInput node socket ↔ tree.HasSocket .input node socket := by
  simp [HasInput, HasSocket, Node.identifiers, Node.sockets]

def SoundlyLinked (tree : Tree) : Prop :=
  ∀ link ∈ tree.links, tree.HasOutput link.fromNode link.fromSocket ∧
    tree.HasInput link.toNode link.toSocket

theorem SoundlyLinked.of_sockets (sound : tree.SoundlyLinked)
    (links : ∀ link ∈ changed.links, link ∈ tree.links)
    (sockets : ∀ side node socket, tree.HasSocket side node socket →
      changed.HasSocket side node socket) : changed.SoundlyLinked := by
  intro link member
  obtain ⟨output, input⟩ := sound link (links link member)
  exact ⟨hasOutput_iff.mpr (sockets _ _ _ (hasOutput_iff.mp output)),
    hasInput_iff.mpr (sockets _ _ _ (hasInput_iff.mp input))⟩

theorem HasSocket.updateNode {side : Side} {node socket : String} {target after : Node}
    (has : tree.HasSocket side node socket)
    (found : tree.node? target.identifier = some target)
    (same : after.identifier = target.identifier)
    (keeps : ∀ side, target.identifiers side ⊆ after.identifiers side) :
    (tree.updateNode target.identifier fun _ => after).HasSocket side node socket := by
  obtain ⟨n, member, named, inside⟩ := has
  rcases mem_updateFirst_of_mem (b := after) found member with member | ⟨rfl, member⟩
  · exact ⟨n, member, named, inside⟩
  · exact ⟨after, member, same.trans named, keeps side inside⟩

theorem HasSocket.of_nodes_eq {side : Side} {node socket : String}
    (has : tree.HasSocket side node socket) (nodes : changed.nodes = tree.nodes) :
    changed.HasSocket side node socket := by
  rwa [HasSocket, nodes]

theorem HasSocket.of_removed {side : Side} {node socket identifier : String}
    (has : tree.HasSocket side node socket) (other : node ≠ identifier)
    (nodes : changed.nodes = tree.nodes.eraseP (·.identifier = identifier)) :
    changed.HasSocket side node socket := by
  obtain ⟨n, member, rfl, inside⟩ := has
  refine ⟨n, ?_, rfl, inside⟩
  rw [nodes]
  exact (List.mem_eraseP_of_neg (by simpa using other)).mpr member

theorem HasOutput.of_nodes_eq {node socket : String} (has : tree.HasOutput node socket)
    (nodes : changed.nodes = tree.nodes) : changed.HasOutput node socket := by
  rwa [HasOutput, nodes]

theorem HasInput.of_nodes_eq {node socket : String} (has : tree.HasInput node socket)
    (nodes : changed.nodes = tree.nodes) : changed.HasInput node socket := by
  rwa [HasInput, nodes]

theorem ends_of_mem_soundLinks {link : Link} (member : link ∈ tree.soundLinks) :
    tree.HasOutput link.fromNode link.fromSocket ∧ tree.HasInput link.toNode link.toSocket := by
  have ends := (List.mem_filter.mp member).2
  rw [Bool.and_eq_true, hasSource, hasTarget, Option.any_eq_true, Option.any_eq_true] at ends
  obtain ⟨⟨source, fromFound, output⟩, ⟨target, toFound, input⟩⟩ := ends
  exact ⟨hasOutput_of_node? fromFound output, hasInput_of_node? toFound input⟩

/-- Every step restores the links itself, but for a socket that is moved: there the hook must not
drop any. -/
theorem step_soundlyLinked
    (hooks : registry.Hooks fun node after => after.identifier = node.identifier)
    (sound : tree.SoundlyLinked) (step : Step registry .keepingSockets tree changed) :
    changed.SoundlyLinked := by
  have more (nodes : ∀ node ∈ tree.nodes, node ∈ changed.nodes) (side : Side)
      (node socket : String) (has : tree.HasSocket side node socket) :
      changed.HasSocket side node socket := by
    obtain ⟨n, member, rest⟩ := has
    exact ⟨n, nodes n member, rest⟩
  cases step with
  | created found free nodes links =>
      exact sound.of_sockets (fun _ => (links ▸ ·))
        (more fun _ member => nodes ▸ List.mem_append_left _ member)
  | copied member found free nodes links =>
      exact sound.of_sockets (fun _ => (links ▸ ·))
        (more fun _ member => nodes ▸ List.mem_append_left _ member)
  | removed identifier nodes links =>
      intro link member
      rw [links, List.mem_filter, Bool.not_eq_true', Link.touches, Bool.or_eq_false_iff,
        decide_eq_false_iff_not, decide_eq_false_iff_not] at member
      obtain ⟨member, fromOther, toOther⟩ := member
      obtain ⟨output, input⟩ := sound link member
      exact ⟨hasOutput_iff.mpr ((hasOutput_iff.mp output).of_removed fromOther nodes),
        hasInput_iff.mpr ((hasInput_iff.mp input).of_removed toOther nodes)⟩
  | linked output input nodes links =>
      intro link member
      rw [links, List.mem_append, List.mem_singleton] at member
      have ends : tree.HasOutput link.fromNode link.fromSocket ∧
          tree.HasInput link.toNode link.toSocket := by
        rcases member with member | rfl
        · exact sound link (List.mem_of_mem_filter member)
        · exact ⟨output, input⟩
      exact ⟨ends.1.of_nodes_eq nodes, ends.2.of_nodes_eq nodes⟩
  | dropped nodes links =>
      exact sound.of_sockets (fun _ member => links.subset member) (more fun _ => (nodes ▸ ·))
  | settled found adapted nodes links =>
      intro link member
      obtain ⟨output, input⟩ := ends_of_mem_soundLinks (links ▸ member)
      exact ⟨output.of_nodes_eq nodes, input.of_nodes_eq nodes⟩
  | moved found registered keeps perm nodes links =>
      refine sound.of_sockets (fun _ => (links ▸ ·)) fun side node socket has => ?_
      rename_i kind target moved sockets
      have same := Node.identifier_setSockets target moved sockets
      have stay (side : Side) : target.identifiers side ⊆
          (target.setSockets moved sockets).identifiers side := by
        by_cases here : side = moved
        · subst here
          rw [Node.identifiers_setSockets]
          exact (perm.map _).symm.subset
        · rw [Node.identifiers_setSockets_of_ne here]
          exact fun _ => id
      refine (has.updateNode found (((hooks registered).socketChanged _).trans same)
        fun side => List.Subset.trans (stay side) (keeps _ side)).of_nodes_eq nodes
  | extended found type name value nodes links =>
      refine sound.of_sockets (fun _ => (links ▸ ·)) fun side node socket has => ?_
      exact (has.updateNode found (Catalog.GroupInput.identifier_addParameter _ type name value)
        (Catalog.GroupInput.subset_identifiers_addParameter _ type name value)).of_nodes_eq nodes

/-- What holds of a tree whatever has been done to it: nodes, and the sockets of a side, can be told
apart, and no input is entered twice. -/
structure Intact (tree : Tree) : Prop where
  distinct : tree.identifiers.Nodup
  sockets : ∀ node ∈ tree.nodes, node.DistinctSockets
  single : tree.SinglyLinked

theorem keeps_distinctSockets (hooks : registry.Hooks Node.Reworked) :
    registry.Keeps Node.DistinctSockets where
  created found fresh :=
    ((hooks found).create _).distinctSockets (Node.distinctSockets_of_nil rfl rfl)
  copied found kept fresh := ((hooks found).duplicate _ _).distinctSockets kept
  propertySet found kept property value := ((hooks found).propertyChanged _ _).distinctSockets kept
  edited found kept := ((hooks found).edit _).distinctSockets kept
  socketsChanged found kept side sockets less := by
    obtain ⟨ordered, perm, fewer⟩ := less
    have nodup := (perm.map Socket.identifier).nodup_iff.mp
      ((fewer.map Socket.identifier).nodup (kept side))
    exact ((hooks found).socketChanged _).distinctSockets (kept.setSockets nodup)
  parameterAdded kept type name value :=
    Catalog.GroupInput.distinctSockets_addParameter kept type name value

theorem keeps_identifiers (hooks : registry.Hooks Node.Reworked) :
    registry.Hooks fun node after => after.identifier = node.identifier := fun _ _ found =>
  (hooks found).mono fun _ _ => Node.Reworked.identifier

/-- Every tree reached is intact, and its links are sound if sockets are moved only where the hook
that follows keeps them all. -/
theorem Reachable.intact_and_soundlyLinked (hooks : registry.Hooks Node.Reworked) :
    (∀ tree, Reachable registry .freshIdentifiers tree → tree.Intact) ∧
      ∀ tree, Reachable registry .keepingSockets tree → tree.SoundlyLinked := by
  have identity := keeps_identifiers hooks
  refine ⟨fun tree reached => ?_, fun tree reached => ?_⟩
  · refine reached.keeps (fun name stamp => ⟨List.nodup_nil, fun _ member => ?_, fun _ _ => ?_⟩)
      fun before after intact step => ?_
    · cases member
    · exact Nat.zero_le 1
    · exact ⟨step_distinct identity intact.distinct step,
        step_forall_nodes (keeps_distinctSockets hooks) intact.sockets step,
        step_singlyLinked intact.single step⟩
  · refine reached.keeps (fun name stamp link member => ?_) fun before after sound step =>
      step_soundlyLinked identity sound step
    cases member

end Tree

theorem Recipe.hooks_toKind (recipe : Recipe) : recipe.toKind.Hooks Node.Reworked where
  create node := by
    have created : recipe.create node = HookAct.applyAll
        (recipe.inputs.map (.addSocket .input) ++ recipe.outputs.map (.addSocket .output) ++
          recipe.properties.map fun property => .setProperty property.1 property.2) node := by
      simp only [HookAct.applyAll, List.foldl_append, List.foldl_map]
      rfl
    show node.Reworked (recipe.create node)
    rw [created]
    exact Node.reworked_applyAll _ node
  edit node := Node.reworked_applyAll _ node
  duplicate copy _ := Node.reworked_applyAll _ copy
  socketChanged node := Node.reworked_applyAll _ node
  propertyChanged node _ := Node.reworked_applyAll _ node

/-! Two linked nodes of one kind, of which one has its output moved. -/

def Recipe.pipe (onSocketChanged : List HookAct) : Recipe where
  declaration := .named "pipe" "Pipe"
  inputs := [.ofType .float "In" "in"]
  outputs := [.ofType .float "Out" "out"]
  properties := []
  code := .procedure
  cases := []
  modules := []
  onEdit := []
  onDuplicate := []
  onSocketChanged
  onPropertyChanged := []

def Registry.pipes (onSocketChanged : List HookAct) : Registry :=
  .ofKinds [(Recipe.pipe onSocketChanged).toKind]

theorem Registry.hooks_pipes (onSocketChanged : List HookAct) :
    (pipes onSocketChanged).Hooks Node.Reworked := by
  intro name kind found
  obtain rfl := List.mem_singleton.mp (mem_of_kind?_ofKinds found).1
  exact Recipe.hooks_toKind _

namespace Tree

def movedPipe (onSocketChanged : List HookAct) : Tree :=
  [Edit.newNode "pipe" "a", .newNode "pipe" "b", .link ⟨"a", "out", "b", "in"⟩,
    .moveSocket "a" "out" .output 0].foldl
    (fun tree edit => (Change.edit edit).apply (.pipes onSocketChanged) ⟨0, ""⟩ tree)
    (Tree.new "Main" ⟨0, ""⟩)

theorem reachable_movedPipe (onSocketChanged : List HookAct) {rules : EditRules}
    (fresh : rules.fresh (Tree.new "Main" ⟨0, ""⟩) "a")
    (freshAgain : ∀ tree : Tree, tree.identifiers = ["a"] → rules.fresh tree "b")
    (movable : rules.movable (Recipe.pipe onSocketChanged).toKind) :
    Reachable (.pipes onSocketChanged) rules (movedPipe onSocketChanged) := by
  have empty : Reachable (.pipes onSocketChanged) rules (Tree.new "Main" ⟨0, ""⟩) := .new _ _
  have first := empty.change (.edit (.newNode "pipe" "a")) ⟨0, ""⟩ fresh
  have second := first.change (.edit (.newNode "pipe" "b")) ⟨0, ""⟩ (freshAgain _ rfl)
  have third := second.change (.edit (.link ⟨"a", "out", "b", "in"⟩)) ⟨0, ""⟩ trivial
  refine third.change (.edit (.moveSocket "a" "out" .output 0)) ⟨0, ""⟩ ?_
  intro target kind _ found
  obtain rfl := List.mem_singleton.mp (Registry.mem_of_kind?_ofKinds found).1
  exact movable

theorem reachable_movedPipe_fresh (onSocketChanged : List HookAct) :
    Reachable (.pipes onSocketChanged) .freshIdentifiers (movedPipe onSocketChanged) := by
  refine reachable_movedPipe onSocketChanged List.not_mem_nil (fun tree same member => ?_) trivial
  rw [same] at member
  exact absurd member (by decide)

/-- A hook that adds a socket keeps the link of the socket that is moved. -/
theorem Reachable.intact_and_soundlyLinked_movedPipe :
    (movedPipe [.addSocket .input (.ofType .float "In" "in")]).links = [⟨"a", "out", "b", "in"⟩] ∧
    (movedPipe [.addSocket .input (.ofType .float "In" "in")]).Intact ∧
      (movedPipe [.addSocket .input (.ofType .float "In" "in")]).SoundlyLinked := by
  have keeps : (Recipe.pipe [.addSocket .input (.ofType .float "In" "in")]).toKind.KeepsSockets :=
    fun node side => node.subset_identifiers_addSocket .input (.ofType .float "In" "in") side
  obtain ⟨intact, sound⟩ := Reachable.intact_and_soundlyLinked
    (Registry.hooks_pipes [.addSocket .input (.ofType .float "In" "in")])
  exact ⟨rfl, intact _ (reachable_movedPipe_fresh _),
    sound _ (reachable_movedPipe _ trivial (fun _ _ => trivial) keeps)⟩

/-- A hook that clears the sockets leaves the link of the socket that is moved behind. -/
theorem not_soundlyLinked_movedPipe :
    ¬ ∀ (registry : Registry) (tree : Tree), registry.Hooks Node.Reworked →
      Reachable registry .freshIdentifiers tree → tree.Intact ∧ tree.SoundlyLinked := by
  intro always
  have sound := (always (.pipes [.clearSockets]) (movedPipe [.clearSockets])
    (Registry.hooks_pipes _) (reachable_movedPipe_fresh _)).2
  obtain ⟨⟨node, member, same, socket, inside, -⟩, -⟩ :=
    sound ⟨"a", "out", "b", "in"⟩ List.mem_cons_self
  have left : (movedPipe [.clearSockets]).nodes.map (fun n => (n.identifier, n.outputs.length)) =
      [("a", 0), ("b", 1)] := rfl
  have counted := List.mem_map_of_mem (f := fun n => (n.identifier, n.outputs.length)) member
  rw [left, same] at counted
  have empty : node.outputs.length = 0 := by simpa using counted
  rw [List.length_eq_zero_iff.mp empty] at inside
  cases inside

end Tree

end FrameGraph
