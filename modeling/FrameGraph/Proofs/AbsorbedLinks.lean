import FrameGraph.Proofs.AddedParameters
import FrameGraph.Proofs.LinkIntegrity

/-!
Links absorbed by the entry node of a subprogram. Main statement: each input that the new-parameter
socket fed gets a parameter of its own, and nothing else changes.
-/

namespace FrameGraph

def Link.target (link : Link) : String × String :=
  (link.toNode, link.toSocket)

theorem Link.entersInput_iff {link : Link} {target : String × String} :
    link.entersInput target.1 target.2 = true ↔ link.target = target := by
  obtain ⟨toNode, toSocket⟩ := target
  simp [entersInput, Link.target]

namespace Tree

variable {tree : Tree} {stamp : Stamp}

theorem singlyLinked_iff : tree.SinglyLinked ↔ (tree.links.map Link.target).Nodup := by
  have count (node socket : String) :
      tree.links.countP (·.entersInput node socket) =
        (tree.links.map Link.target).count (node, socket) := by
    rw [List.count, List.countP_map]
    refine List.countP_congr fun link _ => ?_
    simp [Link.entersInput, Link.target]
  rw [List.nodup_iff_count_le_one, Tree.SinglyLinked]
  exact ⟨fun single target => count target.1 target.2 ▸ single target.1 target.2,
    fun nodup node socket => count node socket ▸ nodup (node, socket)⟩

theorem nodes_unlink (node socket : String) (stamp : Stamp) :
    (tree.unlink node socket stamp).2.nodes = tree.nodes := by
  unfold unlink
  split <;> rfl

theorem links_unlink (node socket : String) (stamp : Stamp) :
    (tree.unlink node socket stamp).2.links =
      tree.links.filter fun link => !link.entersInput node socket := by
  unfold unlink
  split
  · rfl
  · rename_i unlinked
    refine (List.filter_eq_self.mpr fun link member => ?_).symm
    have apart := List.any_eq_false.mp (Bool.not_eq_true _ ▸ unlinked) link member
    simpa using apart

end Tree

namespace Catalog.GroupInput

variable {tree changed : Tree} {group : Node} {node : String} {stamp : Stamp}

/-! A parameter and its link. -/

theorem typedInput?_updateNode {change : Node → Node}
    (identifier : ∀ node, (change node).identifier = node.identifier)
    (inputs : ∀ node, (change node).inputs = node.inputs) (node toNode toSocket : String) :
    typedInput? (tree.updateNode node change) toNode toSocket =
      typedInput? tree toNode toSocket := by
  have input : (fun n => (change n).input? toSocket) = fun n : Node => n.input? toSocket := by
    funext n
    rw [Node.input?, inputs, Node.input?]
  rw [typedInput?, typedInput?, Tree.node?_updateNode identifier]
  split
  · rw [Option.bind_map, Function.comp_def, input]
  · rfl

theorem typedInput?_congr (nodes : changed.nodes = tree.nodes) (toNode toSocket : String) :
    typedInput? changed toNode toSocket = typedInput? tree toNode toSocket := by
  rw [typedInput?, typedInput?, Tree.node?, nodes, Tree.node?]

theorem exists_of_typedInput? {toNode toSocket : String} {input : Socket}
    (typed : typedInput? tree toNode toSocket = some input) :
    ∃ target, tree.node? toNode = some target ∧ target.hasInput toSocket = true := by
  rw [typedInput?, Option.filter_eq_some_iff, Option.bind_eq_some_iff] at typed
  obtain ⟨⟨target, found, named⟩, -⟩ := typed
  exact ⟨target, found, by rw [Node.hasInput_eq_isSome, named]; rfl⟩

def linkParameter (tree : Tree) (group : Node) (target : String × String) (input : Socket)
    (stamp : Stamp) : Tree :=
  (tree.updateNode group.identifier (addParameter · input.type input.name input.value)).relink
    ⟨group.identifier, nextParameter group, target.1, target.2⟩ stamp

theorem link_addParameter (found : tree.node? group.identifier = some group)
    {target : String × String} {input : Socket}
    (typed : typedInput? tree target.1 target.2 = some input) :
    (tree.updateNode group.identifier (addParameter · input.type input.name input.value)).link
        ⟨group.identifier, nextParameter group, target.1, target.2⟩ stamp =
      .ok (linkParameter tree group target input stamp) := by
  let extended := tree.updateNode group.identifier
    (addParameter · input.type input.name input.value)
  have lookup (other : String) := tree.node?_updateNode
    (identifier_addParameter · input.type input.name input.value) group.identifier other
  have source : extended.node? group.identifier =
      some (addParameter group input.type input.name input.value) := by
    rw [lookup, if_pos rfl, found]
    rfl
  have output : (addParameter group input.type input.name input.value).hasOutput
      (nextParameter group) = true :=
    Node.hasOutput_iff.mpr (nextParameter_mem group input.type input.name input.value)
  have target : ∃ entered, extended.node? target.1 = some entered ∧
      entered.hasInput target.2 = true := by
    obtain ⟨entered, there, named⟩ := exists_of_typedInput? typed
    rw [lookup, there]
    split
    · refine ⟨_, rfl, ?_⟩
      rwa [Node.hasInput, inputs_addParameter]
    · exact ⟨entered, rfl, named⟩
  obtain ⟨entered, there, named⟩ := target
  exact Tree.link_eq_ok.mpr ⟨_, entered, source, output, there, named, rfl⟩

theorem typedInput?_linkParameter (tree : Tree) (group : Node) (target : String × String)
    (input : Socket) (stamp : Stamp) (toNode toSocket : String) :
    typedInput? (linkParameter tree group target input stamp) toNode toSocket =
      typedInput? tree toNode toSocket :=
  (typedInput?_congr rfl toNode toSocket).trans
    (typedInput?_updateNode (identifier_addParameter · _ _ _) (inputs_addParameter · _ _ _) _ _ _)

theorem node?_linkParameter (found : tree.node? group.identifier = some group)
    (target : String × String) (input : Socket) (stamp : Stamp) :
    (linkParameter tree group target input stamp).node? group.identifier =
      some (addParameter group input.type input.name input.value) := by
  have lookup := tree.node?_updateNode
    (identifier_addParameter · input.type input.name input.value) group.identifier group.identifier
  rw [if_pos rfl, found, Option.map_some] at lookup
  exact lookup

/-! A node with several parameters more. -/

/-- The node with parameters in front of the new-parameter socket, which is last from then on. -/
def withParameters (node : Node) : List Socket → Node
  | [] => node
  | first :: rest =>
    { node with
      outputs :=
        parameters node ++ first :: rest ++ (Socket.find? node.outputs newParameterSocket).toList }

theorem identifier_withParameters (node : Node) (added : List Socket) :
    (withParameters node added).identifier = node.identifier := by
  cases added <;> rfl

def parameterOf (group : Node) (input : Socket) : Socket :=
  { input with identifier := nextParameter group }

theorem addParameter_eq_withParameters (nodup : (group.outputs.map (·.identifier)).Nodup)
    (input : Socket) :
    addParameter group input.type input.name input.value =
      withParameters group [parameterOf group input] := by
  rw [addParameter_eq, outputs_addParameter nodup, withParameters, List.append_assoc,
    List.singleton_append]
  rfl

theorem find?_parameters (node : Node) :
    Socket.find? (parameters node) newParameterSocket = none := by
  rw [Socket.find?, List.find?_eq_none]
  intro socket member
  simpa using (List.mem_filter.mp member).2

theorem withParameters_withParameters {added : Socket}
    (parameter : added.identifier ≠ newParameterSocket) (more : List Socket) :
    withParameters (withParameters group [added]) more = withParameters group (added :: more) := by
  cases more with
  | nil => rfl
  | cons second more =>
      have outputs : (withParameters group [added]).outputs = parameters group ++ ([added] ++
          (Socket.find? group.outputs newParameterSocket).toList) :=
        List.append_assoc _ _ _
      have first : parameters (withParameters group [added]) = parameters group ++ [added] := by
        rw [parameters, outputs]
        cases found : Socket.find? group.outputs newParameterSocket with
        | none => simp [parameters, parameter]
        | some last =>
            have named : last.identifier = newParameterSocket := by
              simpa using List.find?_some found
            simp [parameters, parameter, named]
      have last : Socket.find? (withParameters group [added]).outputs newParameterSocket =
          Socket.find? group.outputs newParameterSocket := by
        rw [outputs, Socket.find?, List.find?_append, ← Socket.find?, find?_parameters]
        cases found : Socket.find? group.outputs newParameterSocket with
        | none => simp [parameter]
        | some last =>
            have named : last.identifier = newParameterSocket := by
              simpa using List.find?_some found
            simp [parameter, named]
      calc
        withParameters (withParameters group [added]) (second :: more)
            = { group with
                outputs := parameters (withParameters group [added]) ++ second :: more ++
                  (Socket.find? (withParameters group [added]).outputs
                    newParameterSocket).toList } := rfl
        _ = withParameters group (added :: second :: more) := by
            rw [first, last, List.append_assoc (parameters group)]
            rfl

theorem perm_outputs_withParameters (nodup : (group.outputs.map (·.identifier)).Nodup)
    (input : Socket) :
    (withParameters group [parameterOf group input]).outputs.Perm
      (group.outputs ++ [parameterOf group input]) := by
  rw [← addParameter_eq_withParameters nodup]
  exact perm_outputs_keepNewParameterLast _

theorem nodes_linkParameter (found : tree.node? group.identifier = some group)
    (nodup : (group.outputs.map (·.identifier)).Nodup) (target : String × String) (input : Socket)
    (stamp : Stamp) :
    (linkParameter tree group target input stamp).nodes =
      (tree.updateNode group.identifier fun _ =>
        withParameters group [parameterOf group input]).nodes := by
  rw [← addParameter_eq_withParameters nodup]
  exact updateFirst_congr found _

/-! What the loop over the targets does. -/

/-- An input that is absorbed, and the parameter that comes to feed it. -/
structure Absorption where
  target : String × String
  parameter : Socket

def Absorption.link (group : String) (absorption : Absorption) : Link :=
  ⟨group, absorption.parameter.identifier, absorption.target.1, absorption.target.2⟩

/-- What absorbing targets does to a tree, the targets being distinct. -/
structure AbsorbedInto (group : Node) (targets : List (String × String)) (tree : Tree)
    (absorbed : List Absorption) (changed : Tree) : Prop where
  typed : absorbed.map (·.target) =
    targets.filter fun target => (typedInput? tree target.1 target.2).isSome
  inputs : ∀ one ∈ absorbed, ∃ input, typedInput? tree one.target.1 one.target.2 = some input ∧
    one.parameter = { input with identifier := one.parameter.identifier }
  named : ∀ one ∈ absorbed, IsParameter one.parameter.identifier
  distinct : ((group.outputs ++ absorbed.map (·.parameter)).map (·.identifier)).Nodup
  nodes : changed.nodes = (tree.updateNode group.identifier fun _ =>
    withParameters group (absorbed.map (·.parameter))).nodes
  links : changed.links =
    tree.links.filter (fun link => link.target ∉ targets) ++
      absorbed.map (·.link group.identifier)

variable {targets : List (String × String)} {target : String × String} {absorbed : List Absorption}

theorem AbsorbedInto.nil (found : tree.node? group.identifier = some group)
    (distinct : (group.outputs.map (·.identifier)).Nodup) : AbsorbedInto group [] tree [] tree where
  typed := rfl
  inputs _ member := by cases member
  named _ member := by cases member
  distinct := by rwa [List.map_nil, List.append_nil]
  nodes := (updateFirst_self found).symm
  links := by simp

theorem filter_not_entersInput (links : List Link) (targets : List (String × String))
    (target : String × String) :
    (links.filter fun link => !link.entersInput target.1 target.2).filter
        (fun link => link.target ∉ targets) =
      links.filter fun link => link.target ∉ target :: targets := by
  rw [List.filter_filter]
  refine List.filter_congr fun link _ => ?_
  have enters : link.entersInput target.1 target.2 = true ↔ link.target = target :=
    Link.entersInput_iff
  by_cases here : link.target = target
  · simp [here, enters.mpr here]
  · have apart : link.entersInput target.1 target.2 = false := by
      rw [← Bool.not_eq_true, enters]
      exact here
    simp [here, apart]

theorem AbsorbedInto.skip (untyped : typedInput? tree target.1 target.2 = none)
    (into : AbsorbedInto group targets (tree.unlink target.1 target.2 stamp).2 absorbed changed) :
    AbsorbedInto group (target :: targets) tree absorbed changed := by
  have nodes := tree.nodes_unlink target.1 target.2 stamp
  have same := typedInput?_congr nodes
  refine ⟨?_, ?_, into.named, into.distinct, ?_, ?_⟩
  · rw [into.typed, List.filter_cons_of_neg (by simp [untyped])]
    simp only [same]
  · simpa only [same] using into.inputs
  · rw [into.nodes, Tree.updateNode, nodes]
    rfl
  · rw [into.links, Tree.links_unlink, filter_not_entersInput]

theorem AbsorbedInto.cons (found : tree.node? group.identifier = some group)
    (distinct : (group.outputs.map (·.identifier)).Nodup) (fresh : target ∉ targets)
    {input : Socket} (typed : typedInput? tree target.1 target.2 = some input)
    (into : AbsorbedInto (withParameters group [parameterOf group input]) targets
      (linkParameter tree group target input stamp) absorbed changed) :
    AbsorbedInto group (target :: targets) tree (⟨target, parameterOf group input⟩ :: absorbed)
      changed := by
  have same := typedInput?_linkParameter tree group target input stamp
  have parameter := isParameter_nextParameter group
  refine ⟨?_, ?_, ?_, ?_, ?_, ?_⟩
  · rw [List.map_cons, into.typed, List.filter_cons_of_pos (by simp [typed])]
    simp only [same]
  · refine List.forall_mem_cons.mpr ⟨⟨input, typed, rfl⟩, ?_⟩
    simpa only [same] using into.inputs
  · exact List.forall_mem_cons.mpr ⟨parameter, into.named⟩
  · have perm := (perm_outputs_withParameters distinct input).append_right
      (absorbed.map (·.parameter))
    rw [List.append_assoc, List.singleton_append] at perm
    exact (perm.map (·.identifier)).nodup_iff.mp into.distinct
  · have again : withParameters (withParameters group [parameterOf group input])
          (absorbed.map (·.parameter)) =
        withParameters group (parameterOf group input :: absorbed.map (·.parameter)) :=
      withParameters_withParameters parameter.ne_newParameterSocket _
    rw [into.nodes, identifier_withParameters, again]
    calc
      ((linkParameter tree group target input stamp).updateNode group.identifier _).nodes
          = ((tree.updateNode group.identifier fun _ => withParameters group
              [parameterOf group input]).updateNode group.identifier _).nodes :=
            congrArg (updateFirst _ _) (nodes_linkParameter found distinct target input stamp)
      _ = _ := by
            rw [Tree.updateNode_updateNode fun _ _ => identifier_withParameters group _]
            rfl
  · let new := Absorption.link group.identifier ⟨target, parameterOf group input⟩
    have kept : [new].filter (fun link => link.target ∉ targets) = [new] :=
      List.filter_eq_self.mpr (List.forall_mem_singleton.mpr (decide_eq_true fresh))
    have links : (linkParameter tree group target input stamp).links =
        tree.links.filter (fun link => !link.entersInput target.1 target.2) ++ [new] := rfl
    rw [into.links, identifier_withParameters, links, List.filter_append, filter_not_entersInput,
      kept, List.append_assoc, List.singleton_append, List.map_cons]

/-- The loop never fails: what it adds can be linked. -/
theorem absorbInto_eq_ok (nodup : targets.Nodup) (found : tree.node? group.identifier = some group)
    (distinct : (group.outputs.map (·.identifier)).Nodup) (stamp : Stamp) :
    ∃ absorbed changed, absorbInto group.identifier stamp targets tree =
      .ok (absorbed.length, changed) ∧ AbsorbedInto group targets tree absorbed changed := by
  induction targets generalizing tree group with
  | nil => exact ⟨[], tree, rfl, .nil found distinct⟩
  | cons target rest ih =>
      obtain ⟨fresh, nodup⟩ := List.nodup_cons.mp nodup
      cases typed : typedInput? tree target.1 target.2 with
      | none =>
          have there : (tree.unlink target.1 target.2 stamp).2.node? group.identifier =
              some group := by
            rw [Tree.node?, Tree.nodes_unlink]
            exact found
          obtain ⟨absorbed, changed, ran, into⟩ := ih nodup there distinct
          refine ⟨absorbed, changed, ?_, into.skip typed⟩
          rw [absorbInto, typed]
          exact ran
      | some input =>
          have there := node?_linkParameter found target input stamp
          rw [addParameter_eq_withParameters distinct] at there
          have apart : ((withParameters group [parameterOf group input]).outputs.map
              (·.identifier)).Nodup := by
            refine ((perm_outputs_withParameters distinct input).map _).nodup_iff.mpr ?_
            rw [List.map_append, List.map_singleton]
            exact distinct.append (List.nodup_singleton _)
              (List.disjoint_singleton.mpr (nextParameter_not_mem group))
          rw [← identifier_withParameters group [parameterOf group input]] at there
          obtain ⟨absorbed, changed, ran, into⟩ := ih nodup there apart
          rw [identifier_withParameters] at ran
          refine ⟨⟨target, parameterOf group input⟩ :: absorbed, changed, ?_,
            .cons found distinct fresh typed into⟩
          simp only [absorbInto, typed, Tree.requireNode, found, bind, Except.bind,
            link_addParameter found typed, ran]
          rfl

theorem AbsorbedInto.node? (found : tree.node? group.identifier = some group)
    (into : AbsorbedInto group targets tree absorbed changed) :
    changed.node? group.identifier = some (withParameters group (absorbed.map (·.parameter))) := by
  have lookup := tree.node?_updateNode
    (identifier_withParameters · (absorbed.map (·.parameter))) group.identifier group.identifier
  rw [if_pos rfl, found, Option.map_some, Tree.nodes_updateNode found] at lookup
  rw [Tree.node?, into.nodes]
  exact lookup

theorem AbsorbedInto.eq_link (nodup : targets.Nodup)
    (into : AbsorbedInto group targets tree absorbed changed) {one : Absorption}
    (inside : one ∈ absorbed) {link : Link} (member : link ∈ changed.links)
    (same : link.target = one.target) : link = one.link group.identifier := by
  have distinct : (absorbed.map (·.target)).Nodup := into.typed ▸ nodup.filter _
  rw [into.links, List.mem_append] at member
  rcases member with old | new
  · have typed : one.target ∈ absorbed.map (·.target) := List.mem_map_of_mem inside
    rw [into.typed] at typed
    have apart : link.target ∉ targets := by simpa using (List.mem_filter.mp old).2
    exact absurd (same ▸ (List.mem_filter.mp typed).1) apart
  · obtain ⟨other, also, rfl⟩ := List.mem_map.mp new
    rw [List.inj_on_of_nodup_map distinct also inside same]

/-- Where inputs are singly linked, the links into the targets are those that leave the socket. -/
theorem target_mem_absorbTargets_iff (single : tree.SinglyLinked) {link : Link}
    (member : link ∈ tree.links) :
    link.target ∈ absorbTargets tree node ↔ link.leavesOutput node newParameterSocket = true := by
  constructor
  · intro absorbed
    obtain ⟨other, leaves, same⟩ := List.mem_map.mp absorbed
    obtain ⟨inside, leaves⟩ := List.mem_filter.mp leaves
    rwa [← List.inj_on_of_nodup_map (Tree.singlyLinked_iff.mp single) inside member same]
  · exact fun leaves => List.mem_map_of_mem (List.mem_filter.mpr ⟨member, leaves⟩)

theorem AbsorbedInto.links_eq (single : tree.SinglyLinked)
    (into : AbsorbedInto group (absorbTargets tree group.identifier) tree absorbed changed) :
    changed.links =
      tree.links.filter (fun link => !link.leavesOutput group.identifier newParameterSocket) ++
        absorbed.map (·.link group.identifier) := by
  rw [into.links]
  congr 1
  refine List.filter_congr fun link member => ?_
  simp [target_mem_absorbTargets_iff single member]

theorem AbsorbedInto.leavesOutput_eq_false (single : tree.SinglyLinked)
    (into : AbsorbedInto group (absorbTargets tree group.identifier) tree absorbed changed)
    {link : Link} (member : link ∈ changed.links) :
    link.leavesOutput group.identifier newParameterSocket = false := by
  rw [into.links_eq single, List.mem_append] at member
  rcases member with old | new
  · simpa using (List.mem_filter.mp old).2
  · obtain ⟨one, inside, rfl⟩ := List.mem_map.mp new
    simp [Link.leavesOutput, Absorption.link, (into.named one inside).ne_newParameterSocket]

/-- Every typed input that the new-parameter socket of a node feeds gets a parameter of its own in
its place; links into other inputs are dropped, and nothing else changes. To absorb again changes
nothing. -/
theorem absorb_eq_ok (intact : tree.Intact) (found : tree.node? group.identifier = some group)
    (stamp : Stamp) :
    ∃ (absorbed : List Absorption) (changed : Tree),
      absorb tree group.identifier stamp = .ok (absorbed.length, changed) ∧
      AbsorbedInto group (absorbTargets tree group.identifier) tree absorbed changed ∧
      changed.links =
        tree.links.filter (fun link => !link.leavesOutput group.identifier newParameterSocket) ++
          absorbed.map (·.link group.identifier) ∧
      (∀ link ∈ changed.links, link.leavesOutput group.identifier newParameterSocket = false) ∧
      (∀ one ∈ absorbed, ∀ link ∈ changed.links, link.target = one.target →
        link = one.link group.identifier) ∧
      ∀ later, absorb changed group.identifier later = .ok (0, changed) := by
  have nodup : (absorbTargets tree group.identifier).Nodup :=
    (List.filter_sublist.map Link.target).nodup (Tree.singlyLinked_iff.mp intact.single)
  obtain ⟨absorbed, changed, ran, into⟩ := absorbInto_eq_ok nodup found
    (intact.sockets group (Tree.mem_of_node? found).1 .output) stamp
  refine ⟨absorbed, changed, ?_, into, into.links_eq intact.single,
    fun link => into.leavesOutput_eq_false intact.single,
    fun one inside link => into.eq_link nodup inside, fun later => ?_⟩
  · rw [absorb, Tree.requireNode, found]
    exact ran
  · have none : absorbTargets changed group.identifier = [] := by
      rw [absorbTargets, List.filter_eq_nil_iff.mpr fun link member => by
        simp [into.leavesOutput_eq_false intact.single member]]
      rfl
    rw [absorb, Tree.requireNode, into.node? found, none]
    rfl

/-- A new group input that is linked to two typed inputs, an empty one and one that is missing, and
a link from elsewhere that has lost an end. -/
def mixedTargets : Tree :=
  { Tree.new "Main" ⟨0, ""⟩ with
    nodes := [groupInput.create (Node.ofKind "g" "an_GroupInput"),
      [.ofType .float "X" "x", .ofType .empty "Open" "open", .ofType .string "Y" "y",
        .ofType .float "Z" "z"].foldl Node.addInput (Node.ofKind "n" "an_DebugNode")]
    links := [⟨"g", newParameterSocket, "n", "y"⟩, ⟨"g", newParameterSocket, "n", "open"⟩,
      ⟨"m", "result", "n", "z"⟩, ⟨"g", newParameterSocket, "n", "missing"⟩,
      ⟨"g", newParameterSocket, "n", "x"⟩] }

theorem intact_mixedTargets : mixedTargets.Intact where
  distinct := by decide
  sockets node member side := by fin_cases member <;> cases side <;> decide
  single := Tree.singlyLinked_iff.mpr (by decide)

theorem absorb_eq_ok_mixedTargets :
    ∃ (absorbed : List Absorption) (changed : Tree),
      absorb mixedTargets "g" ⟨1, ""⟩ = .ok (absorbed.length, changed) ∧
      absorbed.map (·.target) = [("n", "y"), ("n", "x")] ∧
      changed.links = [⟨"m", "result", "n", "z"⟩, ⟨"g", "parameter", "n", "y"⟩,
        ⟨"g", "parameter_001", "n", "x"⟩] ∧
      absorb changed "g" ⟨2, ""⟩ = .ok (0, changed) := by
  obtain ⟨absorbed, changed, ran, into, -, -, -, again⟩ :=
    @absorb_eq_ok mixedTargets (groupInput.create (Node.ofKind "g" "an_GroupInput"))
      intact_mixedTargets rfl ⟨1, ""⟩
  refine ⟨absorbed, changed, ran, into.typed.trans (by decide), ?_, again _⟩
  have computed : (absorb mixedTargets "g" ⟨1, ""⟩).toOption.map (·.2.links) =
      some [⟨"m", "result", "n", "z"⟩, ⟨"g", "parameter", "n", "y"⟩,
        ⟨"g", "parameter_001", "n", "x"⟩] := by
    decide +kernel
  rw [show absorb mixedTargets "g" ⟨1, ""⟩ = _ from ran] at computed
  exact Option.some.inj computed

end Catalog.GroupInput

end FrameGraph
