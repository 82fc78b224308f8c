import FrameGraph.Proofs.ProcedureBody
import FrameGraph.Proofs.StandardCode

/-!
Variables that are assigned before they are used. Main statement: in the procedure of a tree of
standard nodes, a line that assigns the variable of an output stands above all lines of the nodes
that the output is linked to, unless the code of its node leaves the output out.
-/

namespace FrameGraph

open Variables

/-- Whether the line assigns the variable, alone or with others. -/
def Assigns (line name : String) : Prop :=
  ∃ targets value, name ∈ targets ∧ (∀ target ∈ targets, IsName target) ∧
    line = ", ".intercalate targets ++ " = " ++ value

theorem assigns_single {name : String} (isName : IsName name) (value : String) :
    Assigns (name ++ " = " ++ value) name :=
  ⟨[name], value, List.mem_cons_self, fun _ member => List.mem_singleton.mp member ▸ isName,
    by simp⟩

theorem Assigns.eq_of_single {line name other : String} (assigns : Assigns line other)
    (isName : IsName name) (value : String) (whole : name ++ " = " ++ value = line) :
    other = name := by
  subst whole
  obtain ⟨targets, assigned, member, names, line⟩ := assigns
  have front (target : String) (isName : IsName target) (d : Char) (ends : isNameChar d = false)
      (rest : List Char) : Lexeme.splitWhile isNameChar (target.toList ++ d :: rest) =
        (target.toList, d :: rest) := by
    refine Lexeme.splitWhile_boundary isName.each fun c head => ?_
    obtain rfl : d = c := Option.some.inj head
    exact ends
  have chars := congrArg (fun s => Lexeme.splitWhile isNameChar s.toList) line
  cases targets with
  | nil => cases member
  | cons first rest =>
      have head := names first List.mem_cons_self
      cases rest with
      | nil =>
          obtain rfl := List.mem_singleton.mp member
          have same : name = other ∧ value = assigned := by
            simpa [front _ isName ' ' rfl, front _ head ' ' rfl, String.toList_inj] using chars
          exact same.1.symm
      | cons second rest =>
          simp [String.intercalate_cons_cons, front _ isName ' ' rfl, front _ head ',' rfl] at chars

namespace Tree

open Catalog

variable {tree : Tree} {registry : Registry} {options : CompileOptions} {node : Node}

theorem isName_outputVariable (member : node ∈ tree.nodes) {socket : String}
    (inside : socket ∈ node.identifiers .output) :
    IsName (tree.outputVariable node.identifier socket) := by
  obtain ⟨output, declared, rfl⟩ := List.mem_map.mp inside
  exact isName_of_output? (output?_outputVariable member declared)

theorem assigns_callLine (member : node ∈ tree.nodes) {socket : String}
    (inside : socket ∈ node.identifiers .output) :
    Assigns (tree.callLine node) (tree.outputVariable node.identifier socket) := by
  obtain ⟨output, (declared : output ∈ node.outputs), rfl⟩ := List.mem_map.mp inside
  have nonempty : (node.outputs.map fun socket =>
      tree.outputVariable node.identifier socket.identifier).isEmpty = false := by
    simpa using List.ne_nil_of_mem declared
  refine ⟨node.outputs.map fun socket => tree.outputVariable node.identifier socket.identifier,
    tree.nodeVariable node.identifier ++ ".execute(" ++
      ", ".intercalate (node.inputs.map (tree.inputValue node)) ++ ")",
    List.mem_map_of_mem declared, ?_, ?_⟩
  · intro target written
    obtain ⟨other, declared, rfl⟩ := List.mem_map.mp written
    exact isName_outputVariable member (List.mem_map_of_mem declared)
  · simp only [callLine, nonempty, Bool.false_eq_true, if_false, String.append_assoc]

theorem WellFormed.contributionLines_raw (wellFormed : tree.WellFormed registry)
    (member : node ∈ tree.nodes) {code : RawCode} (nonempty : code.isEmpty = false)
    (closed : ∀ line ∈ Text.lines code.joined, Lexeme.Closed line) :
    tree.contributionLines node (.raw code) =
      (Text.lines code.joined).map (Lexeme.rewrite (tree.replacement node)) := by
  have rewritten : Lexeme.rewrite (tree.replacement node) code.joined =
      Text.joinLines ((Text.lines code.joined).map (Lexeme.rewrite (tree.replacement node))) := by
    rw [← Lexeme.rewrite_joinLines closed, Text.joinLines_lines]
  rw [contributionLines, nonempty, if_neg Bool.false_ne_true, rewritten]
  refine Text.lines_joinLines (by simpa using Text.lines_ne_nil code.joined) fun line inside => ?_
  obtain ⟨piece, cut, rfl⟩ := List.mem_map.mp inside
  exact Lexeme.isLine_rewrite (fun _ => wellFormed.isLine_replacement member)
    (Text.isLine_of_mem_lines cut)

theorem replacement_output {socket : String} (output : socket ∈ node.identifiers .output)
    (free : socket ∉ node.identifiers .input) :
    tree.replacement node socket = tree.outputVariable node.identifier socket := by
  have noInput : node.input? socket = none := by
    rw [Node.input?, Socket.find?, List.find?_eq_none]
    intro input member named
    exact free (List.mem_map.mpr ⟨input, member, by simpa using named⟩)
  rw [replacement, noInput]
  exact if_pos (Node.hasOutput_iff.mpr output)

theorem isOutputLinked_ofNode {socket : String} (inside : socket ∈ node.identifiers .output)
    (linked : tree.isOutputLinked node.identifier socket = true) :
    (LinkContext.ofNode tree node).isOutputLinked socket = true :=
  List.contains_iff_mem.mpr (List.mem_filter.mpr ⟨inside, linked⟩)

/-- A node assigns each of its outputs that is linked, those apart that its code leaves out. -/
theorem WellFormed.exists_assigns (wellFormed : tree.WellFormed Catalog.registry)
    (member : node ∈ tree.nodes) (standard : Standard node) {socket : String}
    (inside : socket ∈ node.identifiers .output)
    (linked : tree.isOutputLinked node.identifier socket = true)
    (assigned : ¬ Unassigned node.kind socket) :
    ∃ line ∈ tree.nodeLines Catalog.registry node,
      Assigns line (tree.outputVariable node.identifier socket) := by
  obtain ⟨kind, registered⟩ := wellFormed.registered node member
  obtain ⟨known, named⟩ := Registry.mem_of_kind?_ofKinds registered
  have lines : tree.nodeLines Catalog.registry node =
      tree.contributionLines node (kind.code node (.ofNode tree node)) := by
    rw [nodeLines, registered]
  rw [lines]
  rcases code_of_mem known with procedure | ⟨inline, rfl⟩
  · rw [procedure]
    exact ⟨_, List.mem_cons_self, assigns_callLine member inside⟩
  · have same : node.kind = inline.idName := named.symm
    obtain ⟨code, contributed, computes⟩ := inline.exists_computes standard same inside
      (isOutputLinked_ofNode inside linked) assigned
    obtain ⟨value, written⟩ := computes.assigned
    obtain ⟨identifier, free⟩ := standard.isIdentifier_and_free inline same inside assigned
    obtain ⟨rewritten, line⟩ := Lexeme.rewrite_assignment identifier value
    rw [contributed, wellFormed.contributionLines_raw member computes.nonempty computes.closed]
    refine ⟨_, List.mem_map_of_mem written, ?_⟩
    rw [line, replacement_output inside free]
    exact assigns_single (isName_outputVariable member inside) rewritten

theorem WellFormed.mem_before (wellFormed : tree.WellFormed registry) {order : List String}
    (ordered : tree.evaluationOrder = .ok order) {before after : List Node} {target : Node}
    (split : order.filterMap tree.node? = before ++ target :: after) {link : Link}
    (member : link ∈ tree.links) (into : link.toNode = target.identifier)
    (inside : node ∈ tree.nodes) (starts : node.identifier = link.fromNode) : node ∈ before := by
  obtain ⟨named, perm⟩ := wellFormed.nodes_of_order ordered
  have positions : order = before.map (·.identifier) ++
      target.identifier :: after.map (·.identifier) := by
    rw [← named, split, List.map_append, List.map_cons]
  have feeds : tree.Feeds link.fromNode target.identifier := into ▸ wellFormed.feeds member
  have earlier := (isOrder_evaluationOrder wellFormed.distinct ordered).sourcesFirst _ _ _
    positions link.fromNode feeds
  obtain ⟨first, taken, same⟩ := List.mem_map.mp earlier
  have firstInside : first ∈ tree.nodes := perm.subset (split ▸ List.mem_append_left _ taken)
  exact wellFormed.eq_of_identifier firstInside inside (same.trans starts.symm) ▸ taken

theorem WellFormed.linked_output (wellFormed : tree.WellFormed registry) {link : Link}
    (member : link ∈ tree.links) (inside : node ∈ tree.nodes)
    (starts : node.identifier = link.fromNode) :
    link.fromSocket ∈ node.identifiers .output ∧
      tree.isOutputLinked node.identifier link.fromSocket = true := by
  obtain ⟨source, sourceInside, named, socket, output, same⟩ := wellFormed.sources link member
  obtain rfl := wellFormed.eq_of_identifier sourceInside inside (named.trans starts.symm)
  exact ⟨same ▸ List.mem_map_of_mem output,
    List.any_eq_true.mpr ⟨link, member, by simp [Link.leavesOutput, starts]⟩⟩

/-- However a tree has been edited, its procedure goes through the nodes one after the other, and
above the lines of a node stands, for each link into it, a line that assigns the variable of the
output it comes from. Left out are outputs that the code of their node passes over. -/
theorem Reachable.assigned_before_use (reached : tree.Reachable Catalog.registry .any)
    {compiled : Compiled} (done : tree.compile Catalog.registry options = .ok compiled) :
    ∃ nodes : List Node, nodes.Perm tree.nodes ∧
      compiled.procedure.body =
        (nodes.flatMap fun node => tree.commentLines Catalog.registry options node ++
          tree.nodeLines Catalog.registry node) ∧
      ∀ before target after, nodes = before ++ target :: after →
        ∀ link ∈ tree.links, link.toNode = target.identifier →
          ∀ source ∈ tree.nodes, source.identifier = link.fromNode →
            ¬ Unassigned source.kind link.fromSocket →
              ∃ line ∈ before.flatMap (tree.nodeLines Catalog.registry),
                Assigns line (tree.outputVariable link.fromNode link.fromSocket) := by
  have standard := standard_of_reachable reached
  obtain ⟨wellFormed, order, compiledNodes, ordered, compiledAll, rfl⟩ := compile_ok done
  refine ⟨order.filterMap tree.node?, (wellFormed.nodes_of_order ordered).2,
    wellFormed.body_link (fun node member => (standard node member).distinct .input) compiledAll,
    ?_⟩
  intro before target after split link member into source inside starts assigned
  have taken := wellFormed.mem_before ordered split member into inside starts
  obtain ⟨output, linked⟩ := wellFormed.linked_output member inside starts
  obtain ⟨line, written, assigns⟩ :=
    wellFormed.exists_assigns inside (standard source inside) output linked assigned
  exact ⟨line, List.mem_flatMap.mpr ⟨source, taken, written⟩, starts ▸ assigns⟩

def ofChanges (changes : List Change) : Tree :=
  changes.foldl (fun tree change => change.apply Catalog.registry ⟨0, ""⟩ tree)
    (Tree.new "Main" ⟨0, ""⟩)

theorem reachable_ofChanges {changes : List Change}
    (made : ∀ change ∈ changes, ∀ node, change ≠ .edit (.addNode node)) :
    (ofChanges changes).Reachable Catalog.registry .any :=
  (Reachable.new "Main" ⟨0, ""⟩).foldl ⟨0, ""⟩ made

def invertedParameter : Tree :=
  ofChanges
    [.edit (.newNode "an_QuaternionMathNode" "r"), .edit (.newNode "an_QuaternionMathNode" "q"),
      .edit (.newNode "an_GroupInput" "g"),
      .edit (.setProperty "q" "operation" (.string "INVERT")),
      .edit (.setProperty "r" "operation" (.string "CONJUGATE")),
      .edit (.link ⟨"g", "newParameter", "q", "a"⟩), .edit (.absorbParameters "g"),
      .edit (.link ⟨"q", "result", "r", "a"⟩)]

theorem Reachable.assigned_before_use_invertedParameter :
    invertedParameter.links = [⟨"g", "parameter", "q", "a"⟩, ⟨"q", "result", "r", "a"⟩] ∧
    ∃ compiled, invertedParameter.compile Catalog.registry .production = .ok compiled ∧
      compiled.procedure.body =
        ["g_parameter = g.parameters.get(\"parameter\", mathutils.Quaternion((1.0, 0.0, 0.0, 0.0)))",
          "q_result = g_parameter.inverted()",
          "r_result = q_result.conjugated()"] ∧
      ∃ nodes : List Node, nodes.Perm invertedParameter.nodes ∧
        compiled.procedure.body =
          (nodes.flatMap fun node =>
            invertedParameter.commentLines Catalog.registry .production node ++
              invertedParameter.nodeLines Catalog.registry node) ∧
        ∀ before target after, nodes = before ++ target :: after →
          ∀ link ∈ invertedParameter.links, link.toNode = target.identifier →
            ∀ source ∈ invertedParameter.nodes, source.identifier = link.fromNode →
              ¬ Unassigned source.kind link.fromSocket →
                ∃ line ∈ before.flatMap (invertedParameter.nodeLines Catalog.registry),
                  Assigns line (invertedParameter.outputVariable link.fromNode link.fromSocket) := by
  have links : invertedParameter.links =
      [⟨"g", "parameter", "q", "a"⟩, ⟨"q", "result", "r", "a"⟩] := by
    decide +kernel
  have body : (invertedParameter.compile Catalog.registry .production).toOption.map
      (·.procedure.body) = some
        ["g_parameter = g.parameters.get(\"parameter\", mathutils.Quaternion((1.0, 0.0, 0.0, 0.0)))",
          "q_result = g_parameter.inverted()",
          "r_result = q_result.conjugated()"] := by
    decide +kernel
  have reached : invertedParameter.Reachable Catalog.registry .any :=
    reachable_ofChanges (by simp)
  cases done : invertedParameter.compile Catalog.registry .production with
  | error error =>
      rw [done] at body
      contradiction
  | ok compiled =>
      rw [done] at body
      exact ⟨links, compiled, rfl, Option.some.inj body, reached.assigned_before_use done⟩

/-- Whether edits lead to the tree and it compiles, although no line of the body assigns what the
link carries. -/
structure LeavesUnassigned (tree : Tree) (link : Link) (body : List String) : Prop where
  reached : tree.Reachable Catalog.registry .any
  linked : link ∈ tree.links
  compiled : (tree.compile Catalog.registry .production).toOption.map (·.procedure.body) = some body
  unassigned : ∀ line ∈ body, ¬ Assigns line (tree.outputVariable link.fromNode link.fromSocket)

def placeholderLinked : Tree :=
  ofChanges
    [.edit (.newNode "an_GroupInput" "g"), .edit (.newNode "an_ObjectGroupInput" "o"),
      .edit (.link ⟨"g", "newParameter", "o", "group"⟩)]

def strayParameter : Tree :=
  ofChanges
    [.edit (.newNode "an_QuaternionMathNode" "q"), .edit (.newNode "an_ObjectGroupInput" "o"),
      .edit (.setProperty "q" "operation" (.string "INVERT")),
      .newParameter "q" .objectGroup "Group" .none,
      .edit (.link ⟨"q", "parameter", "o", "group"⟩)]

/-- Both exceptions are needed: the call uses a variable that the body does not assign. -/
theorem leavesUnassigned_placeholder_and_stray :
    placeholderLinked.LeavesUnassigned ⟨"g", "newParameter", "o", "group"⟩
      ["o_objects = o.execute(g_newParameter)"] ∧
    strayParameter.LeavesUnassigned ⟨"q", "parameter", "o", "group"⟩
      ["q_result = mathutils.Quaternion((1.0, 0.0, 0.0, 0.0)).inverted()",
        "o_objects = o.execute(q_parameter)"] := by
  have objects : IsName "o_objects" := isName_ofList rfl rfl
  have result : IsName "q_result" := isName_ofList rfl rfl
  have placeholder : placeholderLinked.outputVariable "g" "newParameter" = "g_newParameter" := by
    decide +kernel
  have stray : strayParameter.outputVariable "q" "parameter" = "q_parameter" := by
    decide +kernel
  constructor
  · refine ⟨reachable_ofChanges (by simp), by decide +kernel, by decide +kernel, ?_⟩
    rw [placeholder]
    simp only [List.forall_mem_cons]
    refine ⟨fun assigns => ?_, List.forall_mem_nil _⟩
    exact absurd (assigns.eq_of_single objects "o.execute(g_newParameter)" rfl) (by decide)
  · refine ⟨reachable_ofChanges (by simp), by decide +kernel, by decide +kernel, ?_⟩
    rw [stray]
    simp only [List.forall_mem_cons]
    refine ⟨fun assigns => ?_, fun assigns => ?_, List.forall_mem_nil _⟩
    · have named := assigns.eq_of_single result
        "mathutils.Quaternion((1.0, 0.0, 0.0, 0.0)).inverted()" rfl
      exact absurd named (by decide)
    · exact absurd (assigns.eq_of_single objects "o.execute(q_parameter)" rfl) (by decide)

end Tree

end FrameGraph
