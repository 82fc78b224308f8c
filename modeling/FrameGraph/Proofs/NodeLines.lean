import FrameGraph.Compile.Linking
import FrameGraph.Kind.Registry
import FrameGraph.Proofs.CodeRewriting
import FrameGraph.Proofs.FragmentText
import FrameGraph.Proofs.LiteralText
import FrameGraph.Proofs.Validation
import FrameGraph.Proofs.VariableNames

/-!
The lines of a node in a well-formed tree, said without tokens. Main statement: linking the lines
that a node contributes gives its call or its code with the names replaced.
-/

namespace FrameGraph

theorem find?_eq_of_perm {α : Type} {test : α → Bool} {items others : List α}
    (perm : items.Perm others) (single : others.countP test ≤ 1) :
    items.find? test = others.find? test := by
  rw [← List.head?_filter, ← List.head?_filter]
  rw [List.countP_eq_length_filter] at single
  have filtered := perm.filter test
  match found : others.filter test with
  | [] =>
      rw [found] at filtered
      rw [List.perm_nil.mp filtered]
  | [item] =>
      rw [found] at filtered
      rw [List.perm_singleton.mp filtered]
  | first :: second :: rest =>
      rw [found] at single
      simp at single

theorem find?_reverse_of_countP_le_one {α : Type} {test : α → Bool} {items : List α}
    (single : items.countP test ≤ 1) : items.reverse.find? test = items.find? test :=
  find?_eq_of_perm (List.reverse_perm items) single

theorem join_map_intersperse {α : Type} (write : α → String) (separator : α) (items : List α) :
    String.join ((items.intersperse separator).map write) =
      (write separator).intercalate (items.map write) := by
  induction items with
  | nil => rfl
  | cons first rest ih =>
      cases rest with
      | nil => simp
      | cons second rest =>
          simp only [List.map_cons] at ih ⊢
          rw [List.intersperse_cons_cons, List.map_cons, List.map_cons, String.join_cons,
            String.join_cons, ih, String.intercalate_cons_cons, String.append_assoc]

/-- Linking a node depends on the tree and the variables only in what its tokens turn into. -/
theorem Linking.linkNode_congr {tree other : Tree} {names others : Variables}
    {assembled : AssembledNode} (options : CompileOptions)
    (input : ∀ name, inputText other others assembled.node name =
      inputText tree names assembled.node name)
    (own : others.node? assembled.node.identifier = names.node? assembled.node.identifier)
    (output : ∀ socket, others.output? assembled.node.identifier socket =
      names.output? assembled.node.identifier socket) :
    linkNode other others options assembled = linkNode tree names options assembled := by
  have self : nodeVariable others assembled.node = nodeVariable names assembled.node := by
    rw [nodeVariable, own, nodeVariable]
  have text : tokenText other others assembled.node = tokenText tree names assembled.node := by
    funext token
    cases token <;> simp only [tokenText, input, self, output]
  have module : tokenModule? other others assembled.node =
      tokenModule? tree names assembled.node := by
    funext token
    cases token <;> simp only [tokenModule?, input]
  have line : lineText other others assembled.node = lineText tree names assembled.node := by
    funext line
    rw [lineText, text, lineText]
  simp only [linkNode, setupLine, self, module, line]

theorem Linking.modules_linkNode (tree : Tree) (names : Variables) (options : CompileOptions)
    (assembled : AssembledNode) :
    (linkNode tree names options assembled).modules =
      assembled.modules ++ (assembled.lines.flatMap (·.tokens)).filterMap
        (tokenModule? tree names assembled.node) := by
  rw [linkNode]
  cases assembled.lines with
  | nil => simp
  | cons first rest => rfl

namespace Tree

def nodeVariable (tree : Tree) (node : String) : String :=
  ((Variables.ofTree tree).node? node).getD ""

def outputVariable (tree : Tree) (node socket : String) : String :=
  ((Variables.ofTree tree).output? node socket).getD ""

/-- What stands for an input: the variable of the output linked into it, else its own literal. -/
def inputValue (tree : Tree) (node : Node) (socket : Socket) : String :=
  match tree.inputLink? node.identifier socket.identifier with
  | some link => tree.outputVariable link.fromNode link.fromSocket
  | none => socket.literal.1

/-- What stands for a name in the code of a node: an input first, then an output, then the node. -/
def replacement (tree : Tree) (node : Node) (name : String) : String :=
  match node.input? name with
  | some socket => tree.inputValue node socket
  | none =>
    if node.hasOutput name then tree.outputVariable node.identifier name
    else if name = "self" then tree.nodeVariable node.identifier
    else name

def callLine (tree : Tree) (node : Node) : String :=
  let outputs := node.outputs.map fun socket =>
    tree.outputVariable node.identifier socket.identifier
  (if outputs.isEmpty then "" else ", ".intercalate outputs ++ " = ") ++
    tree.nodeVariable node.identifier ++ ".execute(" ++
    ", ".intercalate (node.inputs.map (tree.inputValue node)) ++ ")"

def contributionLines (tree : Tree) (node : Node) : Contribution → List String
  | .procedure => [tree.callLine node]
  | .raw code =>
    if code.isEmpty then [] else Text.lines (Lexeme.rewrite (tree.replacement node) code.joined)

/-- The lines of a node, chosen by its kind. -/
def nodeLines (tree : Tree) (registry : Registry) (node : Node) : List String :=
  match registry.kind? node.kind with
  | some kind => tree.contributionLines node (kind.code node (.ofNode tree node))
  | none => []

/-- The comment above the lines of a node, if the options ask for it and there are lines. -/
def commentLines (tree : Tree) (registry : Registry) (options : CompileOptions) (node : Node) :
    List String :=
  match registry.kind? node.kind with
  | some kind =>
    if options.debugComments && !(tree.nodeLines registry node).isEmpty then
      ["# " ++ node.label.getD kind.declaration.label ++ " (" ++ node.identifier ++ ")"]
    else []
  | none => []

variable {tree : Tree} {registry : Registry} {node : Node}

theorem node?_nodeVariable (member : node ∈ tree.nodes) :
    (Variables.ofTree tree).node? node.identifier = some (tree.nodeVariable node.identifier) := by
  obtain ⟨name, found⟩ := Variables.exists_node? member
  simp [nodeVariable, found]

theorem output?_outputVariable (member : node ∈ tree.nodes) {socket : Socket}
    (inside : socket ∈ node.outputs) :
    (Variables.ofTree tree).output? node.identifier socket.identifier =
      some (tree.outputVariable node.identifier socket.identifier) := by
  obtain ⟨name, found⟩ := Variables.exists_output? member inside
  simp [outputVariable, found]

theorem WellFormed.output?_source (wellFormed : tree.WellFormed registry) {link : Link}
    (member : link ∈ tree.links) :
    (Variables.ofTree tree).output? link.fromNode link.fromSocket =
      some (tree.outputVariable link.fromNode link.fromSocket) := by
  obtain ⟨source, source_mem, sameNode, socket, inside, sameSocket⟩ :=
    wellFormed.sources link member
  rw [← sameNode, ← sameSocket]
  exact output?_outputVariable source_mem inside

theorem WellFormed.filter_identifier (wellFormed : tree.WellFormed registry)
    (member : node ∈ tree.nodes) :
    tree.nodes.filter (·.identifier = node.identifier) = [node] := by
  have inside : node ∈ tree.nodes.filter (·.identifier = node.identifier) := by simpa using member
  have single := List.nodup_iff_count_le_one.mp wellFormed.distinct node.identifier
  rw [← count_identifiers, List.countP_eq_length_filter] at single
  match found : tree.nodes.filter (·.identifier = node.identifier) with
  | [] => simp [found] at inside
  | [other] =>
      obtain rfl : node = other := by simpa [found] using inside
      exact found
  | first :: second :: rest => simp [found] at single

theorem WellFormed.inputText_eq (wellFormed : tree.WellFormed registry)
    (member : node ∈ tree.nodes) {name : String} {socket : Socket}
    (found : node.input? name = some socket) :
    (Linking.inputText tree (Variables.ofTree tree) node name).1 = tree.inputValue node socket := by
  have named : socket.identifier = name := by simpa using List.find?_some found
  have single := wellFormed.single node.identifier name
  unfold Linking.inputText inputSource? inputValue inputLink?
  rw [find?_reverse_of_countP_le_one single, named]
  cases linked : tree.links.find? (·.entersInput node.identifier name) with
  | none => simp [wellFormed.filter_identifier member, found]
  | some link =>
      have source := wellFormed.output?_source (List.mem_of_find?_eq_some linked)
      simp [source]

theorem WellFormed.isLine_inputValue (wellFormed : tree.WellFormed registry) (socket : Socket) :
    Text.IsLine (tree.inputValue node socket) := by
  unfold inputValue
  cases linked : tree.inputLink? node.identifier socket.identifier with
  | none => exact socket.isLine_literal
  | some link =>
      have source := wellFormed.output?_source (List.mem_of_find?_eq_some linked)
      exact (Variables.isName_of_output? source).isLine

/-! Tokens of the code of a node, written as linking writes them. -/

theorem tokenText_keepsText (names : Variables) :
    Token.KeepsText (Linking.tokenText tree names node) :=
  fun _ => rfl

theorem tokenOf_cases (tree : Tree) (node : Node) (name : String) :
    (∃ socket, node.input? name = some socket ∧ Assembly.tokenOf node name = .input name ∧
      tree.replacement node name = tree.inputValue node socket) ∨
    (∃ socket ∈ node.outputs, Assembly.tokenOf node name = .output socket.identifier ∧
      tree.replacement node name = tree.outputVariable node.identifier socket.identifier) ∨
    (Assembly.tokenOf node name = .self ∧
      tree.replacement node name = tree.nodeVariable node.identifier) ∨
    (Assembly.tokenOf node name = .text name ∧ tree.replacement node name = name) := by
  unfold Assembly.tokenOf replacement
  rw [Node.hasInput_eq_isSome]
  cases input : node.input? name with
  | some socket => exact .inl ⟨socket, rfl, rfl, rfl⟩
  | none =>
      right
      simp only [Option.isSome_none, Bool.false_eq_true, if_false]
      split
      · rename_i output
        obtain ⟨socket, inside, named⟩ := List.any_eq_true.mp output
        obtain rfl : socket.identifier = name := by simpa using named
        exact .inl ⟨socket, inside, rfl, rfl⟩
      · by_cases self : name = "self"
        · exact .inr (.inl ⟨if_pos self, if_pos self⟩)
        · exact .inr (.inr ⟨if_neg self, if_neg self⟩)

theorem WellFormed.tokenText_tokenOf (wellFormed : tree.WellFormed registry)
    (member : node ∈ tree.nodes) (name : String) :
    Linking.tokenText tree (Variables.ofTree tree) node (Assembly.tokenOf node name) =
      tree.replacement node name := by
  rcases tree.tokenOf_cases node name with ⟨socket, found, token, value⟩ |
    ⟨socket, inside, token, value⟩ | ⟨token, value⟩ | ⟨token, value⟩
  · rw [token, value]
    exact wellFormed.inputText_eq member found
  · simp [token, value, Linking.tokenText, output?_outputVariable member inside]
  · simp [token, value, Linking.tokenText, Linking.nodeVariable, node?_nodeVariable member]
  · rw [token, value]
    rfl

/-- A name stays code, or it is replaced by a text on one line. -/
theorem WellFormed.tokenOf_eq_or_isLine (wellFormed : tree.WellFormed registry)
    (member : node ∈ tree.nodes) (name : String) :
    Assembly.tokenOf node name = .text name ∨ Text.IsLine (tree.replacement node name) := by
  rcases tree.tokenOf_cases node name with ⟨socket, -, -, value⟩ | ⟨socket, inside, -, value⟩ |
    ⟨-, value⟩ | ⟨token, -⟩
  · rw [value]
    exact .inr (wellFormed.isLine_inputValue socket)
  · rw [value]
    exact .inr (Variables.isName_of_output? (output?_outputVariable member inside)).isLine
  · rw [value]
    exact .inr (Variables.isName_of_node? (node?_nodeVariable member)).isLine
  · exact .inl token

theorem WellFormed.isLine_replacement (wellFormed : tree.WellFormed registry)
    (member : node ∈ tree.nodes) {name : String} (single : Text.IsLine name) :
    Text.IsLine (tree.replacement node name) := by
  rcases wellFormed.tokenOf_eq_or_isLine member name with text | line
  · have same := wellFormed.tokenText_tokenOf member name
    rw [text] at same
    exact same ▸ single
  · exact line

theorem WellFormed.onOneLine_tokens (wellFormed : tree.WellFormed registry)
    (member : node ∈ tree.nodes) (code : String) :
    Token.OnOneLine (Linking.tokenText tree (Variables.ofTree tree) node)
      (Assembly.tokens node code) := by
  intro token inside reference
  obtain ⟨name, rfl | rfl⟩ := Lexeme.mem_mapNames inside
  · rw [wellFormed.tokenText_tokenOf member]
    rcases wellFormed.tokenOf_eq_or_isLine member name with text | line
    · simp [text, Token.isText] at reference
    · exact line
  · simp [Token.isText] at reference

/-! The two ways in which a node contributes. -/

theorem WellFormed.lineText_procedureCall (wellFormed : tree.WellFormed registry)
    (member : node ∈ tree.nodes) (distinct : (node.inputs.map (·.identifier)).Nodup) :
    Linking.lineText tree (Variables.ofTree tree) node (Assembly.procedureCall node) =
      tree.callLine node := by
  have outputs : ∀ socket ∈ node.outputs,
      Linking.tokenText tree (Variables.ofTree tree) node (.output socket.identifier) =
        tree.outputVariable node.identifier socket.identifier := by
    intro socket inside
    simp [Linking.tokenText, output?_outputVariable member inside]
  have inputs : ∀ socket ∈ node.inputs,
      Linking.tokenText tree (Variables.ofTree tree) node (.input socket.identifier) =
        tree.inputValue node socket :=
    fun socket inside => wellFormed.inputText_eq member (find?_key distinct inside)
  have self : Linking.tokenText tree (Variables.ofTree tree) node .self =
      tree.nodeVariable node.identifier := by
    simp [Linking.tokenText, Linking.nodeVariable, node?_nodeVariable member]
  have text (s : String) : Linking.tokenText tree (Variables.ofTree tree) node (.text s) = s := rfl
  change (Assembly.procedureCall node).render _ = _
  unfold Assembly.procedureCall callLine
  rw [Fragment.render_ofTokens (tokenText_keepsText _)]
  simp only [List.map_append, String.join_append, Assembly.commaSeparated, join_map_intersperse,
    List.map_map, Function.comp_def, List.map_congr_left outputs, List.map_congr_left inputs,
    List.map_cons, List.map_nil, String.join_cons, String.join_nil, self, text, List.isEmpty_map]
  cases node.outputs with
  | nil => simp [String.append_assoc]
  | cons socket rest => simp [text, String.append_assoc]

theorem WellFormed.map_lineText_rawLines (wellFormed : tree.WellFormed registry)
    (member : node ∈ tree.nodes) (code : RawCode) :
    (Assembly.rawLines node code).map (Linking.lineText tree (Variables.ofTree tree) node) =
      tree.contributionLines node (.raw code) := by
  simp only [Assembly.rawLines, contributionLines]
  by_cases blank : code.isEmpty
  · simp [blank]
  · simp only [blank, Bool.false_eq_true, if_false]
    have replaced : (fun name => Linking.tokenText tree (Variables.ofTree tree) node
        (Assembly.tokenOf node name)) = tree.replacement node :=
      funext (wellFormed.tokenText_tokenOf member)
    have cut := Fragment.map_render_splitLines_ofTokens (tokenText_keepsText _)
      (wellFormed.onOneLine_tokens member code.joined)
    rw [Assembly.tokens, Lexeme.join_map_mapNames_lex _ _ _ (tokenText_keepsText _),
      replaced] at cut
    exact cut

theorem WellFormed.map_lineText_assemble (wellFormed : tree.WellFormed registry)
    (member : node ∈ tree.nodes) (distinct : (node.inputs.map (·.identifier)).Nodup)
    (contribution : Contribution) :
    (Assembly.assemble node contribution).map
        (Linking.lineText tree (Variables.ofTree tree) node) =
      tree.contributionLines node contribution := by
  cases contribution with
  | procedure =>
      rw [Assembly.assemble, List.map_singleton, wellFormed.lineText_procedureCall member distinct]
      rfl
  | raw code => exact wellFormed.map_lineText_rawLines member code

end Tree

end FrameGraph
