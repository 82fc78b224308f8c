import FrameGraph.Proofs.ProcedureLines

/-!
The lines of source text. Main statement: a line of a procedure holds a newline only where a comment
names a node or a binding quotes its identifier, and if none does, every line of the procedure is
one line of the source.
-/

namespace FrameGraph

namespace Text

theorem lines_append_newline (s t : String) : lines (s ++ "\n" ++ t) = lines s ++ lines t := by
  obtain ⟨ended, last, split⟩ := (List.eq_nil_or_concat _).resolve_left (lines_ne_nil s)
  rw [List.concat_eq_append] at split
  have single : IsLine last := isLine_of_mem_lines (s := s) (by simp [split])
  rw [String.append_assoc, lines_append split, lines_append_of_isLine single (lines_newline t),
    String.append_empty, split, List.append_assoc]
  rfl

theorem lines_join_ended (texts : List String) :
    lines (String.join (texts.map (· ++ "\n"))) = texts.flatMap lines ++ [""] := by
  induction texts with
  | nil => rfl
  | cons first rest ih =>
      rw [List.map_cons, String.join_cons, lines_append_newline, ih, List.flatMap_cons,
        List.append_assoc]

theorem flatMap_lines_of_isLine {texts : List String} (each : ∀ text ∈ texts, IsLine text) :
    texts.flatMap lines = texts := by
  induction texts with
  | nil => rfl
  | cons first rest ih =>
      rw [List.flatMap_cons, lines_of_isLine (each first List.mem_cons_self),
        ih fun text member => each text (List.mem_cons_of_mem _ member)]
      rfl

end Text

namespace Procedure

variable {procedure : Procedure}

def headLines (procedure : Procedure) : List String :=
  (procedure.importLines ++ [procedure.headLine]).flatMap Text.lines

theorem isLine_indent (procedure : Procedure) : Text.IsLine procedure.indent := by
  rw [indent, Text.isLine_ofList]
  intro member
  exact absurd (List.eq_of_mem_replicate member) (by decide)

theorem isLine_sourceLine {line : String} (single : Text.IsLine line) :
    Text.IsLine (procedure.sourceLine line) := by
  unfold sourceLine
  split
  · simp [Text.IsLine]
  · exact Text.isLine_append.mpr ⟨procedure.isLine_indent, single⟩

theorem isLine_blockLines (each : ∀ line ∈ procedure.lines, Text.IsLine line) :
    ∀ line ∈ procedure.blockLines, Text.IsLine line := by
  unfold blockLines
  split
  · intro line member
    obtain rfl := List.mem_singleton.mp member
    exact Text.isLine_append.mpr ⟨procedure.isLine_indent, by decide⟩
  · intro line member
    obtain ⟨inside, written, rfl⟩ := List.mem_map.mp member
    exact isLine_sourceLine (each inside written)

/-- If no line holds a newline, each is one line of the source, below the head and in order. -/
theorem lines_source (each : ∀ line ∈ procedure.lines, Text.IsLine line) :
    Text.lines procedure.source = procedure.headLines ++ procedure.blockLines ++ [""] := by
  rw [source, Text.lines_join_ended, sourceLines, List.flatMap_append,
    Text.flatMap_lines_of_isLine (isLine_blockLines each)]
  rfl

end Procedure

namespace Tree

variable {tree : Tree} {registry : Registry} {options : CompileOptions} {node : Node}

def shownLabel (registry : Registry) (node : Node) : String :=
  node.label.getD ((registry.kind? node.kind).elim "" (·.declaration.label))

theorem isLine_bindingLine_iff (member : node ∈ tree.nodes) :
    Text.IsLine (tree.bindingLine node) ↔ Text.IsLine node.identifier := by
  have name := (Variables.isName_of_node? (node?_nodeVariable member)).isLine
  have opened : Text.IsLine " = nodes[\"" := by decide
  have closed : Text.IsLine "\"]" := by decide
  simp [bindingLine, name, opened, closed]

theorem isLine_setupLines_iff (member : node ∈ tree.nodes) :
    (∀ line ∈ tree.setupLines registry node, Text.IsLine line) ↔
      (tree.refersToSelf registry node → Text.IsLine node.identifier) := by
  unfold setupLines
  split
  · rename_i refers
    simp [refers, isLine_bindingLine_iff member]
  · rename_i apart
    simp [apart]

theorem WellFormed.isLine_commentLines_iff (wellFormed : tree.WellFormed registry)
    (member : node ∈ tree.nodes) :
    (∀ line ∈ tree.commentLines registry options node, Text.IsLine line) ↔
      (options.debugComments → tree.fragments registry node ≠ [] →
        Text.IsLine (shownLabel registry node) ∧ Text.IsLine node.identifier) := by
  obtain ⟨kind, registered⟩ := wellFormed.registered node member
  have opened : Text.IsLine "# " := by decide
  have between : Text.IsLine " (" := by decide
  have closed : Text.IsLine ")" := by decide
  simp only [commentLines, shownLabel, registered, wellFormed.isEmpty_nodeLines member]
  cases options.debugComments with
  | false => simp
  | true =>
      cases tree.fragments registry node with
      | nil => simp
      | cons first rest => simp [opened, between, closed]

/-- Newlines come into the lines of a procedure only from the labels and identifiers that comments
show, and from the identifiers of nodes that are bound to their variables. Without these, every line
of setup and body is one line of the source. -/
theorem compile_isLine_iff {compiled : Compiled}
    (done : tree.compile registry options = .ok compiled) :
    ((∀ line ∈ compiled.procedure.setup ++ compiled.procedure.body, Text.IsLine line) ↔
      ∀ node ∈ tree.nodes,
        (options.debugComments → tree.fragments registry node ≠ [] →
          Text.IsLine (shownLabel registry node) ∧ Text.IsLine node.identifier) ∧
        (tree.refersToSelf registry node → Text.IsLine node.identifier)) ∧
    ((∀ line ∈ compiled.procedure.setup ++ compiled.procedure.body, Text.IsLine line) →
      Text.lines compiled.procedure.source =
        compiled.procedure.headLines ++ compiled.procedure.blockLines ++ [""]) := by
  obtain ⟨wellFormed, -⟩ := compile_ok done
  obtain ⟨-, nodes, -, -, perm, setup, body⟩ := compile_lines done
  refine ⟨?_, Procedure.lines_source⟩
  have split : (∀ line ∈ compiled.procedure.setup ++ compiled.procedure.body, Text.IsLine line) ↔
      ∀ node ∈ nodes, (∀ line ∈ tree.setupLines registry node, Text.IsLine line) ∧
        (∀ line ∈ tree.commentLines registry options node, Text.IsLine line) ∧
        ∀ line ∈ tree.codeLines registry node, Text.IsLine line := by
    simp only [setup, body, List.forall_mem_append, List.forall_mem_flatMap, forall_and]
  rw [split]
  refine ⟨fun each node member => ?_, fun each node member => ?_⟩
  · obtain ⟨bound, shown, -⟩ := each node (perm.mem_iff.mpr member)
    exact ⟨(wellFormed.isLine_commentLines_iff member).mp shown,
      (isLine_setupLines_iff member).mp bound⟩
  · have inside := perm.mem_iff.mp member
    obtain ⟨shown, bound⟩ := each node inside
    exact ⟨(isLine_setupLines_iff inside).mpr bound,
      (wellFormed.isLine_commentLines_iff inside).mpr shown, wellFormed.isLine_codeLines inside⟩

theorem compile_isLine_iff_sumOfSource :
    ∃ compiled, sumOfSource.compile .sourceAndSum .default = .ok compiled ∧
      ((∀ line ∈ compiled.procedure.setup ++ compiled.procedure.body, Text.IsLine line) ↔
        ∀ node ∈ sumOfSource.nodes,
          (CompileOptions.default.debugComments → sumOfSource.fragments .sourceAndSum node ≠ [] →
            Text.IsLine (shownLabel .sourceAndSum node) ∧ Text.IsLine node.identifier) ∧
          (sumOfSource.refersToSelf .sourceAndSum node → Text.IsLine node.identifier)) ∧
      ((∀ line ∈ compiled.procedure.setup ++ compiled.procedure.body, Text.IsLine line) →
        Text.lines compiled.procedure.source =
          compiled.procedure.headLines ++ compiled.procedure.blockLines ++ [""]) ∧
      ∀ line ∈ compiled.procedure.setup ++ compiled.procedure.body, Text.IsLine line := by
  have lines : (sumOfSource.compile .sourceAndSum .default).toOption.map
      (fun compiled => compiled.procedure.setup ++ compiled.procedure.body) =
        some ["s = nodes[\"s\"]", "t = nodes[\"t\"]", "# Source (s)", "s_value = s.execute()",
          "# Sum (t)", "t_total = s_value + 0", "t.total = t_total"] := by
    decide +kernel
  obtain ⟨compiled, done, lines⟩ := Option.map_eq_some_iff.mp lines
  have done := toOption_eq_some.mp done
  obtain ⟨iff, source⟩ := compile_isLine_iff done
  refine ⟨compiled, done, iff, source, ?_⟩
  rw [lines]
  decide

def brokenNames : Tree where
  name := "broken"
  nodes := [{ Node.ofKind "s\nt" "source" with label := some "Source\nprint()" }]
  links := []
  metadata := ⟨"", "", ""⟩
  revision := 0

/-- The rest of the label starts a line of its own, as does the rest of the quoted identifier. -/
theorem not_isLine_brokenNames :
    ∃ compiled, brokenNames.compile .sourceAndSum .default = .ok compiled ∧
      compiled.procedure.setup = ["s_t = nodes[\"s\nt\"]"] ∧
      compiled.procedure.body = ["# Source\nprint() (s\nt)", "s_t.execute()"] ∧
      (¬ ∀ line ∈ compiled.procedure.setup ++ compiled.procedure.body, Text.IsLine line) ∧
      "t\"]" ∈ Text.lines compiled.procedure.source ∧
      "print() (s" ∈ Text.lines compiled.procedure.source := by
  have written : (brokenNames.compile .sourceAndSum .default).toOption.map
      (fun compiled => (compiled.procedure.setup, compiled.procedure.body,
        Text.lines compiled.procedure.source)) =
        some (["s_t = nodes[\"s\nt\"]"], ["# Source\nprint() (s\nt)", "s_t.execute()"],
          ["def main(nodes):", "    s_t = nodes[\"s", "t\"]", "    # Source", "print() (s", "t)",
            "    s_t.execute()", ""]) := by
    decide +kernel
  obtain ⟨compiled, done, written⟩ := Option.map_eq_some_iff.mp written
  simp only [Prod.mk.injEq] at written
  obtain ⟨setup, body, source⟩ := written
  refine ⟨compiled, toOption_eq_some.mp done, setup, body, ?_, by simp [source], by simp [source]⟩
  rw [setup, body]
  decide

end Tree

end FrameGraph
