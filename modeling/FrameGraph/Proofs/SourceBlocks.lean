import FrameGraph.Proofs.BlankCode
import FrameGraph.Proofs.SourceLines
import FrameGraph.Proofs.StandardCode

/-!
The block below the head of a function. Main statements: it holds the lines of the procedure one by
one, or `pass`, and there is nothing to see in it exactly if comments are left out and all nodes give
inline code of white space, not all of it without lines; the standard kinds give no such code.
-/

namespace FrameGraph

namespace Text

/-- A line as it stands in a block: behind the indentation, or empty if it is blank. -/
def Indented (indent line written : String) : Prop :=
  written = if isBlank line then "" else indent ++ line

/-- The block that lines make up. Where there are none, the host is given a statement to pass. -/
inductive Block (indent : String) : List String → List String → Prop
  | pass : Block indent [] [indent ++ "pass"]
  | lines {ls block : List String} (nonempty : ls ≠ [])
      (each : List.Forall₂ (Indented indent) ls block) : Block indent ls block

variable {indent : String} {ls block : List String}

theorem Indented.isBlank_eq {line written : String} (indented : Indented indent line written) :
    isBlank written = isBlank line := by
  rw [indented]
  split
  · rename_i blank
    rw [blank]
    rfl
  · rename_i shown
    simp [isBlank_append, shown]

theorem Block.all_isBlank (made : Block indent ls block) :
    block.all isBlank = (!ls.isEmpty && ls.all isBlank) := by
  cases made with
  | pass =>
      have word : isBlank "pass" = false := by decide
      simp [isBlank_append, word]
  | lines nonempty each =>
      have same : block.all isBlank = ls.all isBlank := by
        clear nonempty
        induction each with
        | nil => rfl
        | cons head tail ih => rw [List.all_cons, List.all_cons, head.isBlank_eq, ih]
      simp [same, nonempty]

end Text

namespace Procedure

theorem block_blockLines (procedure : Procedure) :
    Text.Block procedure.indent procedure.lines procedure.blockLines := by
  unfold blockLines
  split
  · rename_i none
    rw [List.isEmpty_iff.mp none]
    exact .pass
  · rename_i some
    refine .lines (by simpa using some) ?_
    rw [List.forall₂_map_right_iff]
    exact List.forall₂_same.mpr fun _ _ => rfl

theorem source_eq (procedure : Procedure) :
    procedure.source = String.join (procedure.importLines.map (· ++ "\n")) ++
      (procedure.headLine ++ "\n") ++ String.join (procedure.blockLines.map (· ++ "\n")) := by
  rw [source, sourceLines, List.map_append, List.map_append, String.join_append,
    String.join_append, List.map_singleton, String.join_cons, String.join_nil,
    String.append_empty]

end Procedure

namespace Tree

variable {tree : Tree} {registry : Registry} {options : CompileOptions} {node : Node}

theorem WellFormed.commentLines_eq_nil_iff (wellFormed : tree.WellFormed registry)
    (member : node ∈ tree.nodes) :
    tree.commentLines registry options node = [] ↔
      (tree.fragments registry node ≠ [] → options.debugComments = false) := by
  obtain ⟨kind, registered⟩ := wellFormed.registered node member
  simp only [commentLines, registered, wellFormed.isEmpty_nodeLines member]
  cases options.debugComments <;> cases tree.fragments registry node <;> simp

theorem isBlank_commentLines_iff :
    (∀ line ∈ tree.commentLines registry options node, Text.isBlank line = true) ↔
      tree.commentLines registry options node = [] := by
  have opened : Text.isBlank "# " = false := by decide
  unfold commentLines
  split
  · split <;> simp [Text.isBlank_append, opened]
  · simp

theorem WellFormed.addedLines_eq_nil_iff (wellFormed : tree.WellFormed registry)
    (member : node ∈ tree.nodes) :
    (tree.setupLines registry node = [] ∧ tree.commentLines registry options node = [] ∧
      tree.codeLines registry node = []) ↔ tree.fragments registry node = [] := by
  rw [wellFormed.commentLines_eq_nil_iff member, codeLines, List.map_eq_nil_iff]
  constructor
  · rintro ⟨-, -, none⟩
    exact none
  · intro none
    exact ⟨by simp [setupLines, refersToSelf, none], fun some => absurd none some, none⟩

/-- What a node adds to a procedure shows nothing if its code is inline and blank, and no comment
stands above it. -/
theorem WellFormed.isBlank_addedLines_iff (wellFormed : tree.WellFormed registry)
    (member : node ∈ tree.nodes) :
    ((∀ line ∈ tree.setupLines registry node, Text.isBlank line = true) ∧
      (∀ line ∈ tree.commentLines registry options node, Text.isBlank line = true) ∧
      ∀ line ∈ tree.codeLines registry node, Text.isBlank line = true) ↔
    (∃ code, tree.contribution? registry node = some (.raw code) ∧
        Text.isBlank code.joined = true) ∧
      (tree.fragments registry node ≠ [] → options.debugComments = false) := by
  rw [isBlank_commentLines_iff, wellFormed.commentLines_eq_nil_iff member]
  have code := wellFormed.isBlank_codeLines_iff member
  constructor
  · rintro ⟨-, uncommented, blank⟩
    exact ⟨code.mp blank, uncommented⟩
  · rintro ⟨given, uncommented⟩
    have blank := code.mpr given
    have unbound : tree.setupLines registry node = [] := by
      rw [setupLines, refersToSelf_eq_false member blank]
      rfl
    exact ⟨by simp [unbound], uncommented, blank⟩

theorem compile_forall_lines {compiled : Compiled}
    (done : tree.compile registry options = .ok compiled) (P : List String → Prop)
    (joined : ∀ (nodes : List Node) (added : Node → List String),
      P (nodes.flatMap added) ↔ ∀ node ∈ nodes, P (added node))
    (appended : ∀ ls ms, P (ls ++ ms) ↔ P ls ∧ P ms) :
    P compiled.procedure.lines ↔
      ∀ node ∈ tree.nodes, P (tree.setupLines registry node) ∧
        P (tree.commentLines registry options node) ∧ P (tree.codeLines registry node) := by
  obtain ⟨-, nodes, -, -, perm, setup, body⟩ := compile_lines done
  rw [Procedure.lines, appended, setup, body, joined, joined]
  simp only [appended, ← forall₂_and, perm.mem_iff]

theorem compile_lines_eq_nil_iff {compiled : Compiled}
    (done : tree.compile registry options = .ok compiled) :
    compiled.procedure.lines = [] ↔ ∀ node ∈ tree.nodes, tree.fragments registry node = [] := by
  obtain ⟨wellFormed, -⟩ := compile_ok done
  rw [compile_forall_lines done (· = []) (fun _ _ => List.flatMap_eq_nil_iff)
    fun _ _ => List.append_eq_nil_iff]
  exact forall₂_congr fun _ member => wellFormed.addedLines_eq_nil_iff member

theorem compile_isBlank_lines_iff {compiled : Compiled}
    (done : tree.compile registry options = .ok compiled) :
    (∀ line ∈ compiled.procedure.lines, Text.isBlank line = true) ↔
      ∀ node ∈ tree.nodes,
        (∃ code, tree.contribution? registry node = some (.raw code) ∧
          Text.isBlank code.joined = true) ∧
        (tree.fragments registry node ≠ [] → options.debugComments = false) := by
  obtain ⟨wellFormed, -⟩ := compile_ok done
  rw [compile_forall_lines done (∀ line ∈ ·, Text.isBlank line = true)
    (fun _ _ => List.forall_mem_flatMap) fun _ _ => List.forall_mem_append]
  exact forall₂_congr fun _ member => wellFormed.isBlank_addedLines_iff member

/-- A block shows nothing exactly if comments are left out, all nodes give inline code of white space,
and one of them has lines. -/
theorem compile_isBlank_blockLines_iff {compiled : Compiled}
    (done : tree.compile registry options = .ok compiled) :
    (∀ line ∈ compiled.procedure.blockLines, Text.isBlank line = true) ↔
      options.debugComments = false ∧
      (∀ node ∈ tree.nodes, ∃ code, tree.contribution? registry node = some (.raw code) ∧
        Text.isBlank code.joined = true) ∧
      ∃ node ∈ tree.nodes, tree.fragments registry node ≠ [] := by
  have shown : (∀ line ∈ compiled.procedure.blockLines, Text.isBlank line = true) ↔
      compiled.procedure.lines ≠ [] ∧
        ∀ line ∈ compiled.procedure.lines, Text.isBlank line = true := by
    rw [← List.all_eq_true, compiled.procedure.block_blockLines.all_isBlank]
    simp
  rw [shown, ne_eq, compile_lines_eq_nil_iff done, compile_isBlank_lines_iff done]
  push Not
  constructor
  · rintro ⟨⟨node, member, some⟩, each⟩
    exact ⟨(each node member).2 some, fun other inside => (each other inside).1, node, member, some⟩
  · rintro ⟨uncommented, each, node, member, some⟩
    exact ⟨⟨node, member, some⟩, fun other inside => ⟨each other inside, fun _ => uncommented⟩⟩

/-- The text below the head of the function holds the lines of setup and body in order, each behind
the indentation or empty if it is blank, or `pass` if there are none. It shows nothing exactly if
comments are left out, all nodes give inline code of white space, and one of them has lines. -/
theorem compile_block {compiled : Compiled} (done : tree.compile registry options = .ok compiled) :
    ∃ block : List String,
      Text.Block (String.ofList (List.replicate options.indentWidth ' '))
        (compiled.procedure.setup ++ compiled.procedure.body) block ∧
      compiled.procedure.source = String.join (compiled.procedure.importLines.map (· ++ "\n")) ++
        ("def " ++ options.functionName ++ "(nodes):\n") ++
        String.join (block.map (· ++ "\n")) ∧
      ((∀ line ∈ compiled.procedure.setup ++ compiled.procedure.body, Text.IsLine line) →
        Text.lines compiled.procedure.source = compiled.procedure.headLines ++ block ++ [""]) ∧
      ((∀ line ∈ block, Text.isBlank line = true) ↔
        options.debugComments = false ∧
        (∀ node ∈ tree.nodes, ∃ code, tree.contribution? registry node = some (.raw code) ∧
          Text.isBlank code.joined = true) ∧
        ∃ node ∈ tree.nodes, tree.fragments registry node ≠ []) := by
  obtain ⟨width, name⟩ : compiled.procedure.indentWidth = options.indentWidth ∧
      compiled.procedure.functionName = options.functionName := by
    obtain ⟨-, order, nodes, -, -, rfl⟩ := compile_ok done
    exact ⟨rfl, rfl⟩
  have made := compiled.procedure.block_blockLines
  refine ⟨compiled.procedure.blockLines, width ▸ made, ?_, Procedure.lines_source,
    compile_isBlank_blockLines_iff done⟩
  have head : compiled.procedure.headLine ++ "\n" =
      "def " ++ options.functionName ++ "(nodes):\n" := by
    simp only [Procedure.headLine, name, Procedure.nodesArgument, String.append_assoc]
    rfl
  rw [Procedure.source_eq, head]

end Tree

def Registry.sourceAndBlank : Registry :=
  .ofKinds
    [{ declaration := .named "source" "Source"
       create := id
       code := fun _ _ => .procedure },
     { declaration := .named "blank" "Blank"
       create := id
       code := fun _ _ => .raw (.single " ") }]

namespace Tree

def blankBesideSource : Tree where
  name := "beside"
  nodes := [.ofKind "b" "blank", .ofKind "s" "source"]
  links := []
  metadata := ⟨"", "", ""⟩
  revision := 0

theorem compile_block_blankBesideSource :
    ∃ compiled, blankBesideSource.compile .sourceAndBlank .production = .ok compiled ∧
      compiled.procedure.source =
        "def main(nodes):\n    s = nodes[\"s\"]\n\n    s.execute()\n" ∧
      ∃ block : List String,
        Text.Block (String.ofList (List.replicate CompileOptions.production.indentWidth ' '))
          (compiled.procedure.setup ++ compiled.procedure.body) block ∧
        compiled.procedure.source =
          String.join (compiled.procedure.importLines.map (· ++ "\n")) ++
            ("def " ++ CompileOptions.production.functionName ++ "(nodes):\n") ++
            String.join (block.map (· ++ "\n")) ∧
        ((∀ line ∈ compiled.procedure.setup ++ compiled.procedure.body, Text.IsLine line) →
          Text.lines compiled.procedure.source = compiled.procedure.headLines ++ block ++ [""]) ∧
        ((∀ line ∈ block, Text.isBlank line = true) ↔
          CompileOptions.production.debugComments = false ∧
          (∀ node ∈ blankBesideSource.nodes, ∃ code,
            blankBesideSource.contribution? .sourceAndBlank node = some (.raw code) ∧
              Text.isBlank code.joined = true) ∧
          ∃ node ∈ blankBesideSource.nodes,
            blankBesideSource.fragments .sourceAndBlank node ≠ []) := by
  have written : (blankBesideSource.compile .sourceAndBlank .production).toOption.map
      (·.procedure.source) =
        some "def main(nodes):\n    s = nodes[\"s\"]\n\n    s.execute()\n" := by
    decide +kernel
  obtain ⟨compiled, done, source⟩ := Option.map_eq_some_iff.mp written
  have done := toOption_eq_some.mp done
  exact ⟨compiled, done, source, compile_block done⟩

def loneBlank : Tree where
  name := "lone"
  nodes := [.ofKind "b" "blank"]
  links := []
  metadata := ⟨"", "", ""⟩
  revision := 0

/-- The one line of the procedure is blank, so it counts against `pass` but leaves the block empty. -/
theorem emptyBlock_loneBlank :
    ∃ compiled, loneBlank.compile .sourceAndBlank .production = .ok compiled ∧
      compiled.procedure.setup = [] ∧ compiled.procedure.body = [" "] ∧
      compiled.procedure.source = "def main(nodes):\n\n" ∧
      ∀ line ∈ (Text.lines compiled.procedure.source).tail, Text.isBlank line = true := by
  have written : (loneBlank.compile .sourceAndBlank .production).toOption.map
      (fun compiled => (compiled.procedure.setup, compiled.procedure.body,
        compiled.procedure.source)) = some ([], [" "], "def main(nodes):\n\n") := by
    decide +kernel
  obtain ⟨compiled, done, written⟩ := Option.map_eq_some_iff.mp written
  simp only [Prod.mk.injEq] at written
  obtain ⟨setup, body, source⟩ := written
  refine ⟨compiled, toOption_eq_some.mp done, setup, body, source, ?_⟩
  rw [source]
  decide

end Tree

/-! ### The standard kinds -/

namespace Catalog

theorem Computes.isBlank {code : RawCode} {socket : String} (computes : Computes code socket) :
    Text.isBlank code.joined = false := by
  obtain ⟨value, member⟩ := computes.assigned
  have equals : Text.isBlank " = " = false := by decide
  rw [← Text.all_isBlank_lines, List.all_eq_false]
  exact ⟨_, member, by simp [Text.isBlank_append, equals]⟩

theorem isBlank_parameterLine (parameter : Socket) :
    Text.isBlank (GroupInput.parameterLine parameter) = false := by
  have equals : Text.isBlank " = " = false := by decide
  simp [parameterLine_eq, Text.isBlank_append, equals]

theorem isEmpty_of_isBlank {kind : Kind} (member : kind ∈ kinds) {node : Node}
    {context : LinkContext} {code : RawCode} (given : kind.code node context = .raw code)
    (blank : Text.isBlank code.joined = true) : code.isEmpty = true := by
  rcases code_of_mem member with procedure | ⟨inline, rfl⟩
  · rw [procedure] at given
    contradiction
  · cases inline with
    | groupInput =>
        obtain rfl := Contribution.raw.inj given
        rw [RawCode.joined, Text.isBlank_joinLines, List.all_map, List.all_eq_true] at blank
        rw [RawCode.isEmpty, List.all_map, List.all_eq_true]
        intro parameter chosen
        have shown := blank parameter chosen
        simp [isBlank_parameterLine] at shown
    | quaternionMath =>
        obtain rfl := Contribution.raw.inj given
        have shown := (computes_result (quaternionOperation node)).isBlank
        rw [shown] at blank
        contradiction
    | projectPointOnPlane =>
        obtain rfl := Contribution.raw.inj given
        split at blank
        · have shown : Text.isBlank "plane_co = planePoint" = false := by decide
          simp [RawCode.joined, Text.isBlank_joinLines, projectionLines, shown] at blank
        · rename_i unlinked
          rw [if_neg unlinked]
          rfl

/-- A tree of standard nodes never leaves the block of its function empty. -/
theorem exists_shown_line {tree : Tree} {options : CompileOptions} {compiled : Compiled}
    (done : tree.compile registry options = .ok compiled) :
    ∃ line ∈ compiled.procedure.blockLines, Text.isBlank line = false := by
  by_contra none
  have blank : ∀ line ∈ compiled.procedure.blockLines, Text.isBlank line = true := by
    simpa using none
  obtain ⟨-, each, node, member, some⟩ := (Tree.compile_isBlank_blockLines_iff done).mp blank
  obtain ⟨code, given, blank⟩ := each node member
  obtain ⟨kind, registered, given⟩ := Option.map_eq_some_iff.mp given
  have empty := isEmpty_of_isBlank (Registry.mem_of_kind?_ofKinds registered).1 given blank
  apply some
  rw [Tree.fragments_of_kind? registered, given, Assembly.assemble, Assembly.rawLines, if_pos empty]

end Catalog

end FrameGraph
