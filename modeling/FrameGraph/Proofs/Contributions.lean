import FrameGraph.Catalog
import FrameGraph.Proofs.FragmentLines
import FrameGraph.Proofs.ProcedureLines
import Mathlib.Algebra.BigOperators.Group.List.Basic

/-!
What nodes contribute, and how it is counted. Main statement: every node is counted once, by the form
of its contribution, so the nodes that count as silent are the nodes without lines less those whose
inline code is empty in another form.
-/

namespace FrameGraph

/-- The ways in which nodes take part in a procedure. -/
inductive Share
  /-- A call of the node's own procedure. -/
  | call
  /-- Inline code that makes up lines. -/
  | inline
  /-- Inline code that holds no line: an empty text, no lines, or empty ones. -/
  | hollow
  /-- No code at all. -/
  | silent
deriving DecidableEq, Repr

namespace Share

def isLineless : Share → Bool
  | .hollow | .silent => true
  | .call | .inline => false

def isCode : Share → Bool
  | .inline | .hollow => true
  | .call | .silent => false

theorem countP_eq (p : Share → Bool) (shares : List Share) :
    shares.countP p = (p .call).toNat * shares.count .call +
      (p .inline).toNat * shares.count .inline + (p .hollow).toNat * shares.count .hollow +
      (p .silent).toNat * shares.count .silent := by
  induction shares with
  | nil => rfl
  | cons share shares ih =>
      have taken : (if p share = true then 1 else 0) = (p share).toNat := by
        cases p share <;> rfl
      rw [List.countP_cons, ih, taken]
      cases share <;> simp [Nat.mul_add] <;> omega

theorem counts_eq_length (shares : List Share) :
    shares.count .call + (shares.count .inline + shares.count .hollow) + shares.count .silent =
      shares.length := by
  rw [← List.countP_true, countP_eq]
  simp [Nat.add_assoc]

theorem countP_isLineless (shares : List Share) :
    shares.countP isLineless = shares.count .silent + shares.count .hollow := by
  rw [countP_eq, Nat.add_comm (shares.count .silent)]
  simp [isLineless]

theorem countP_isCode (shares : List Share) :
    shares.countP isCode = shares.count .inline + shares.count .hollow := by
  rw [countP_eq]
  simp [isCode]

end Share

theorem Fragment.splitLines_ne_nil (fragment : Fragment) : fragment.splitLines ≠ [] := by
  rw [← List.length_pos_iff, fragment.length_splitLines]
  exact Nat.succ_pos _

def RawCode.share (code : RawCode) : Share :=
  if code = .empty then .silent else if code.isEmpty then .hollow else .inline

theorem RawCode.isLineless_share (code : RawCode) : code.share.isLineless = code.isEmpty := by
  unfold share
  split
  · rename_i same
    rw [same]
    rfl
  · split
    · simp_all [Share.isLineless]
    · simp_all [Share.isLineless]

def Contribution.share : Contribution → Share
  | .procedure => .call
  | .raw code => code.share

theorem Assembly.isEmpty_assemble (node : Node) (contribution : Contribution) :
    (assemble node contribution).isEmpty = contribution.share.isLineless := by
  cases contribution with
  | procedure => rfl
  | raw code =>
      rw [assemble, rawLines, Contribution.share, code.isLineless_share]
      cases code.isEmpty with
      | true => rfl
      | false => simp [Fragment.splitLines_ne_nil]

namespace Compile

theorem isProcedure_eq (node : CompiledNode) :
    isProcedure node = (node.contribution.share == .call) := by
  unfold isProcedure
  cases node.contribution with
  | procedure => rfl
  | raw code =>
      rw [Contribution.share, RawCode.share]
      split
      · rfl
      · split <;> rfl

theorem isSilent_eq (node : CompiledNode) :
    isSilent node = (node.contribution.share == .silent) := by
  unfold isSilent
  cases node.contribution with
  | procedure => rfl
  | raw code =>
      rw [Contribution.share, RawCode.share]
      split
      · simp_all
      · split <;> simp_all

/-- The counters go by the share of a node, and take hollow code for code. -/
theorem counters_eq (nodes : List CompiledNode) :
    nodes.countP isProcedure = (nodes.map (·.contribution.share)).count .call ∧
    nodes.countP (fun node => !isProcedure node && !isSilent node) =
      (nodes.map (·.contribution.share)).countP Share.isCode ∧
    nodes.countP isSilent = (nodes.map (·.contribution.share)).count .silent := by
  simp only [List.count, List.countP_map]
  refine ⟨List.countP_congr fun node _ => ?_, List.countP_congr fun node _ => ?_,
    List.countP_congr fun node _ => ?_⟩
  · rw [isProcedure_eq]
    rfl
  · rw [isProcedure_eq, isSilent_eq, Function.comp_apply]
    cases node.contribution.share <;> decide
  · rw [isSilent_eq]
    rfl

end Compile

namespace Tree

variable {tree : Tree} {registry : Registry} {options : CompileOptions} {node : Node}

def contribution? (tree : Tree) (registry : Registry) (node : Node) : Option Contribution :=
  (registry.kind? node.kind).map fun kind => kind.code node (.ofNode tree node)

theorem contribution?_of_kind? {kind : Kind} (registered : registry.kind? node.kind = some kind) :
    tree.contribution? registry node = some (kind.code node (.ofNode tree node)) := by
  rw [contribution?, registered, Option.map_some]

def shares (tree : Tree) (registry : Registry) : List Share :=
  tree.nodes.filterMap fun node => (tree.contribution? registry node).map (·.share)

theorem WellFormed.perm_shares (wellFormed : tree.WellFormed registry) {order : List String}
    (ordered : tree.evaluationOrder = .ok order) {nodes : List CompiledNode}
    (done : Compile.compileNodes tree registry order = .ok nodes) :
    (nodes.map (·.contribution.share)).Perm (tree.shares registry) := by
  obtain ⟨-, perm⟩ := wellFormed.nodes_of_order ordered
  have same : (order.filterMap tree.node?).map (tree.contribution? registry) =
      nodes.map fun node => some node.contribution := by
    refine map_eq_of_forall₂ (forall₂_of_mapM done) fun node member compiled _ one => ?_
    obtain ⟨kind, registered⟩ := wellFormed.registered node (perm.subset member)
    simp only [Compile.compileNode, registered, Except.ok.injEq] at one
    rw [contribution?_of_kind? registered, ← one]
  have shared : (order.filterMap tree.node?).filterMap
      (fun node => (tree.contribution? registry node).map (·.share)) =
        nodes.map (·.contribution.share) := by
    have each := congrArg (List.filterMap fun contribution =>
      Option.map Contribution.share contribution) same
    simpa [List.filterMap_map, Function.comp_def] using each
  rw [← shared]
  exact perm.filterMap _

theorem WellFormed.countP_fragments (wellFormed : tree.WellFormed registry) :
    tree.nodes.countP (fun node => (tree.fragments registry node).isEmpty) =
      (tree.shares registry).countP Share.isLineless := by
  rw [shares, List.countP_filterMap]
  refine List.countP_congr fun node member => ?_
  obtain ⟨kind, registered⟩ := wellFormed.registered node member
  rw [fragments_of_kind? registered, contribution?_of_kind? registered, Assembly.isEmpty_assemble]
  rfl

theorem WellFormed.length_shares (wellFormed : tree.WellFormed registry) :
    (tree.shares registry).length = tree.nodes.length := by
  rw [shares, List.filterMap_length_eq_length]
  intro node member
  obtain ⟨kind, registered⟩ := wellFormed.registered node member
  rw [contribution?_of_kind? registered]
  rfl

def lineCount (tree : Tree) (registry : Registry) (options : CompileOptions) (node : Node) : Nat :=
  (tree.setupLines registry node).length + (tree.commentLines registry options node).length +
    (tree.fragments registry node).length

theorem length_lines {compiled : Compiled} (done : tree.compile registry options = .ok compiled) :
    compiled.procedure.setup.length + compiled.procedure.body.length =
      (tree.nodes.map (tree.lineCount registry options)).sum := by
  obtain ⟨-, nodes, -, -, perm, setup, body⟩ := compile_lines done
  have added (node : Node) : (tree.setupLines registry node).length +
      (tree.commentLines registry options node ++ tree.codeLines registry node).length =
        tree.lineCount registry options node := by
    simp [lineCount, codeLines, Nat.add_assoc]
  rw [← (perm.map _).sum_nat, setup, body, List.length_flatMap, List.length_flatMap,
    ← List.sum_map_add, List.map_congr_left fun node _ => added node]

/-- Every node is counted once, and the lines are those of the nodes. A node whose inline code is
hollow has no lines but counts as one with code; all other nodes without lines count as silent. -/
theorem compile_stats {compiled : Compiled} (done : tree.compile registry options = .ok compiled) :
    compiled.stats.procedureNodes + compiled.stats.rawNodes + compiled.stats.silentNodes =
      tree.nodes.length ∧
    compiled.stats.procedureNodes = (tree.shares registry).count .call ∧
    compiled.stats.rawNodes =
      (tree.shares registry).count .inline + (tree.shares registry).count .hollow ∧
    compiled.stats.silentNodes + (tree.shares registry).count .hollow =
      tree.nodes.countP (fun node => (tree.fragments registry node).isEmpty) ∧
    compiled.stats.lines =
      compiled.procedure.setup.length + compiled.procedure.body.length ∧
    compiled.stats.lines = (tree.nodes.map (tree.lineCount registry options)).sum := by
  have lines := length_lines done
  obtain ⟨wellFormed, order, nodes, ordered, compiledAll, rfl⟩ := compile_ok done
  have perm := wellFormed.perm_shares ordered compiledAll
  obtain ⟨calls, coded, silents⟩ := Compile.counters_eq nodes
  rw [perm.count_eq] at calls silents
  rw [perm.countP_eq, Share.countP_isCode] at coded
  refine ⟨?_, calls, coded, ?_, List.length_append, List.length_append.trans lines⟩
  · rw [← wellFormed.length_shares, ← Share.counts_eq_length]
    exact congrArg₂ (· + ·) (congrArg₂ (· + ·) calls coded) silents
  · rw [wellFormed.countP_fragments, Share.countP_isLineless]
    exact congrArg (· + _) silents

theorem compile_stats_sumOfSource :
    ∃ compiled, sumOfSource.compile .sourceAndSum .default = .ok compiled ∧
      (compiled.stats.procedureNodes = 1 ∧ compiled.stats.rawNodes = 1 ∧
        compiled.stats.silentNodes = 0 ∧ compiled.stats.lines = 7) ∧
      compiled.stats.procedureNodes + compiled.stats.rawNodes + compiled.stats.silentNodes =
        sumOfSource.nodes.length ∧
      compiled.stats.procedureNodes = (sumOfSource.shares .sourceAndSum).count .call ∧
      compiled.stats.rawNodes = (sumOfSource.shares .sourceAndSum).count .inline +
        (sumOfSource.shares .sourceAndSum).count .hollow ∧
      compiled.stats.silentNodes + (sumOfSource.shares .sourceAndSum).count .hollow =
        sumOfSource.nodes.countP (fun node => (sumOfSource.fragments .sourceAndSum node).isEmpty) ∧
      compiled.stats.lines =
        compiled.procedure.setup.length + compiled.procedure.body.length ∧
      compiled.stats.lines =
        (sumOfSource.nodes.map (sumOfSource.lineCount .sourceAndSum .default)).sum := by
  have counted : (sumOfSource.compile .sourceAndSum .default).toOption.map (·.stats) =
      some ⟨2, 1, 1, 1, 0, 7⟩ := by
    decide +kernel
  obtain ⟨compiled, done, stats⟩ := Option.map_eq_some_iff.mp counted
  have done := toOption_eq_some.mp done
  exact ⟨compiled, done, by simp [stats], compile_stats done⟩

def loneGroupInput : Tree where
  name := "lone"
  nodes := [Catalog.groupInput.create (.ofKind "g" "an_GroupInput")]
  links := []
  metadata := ⟨"", "", ""⟩
  revision := 0

/-- It has no parameter to read and adds nothing to the procedure, but no node counts as silent: its
code is a list of no lines, which is taken for code. -/
theorem not_silent_loneGroupInput :
    ∃ compiled, loneGroupInput.compile Catalog.registry .production = .ok compiled ∧
      compiled.procedure.setup = [] ∧ compiled.procedure.body = [] ∧
      loneGroupInput.nodes.countP
        (fun node => (loneGroupInput.fragments Catalog.registry node).isEmpty) = 1 ∧
      compiled.stats.silentNodes = 0 ∧ compiled.stats.rawNodes = 1 := by
  have counted : (loneGroupInput.compile Catalog.registry .production).toOption.map
      (fun compiled => (compiled.procedure.setup, compiled.procedure.body, compiled.stats)) =
        some ([], [], ⟨1, 0, 0, 1, 0, 0⟩) := by
    decide +kernel
  obtain ⟨compiled, done, stats⟩ := Option.map_eq_some_iff.mp counted
  simp only [Prod.mk.injEq] at stats
  obtain ⟨setup, body, stats⟩ := stats
  refine ⟨compiled, toOption_eq_some.mp done, setup, body, by decide +kernel, ?_, ?_⟩
  · rw [stats]
  · rw [stats]

end Tree

end FrameGraph
