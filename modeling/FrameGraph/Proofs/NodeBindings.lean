import FrameGraph.Proofs.DistinctVariables
import FrameGraph.Proofs.HostString
import FrameGraph.Proofs.LexemeBoundaries
import FrameGraph.Proofs.Outcomes
import FrameGraph.Proofs.ProcedureLines

/-!
The setup of a procedure as the host runs it. Main statement: the setup binds the variable of every
node whose code refers to the node, once, and it does bind it to that node exactly if all these
identifiers stand for themselves between quotes and the mapping of the nodes stays bound up to the
last line.
-/

namespace FrameGraph

open Variables

/-- A line `target = mapping["key"]`. -/
structure Binding where
  target : String
  mapping : String
  key : String
deriving DecidableEq, Repr

/-- What a variable of the host holds: the mapping from identifiers to nodes, or a node. -/
inductive HostValue
  | mapping
  | node (identifier : String)
deriving DecidableEq, Repr

abbrev HostScope := String → Option HostValue

def HostScope.called : HostScope :=
  fun name => if name = Procedure.nodesArgument then some .mapping else none

namespace Binding

/-- Reads a line. The key is the string that the host sees between the quotes. -/
def ofLine? (line : String) : Option Binding :=
  match Lexeme.splitWhile isNameChar line.toList with
  | (target, ' ' :: '=' :: ' ' :: rest) =>
    match Lexeme.splitWhile isNameChar rest with
    | (mapping, '[' :: '"' :: rest) =>
      match HostString.read? rest with
      | some (key, [']']) =>
        some ⟨String.ofList target, String.ofList mapping, String.ofList key⟩
      | _ => none
    | _ => none
  | _ => none

/-- Runs a binding on a mapping with the given keys. It fails if the variable that it looks into
does not hold the mapping, or the mapping does not have the key. -/
def run? (keys : List String) (scope : HostScope) (binding : Binding) : Option HostScope :=
  if scope binding.mapping = some .mapping ∧ binding.key ∈ keys then
    some (Function.update scope binding.target (some (.node binding.key)))
  else none

def runLines? (keys : List String) (scope : HostScope) (lines : List String) : Option HostScope :=
  (lines.mapM ofLine?).bind fun bindings => bindings.foldlM (run? keys) scope

variable {keys : List String} {scope final : HostScope} {binding : Binding}
  {bindings : List Binding}

theorem run?_eq_some {next : HostScope} : binding.run? keys scope = some next ↔
    (scope binding.mapping = some .mapping ∧ binding.key ∈ keys) ∧
      next = Function.update scope binding.target (some (.node binding.key)) := by
  unfold run?
  split <;> simp_all [eq_comm]

theorem scope_of_run (distinct : (bindings.map (·.target)).Nodup)
    (ran : bindings.foldlM (run? keys) scope = some final) :
    (∀ binding ∈ bindings, final binding.target = some (.node binding.key)) ∧
      ∀ name, name ∉ bindings.map (·.target) → final name = scope name := by
  induction bindings generalizing scope with
  | nil =>
      obtain rfl : scope = final := by simpa using ran
      simp
  | cons first rest ih =>
      simp only [List.foldlM_cons, Option.bind_eq_bind, Option.bind_eq_some_iff] at ran
      obtain ⟨next, head, tail⟩ := ran
      obtain ⟨-, rfl⟩ := run?_eq_some.mp head
      rw [List.map_cons, List.nodup_cons] at distinct
      obtain ⟨bound, kept⟩ := ih distinct.2 tail
      refine ⟨?_, ?_⟩
      · rw [List.forall_mem_cons]
        exact ⟨by rw [kept _ distinct.1, Function.update_self], bound⟩
      · intro name absent
        rw [List.map_cons, List.mem_cons, not_or] at absent
        rw [kept name absent.2, Function.update_of_ne absent.1]

theorem exists_run_cons_iff {first : Binding} {rest : List Binding} :
    (∃ final, (first :: rest).foldlM (run? keys) scope = some final) ↔
      (scope first.mapping = some .mapping ∧ first.key ∈ keys) ∧
        ∃ final, rest.foldlM (run? keys)
          (Function.update scope first.target (some (.node first.key))) = some final := by
  simp only [List.foldlM_cons, Option.bind_eq_bind, Option.bind_eq_some_iff, run?_eq_some]
  constructor
  · rintro ⟨final, _, ⟨found, rfl⟩, ran⟩
    exact ⟨found, final, ran⟩
  · rintro ⟨found, final, ran⟩
    exact ⟨final, _, ⟨found, rfl⟩, ran⟩

/-- Bindings that all look into one variable can be run exactly if the mapping has all the keys and
only the last of them binds that variable itself. -/
theorem exists_run_iff {mapping : String} (held : scope mapping = some .mapping)
    (same : ∀ binding ∈ bindings, binding.mapping = mapping) :
    (∃ final, bindings.foldlM (run? keys) scope = some final) ↔
      (∀ binding ∈ bindings, binding.key ∈ keys) ∧
        ∀ binding ∈ bindings.dropLast, binding.target ≠ mapping := by
  induction bindings generalizing scope with
  | nil => simp
  | cons first rest ih =>
      rw [List.forall_mem_cons] at same
      have head : scope first.mapping = some .mapping := same.1 ▸ held
      rw [exists_run_cons_iff]
      cases rest with
      | nil => simp [head]
      | cons second others =>
          rw [List.dropLast_cons_cons]
          by_cases rebound : first.target = mapping
          · have next : second.mapping = first.target :=
              (same.2 second List.mem_cons_self).trans rebound.symm
            have stuck : ¬ ∃ final, (second :: others).foldlM (run? keys)
                (Function.update scope first.target (some (.node first.key))) = some final := by
              rw [exists_run_cons_iff, next, Function.update_self]
              simp
            exact iff_of_false (fun ran => stuck ran.2)
              fun sound => sound.2 first List.mem_cons_self rebound
          · have kept := Function.update_of_ne (Ne.symm rebound) (some (.node first.key)) scope
            rw [ih (kept.trans held) same.2]
            simp [head, rebound, and_assoc]

end Binding

namespace Tree

variable {tree : Tree} {registry : Registry} {options : CompileOptions} {node : Node}

theorem ofLine?_bindingLine (member : node ∈ tree.nodes) {binding : Binding} :
    Binding.ofLine? (tree.bindingLine node) = some binding ↔
      ∃ key, HostString.read? (node.identifier.toList ++ ['"', ']']) = some (key, [']']) ∧
        binding = ⟨tree.nodeVariable node.identifier, "nodes", String.ofList key⟩ := by
  have target := (isName_of_node? (node?_nodeVariable member)).each
  have mapping : ∀ c ∈ ['n', 'o', 'd', 'e', 's'], isNameChar c = true :=
    List.all_eq_true.mp rfl
  have line : (tree.bindingLine node).toList = (tree.nodeVariable node.identifier).toList ++
      ' ' :: '=' :: ' ' :: (['n', 'o', 'd', 'e', 's'] ++
        '[' :: '"' :: (node.identifier.toList ++ ['"', ']'])) := by
    simp [bindingLine]
  have ends (d : Char) (blank : isNameChar d = false) (rest : List Char) :
      ∀ c, (d :: rest).head? = some c → isNameChar c = false := by
    intro c head
    obtain rfl : d = c := Option.some.inj head
    exact blank
  rw [Binding.ofLine?, line, Lexeme.splitWhile_boundary target (ends ' ' rfl _)]
  simp only
  rw [Lexeme.splitWhile_boundary mapping (ends '[' rfl _)]
  simp only
  cases read : HostString.read? (node.identifier.toList ++ ['"', ']']) with
  | none => simp
  | some result =>
      obtain ⟨key, after⟩ := result
      by_cases ended : after = [']']
      · simp [ended, eq_comm]
      · simp [ended]

def ownBinding (tree : Tree) (node : Node) : Binding :=
  ⟨tree.nodeVariable node.identifier, "nodes", node.identifier⟩

theorem ofLine?_eq_ownBinding_iff (member : node ∈ tree.nodes) :
    Binding.ofLine? (tree.bindingLine node) = some (tree.ownBinding node) ↔
      HostString.IsPlain node.identifier := by
  have plain := HostString.read?_eq_self_iff node.identifier.toList [']']
  rw [HostString.IsPlain, ← plain, ofLine?_bindingLine member]
  constructor
  · rintro ⟨key, read, same⟩
    have key_eq : key = node.identifier.toList := by
      have := congrArg Binding.key same
      simp [ownBinding] at this
      simp [this]
    exact key_eq ▸ read
  · intro read
    exact ⟨_, read, by simp [ownBinding]⟩

theorem setupLines_eq (nodes : List Node) :
    nodes.flatMap (tree.setupLines registry) =
      (nodes.filter (tree.refersToSelf registry)).map tree.bindingLine := by
  induction nodes with
  | nil => rfl
  | cons node nodes ih =>
      rw [List.flatMap_cons, ih, setupLines, List.filter_cons]
      split <;> simp

theorem WellFormed.nodup_nodeVariables (wellFormed : tree.WellFormed registry) {bound : List Node}
    (inside : ∀ node ∈ bound, node ∈ tree.nodes) (distinct : bound.Nodup) :
    (bound.map fun node => tree.nodeVariable node.identifier).Nodup := by
  refine distinct.map_on fun node member other otherMember same => ?_
  have named : (ofTree tree).name? (.node node.identifier) =
      some (tree.nodeVariable node.identifier) := node?_nodeVariable (inside node member)
  have otherNamed : (ofTree tree).name? (.node other.identifier) =
      some (tree.nodeVariable node.identifier) :=
    same ▸ node?_nodeVariable (inside other otherMember)
  have key := key_eq_of_name? named otherNamed
  exact wellFormed.eq_of_identifier (inside node member) (inside other otherMember)
    (Key.node.inj key)

theorem exists_run_ownBinding_iff {bound : List Node}
    (inside : ∀ node ∈ bound, node ∈ tree.nodes) :
    (∃ scope, (bound.map tree.ownBinding).foldlM (Binding.run? tree.identifiers) .called =
        some scope) ↔
      ∀ node ∈ bound.dropLast, tree.nodeVariable node.identifier ≠ "nodes" := by
  have keys : ∀ binding ∈ bound.map tree.ownBinding, binding.key ∈ tree.identifiers := by
    intro binding member
    obtain ⟨node, given, rfl⟩ := List.mem_map.mp member
    exact List.mem_map_of_mem (inside node given)
  have same : ∀ binding ∈ bound.map tree.ownBinding, binding.mapping = "nodes" := by
    intro binding member
    obtain ⟨node, -, rfl⟩ := List.mem_map.mp member
    rfl
  have held : HostScope.called "nodes" = some .mapping := rfl
  rw [Binding.exists_run_iff held same, and_iff_right keys, ← List.map_dropLast]
  exact List.forall_mem_map

/-- Lines that bind every node to its variable read as just these bindings. -/
theorem eq_map_ownBinding_of_run {bound : List Node} {bindings : List Binding} {scope : HostScope}
    (inside : ∀ node ∈ bound, node ∈ tree.nodes)
    (distinct : (bound.map fun node => tree.nodeVariable node.identifier).Nodup)
    (read : (bound.map tree.bindingLine).mapM Binding.ofLine? = some bindings)
    (ran : bindings.foldlM (Binding.run? tree.identifiers) .called = some scope)
    (own : ∀ node ∈ bound, scope (tree.nodeVariable node.identifier) =
      some (.node node.identifier)) :
    bindings = bound.map tree.ownBinding := by
  have pairs := List.forall₂_map_left_iff.mp (mapM_eq_some_iff.mp read)
  have targets : (bound.map fun node => tree.nodeVariable node.identifier) =
      bindings.map (·.target) := by
    refine map_eq_of_forall₂ pairs fun node member binding _ line => ?_
    obtain ⟨key, -, rfl⟩ := (ofLine?_bindingLine (inside node member)).mp line
    rfl
  have kept := (Binding.scope_of_run (targets ▸ distinct) ran).1
  have same : bound.map tree.ownBinding = bindings.map id := by
    refine map_eq_of_forall₂ pairs fun node member binding listed line => ?_
    have left := kept binding listed
    obtain ⟨key, -, rfl⟩ := (ofLine?_bindingLine (inside node member)).mp line
    rw [own node member] at left
    simpa [ownBinding] using left
  rw [same, List.map_id]

theorem mapM_bindingLine_iff {bound : List Node} (inside : ∀ node ∈ bound, node ∈ tree.nodes) :
    (bound.map tree.bindingLine).mapM Binding.ofLine? = some (bound.map tree.ownBinding) ↔
      ∀ node ∈ bound, HostString.IsPlain node.identifier := by
  rw [mapM_eq_some_iff, List.forall₂_map_left_iff, List.forall₂_map_right_iff, List.forall₂_same]
  exact forall₂_congr fun node member => ofLine?_eq_ownBinding_iff (inside node member)

theorem run_bindingLines_iff {bound : List Node} (inside : ∀ node ∈ bound, node ∈ tree.nodes)
    (distinct : (bound.map fun node => tree.nodeVariable node.identifier).Nodup) :
    (∃ scope, Binding.runLines? tree.identifiers .called (bound.map tree.bindingLine) = some scope ∧
        ∀ node ∈ bound, scope (tree.nodeVariable node.identifier) = some (.node node.identifier)) ↔
      (∀ node ∈ bound, HostString.IsPlain node.identifier) ∧
        ∀ node ∈ bound.dropLast, tree.nodeVariable node.identifier ≠ "nodes" := by
  rw [← mapM_bindingLine_iff inside, ← exists_run_ownBinding_iff inside]
  constructor
  · rintro ⟨scope, ran, own⟩
    obtain ⟨bindings, read, ran⟩ := Option.bind_eq_some_iff.mp ran
    obtain rfl := eq_map_ownBinding_of_run inside distinct read ran own
    exact ⟨read, scope, ran⟩
  · rintro ⟨read, scope, ran⟩
    have targets : (bound.map tree.ownBinding).map (·.target) =
        bound.map fun node => tree.nodeVariable node.identifier := by simp [ownBinding]
    refine ⟨scope, by rw [Binding.runLines?, read, Option.bind_some, ran], fun node member => ?_⟩
    exact (Binding.scope_of_run (targets ▸ distinct) ran).1 _ (List.mem_map_of_mem member)

/-- The setup has one line for every node whose code refers to the node, in evaluation order, each
for a variable of its own. It reads as the binding of that variable to that node exactly if the
identifier needs no escapes, and running the setup binds them all exactly if no identifier needs
escapes and no line but the last binds `nodes` itself. -/
theorem compile_setup_binds {compiled : Compiled}
    (done : tree.compile registry options = .ok compiled) :
    ∃ (order : List String) (bound : List Node), tree.evaluationOrder = .ok order ∧
      bound.Perm (tree.nodes.filter (tree.refersToSelf registry)) ∧
      (bound.map (·.identifier)).Sublist order ∧
      compiled.procedure.setup = bound.map tree.bindingLine ∧
      (bound.map fun node => tree.nodeVariable node.identifier).Nodup ∧
      (∀ node ∈ bound, Binding.ofLine? (tree.bindingLine node) = some (tree.ownBinding node) ↔
        HostString.IsPlain node.identifier) ∧
      ((∃ scope, Binding.runLines? tree.identifiers .called compiled.procedure.setup = some scope ∧
          ∀ node ∈ bound,
            scope (tree.nodeVariable node.identifier) = some (.node node.identifier)) ↔
        (∀ node ∈ bound, HostString.IsPlain node.identifier) ∧
          ∀ node ∈ bound.dropLast, tree.nodeVariable node.identifier ≠ "nodes") := by
  obtain ⟨wellFormed, -⟩ := compile_ok done
  obtain ⟨order, nodes, ordered, found, perm, setup, -⟩ := compile_lines done
  rw [setupLines_eq] at setup
  have inside : ∀ node ∈ nodes.filter (tree.refersToSelf registry), node ∈ tree.nodes :=
    fun node member => perm.subset (List.mem_filter.mp member).1
  have distinct := wellFormed.nodup_nodeVariables inside
    ((perm.nodup_iff.mpr (List.Nodup.of_map _ wellFormed.distinct)).filter _)
  have identifiers : nodes.map (·.identifier) = order := by
    have listed : order.filterMap tree.node? = nodes := by
      simpa using congrArg (List.filterMap id) found
    exact listed ▸ (wellFormed.nodes_of_order ordered).1
  refine ⟨order, nodes.filter (tree.refersToSelf registry), ordered, perm.filter _,
    identifiers ▸ List.filter_sublist.map _, setup, distinct, ?_, ?_⟩
  · exact fun node member => ofLine?_eq_ownBinding_iff (inside node member)
  · rw [setup]
    exact run_bindingLines_iff inside distinct

theorem compile_setup_binds_sumOfSource :
    ∃ compiled, sumOfSource.compile .sourceAndSum .default = .ok compiled ∧
      compiled.procedure.setup = ["s = nodes[\"s\"]", "t = nodes[\"t\"]"] ∧
      ∃ scope,
        Binding.runLines? sumOfSource.identifiers .called compiled.procedure.setup = some scope ∧
        ∀ node ∈ sumOfSource.nodes,
          scope (sumOfSource.nodeVariable node.identifier) = some (.node node.identifier) := by
  have setup : (sumOfSource.compile .sourceAndSum .default).toOption.map (·.procedure.setup) =
      some ["s = nodes[\"s\"]", "t = nodes[\"t\"]"] := by
    decide +kernel
  have plain : ∀ node ∈ sumOfSource.nodes, HostString.IsPlain node.identifier ∧
      sumOfSource.nodeVariable node.identifier ≠ "nodes" := by
    decide +kernel
  have refers : sumOfSource.nodes.filter (sumOfSource.refersToSelf .sourceAndSum) =
      sumOfSource.nodes := by
    decide +kernel
  obtain ⟨compiled, done, setup⟩ := Option.map_eq_some_iff.mp setup
  have done := toOption_eq_some.mp done
  obtain ⟨_, bound, -, perm, -, -, -, -, runs⟩ := compile_setup_binds done
  rw [refers] at perm
  obtain ⟨scope, ran, own⟩ := runs.mpr
    ⟨fun node member => (plain node (perm.subset member)).1, fun node member =>
      (plain node (perm.subset (List.dropLast_subset _ member))).2⟩
  exact ⟨compiled, done, setup, scope, ran, fun node member => own node (perm.mem_iff.mpr member)⟩

def quotedName : Tree where
  name := "quoted"
  nodes := [Node.ofKind "a\"b" "source"]
  links := []
  metadata := ⟨"", "", ""⟩
  revision := 0

def shadowingName : Tree where
  name := "shadowing"
  nodes := [Node.ofKind "nodes" "source", Node.ofKind "b" "source"]
  links := []
  metadata := ⟨"", "", ""⟩
  revision := 0

/-- The quote of an identifier closes the string, so the line cannot be read, and a node named like
the mapping takes its variable, so the next line looks into a node. -/
theorem not_bound_quotedName_and_shadowingName :
    (∃ compiled, quotedName.compile .sourceAndSum .default = .ok compiled ∧
      compiled.procedure.setup = ["a_b = nodes[\"a\"b\"]"] ∧
      Binding.runLines? quotedName.identifiers .called compiled.procedure.setup = none) ∧
    ∃ compiled, shadowingName.compile .sourceAndSum .default = .ok compiled ∧
      compiled.procedure.setup = ["nodes = nodes[\"nodes\"]", "b = nodes[\"b\"]"] ∧
      Binding.runLines? shadowingName.identifiers .called compiled.procedure.setup = none := by
  have quoted : (quotedName.compile .sourceAndSum .default).toOption.map (·.procedure.setup) =
      some ["a_b = nodes[\"a\"b\"]"] := by
    decide +kernel
  have shadowing : (shadowingName.compile .sourceAndSum .default).toOption.map
      (·.procedure.setup) = some ["nodes = nodes[\"nodes\"]", "b = nodes[\"b\"]"] := by
    decide +kernel
  constructor
  · obtain ⟨compiled, done, setup⟩ := Option.map_eq_some_iff.mp quoted
    refine ⟨compiled, toOption_eq_some.mp done, setup, ?_⟩
    rw [setup]
    decide +kernel
  · obtain ⟨compiled, done, setup⟩ := Option.map_eq_some_iff.mp shadowing
    refine ⟨compiled, toOption_eq_some.mp done, setup, ?_⟩
    rw [setup]
    decide +kernel

end Tree

end FrameGraph
