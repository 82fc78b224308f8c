import FrameGraph.Compile.Linking
import FrameGraph.Compile.Typing
import FrameGraph.Compile.Validation

/-!
Compiling a tree into a procedure.
-/

namespace FrameGraph

inductive CompileError
  | invalidNetwork (tree : String) (problems : List Problem)
  | cycle (nodes : List String)
  | unknownKind (node kind : String)
deriving DecidableEq, Repr

namespace CompileError

def message : CompileError → String
  | invalidNetwork tree problems =>
    "tree '" ++ tree ++ "' is in an invalid network (" ++ toString problems.length ++ " problem(s))"
  | cycle nodes => "cyclic dependency detected between nodes: " ++ ", ".intercalate nodes
  | unknownKind node kind => "unknown node kind '" ++ kind ++ "' on node '" ++ node ++ "'"

def problems : CompileError → List Problem
  | invalidNetwork _ problems => problems
  | cycle nodes => [.cycle nodes]
  | unknownKind node kind => [.unknownNodeKind node kind]

end CompileError

structure CompileStats where
  nodes : Nat
  links : Nat
  /-- Nodes that do their work in a procedure of their own. -/
  procedureNodes : Nat
  /-- Nodes with inline code. -/
  rawNodes : Nat
  /-- Nodes that contribute no code at all. -/
  silentNodes : Nat
  /-- Lines of setup and body. -/
  lines : Nat
deriving DecidableEq, Repr

structure Compiled where
  procedure : Procedure
  warnings : List Problem
  stats : CompileStats
deriving DecidableEq, Repr

structure CompiledNode where
  contribution : Contribution
  assembled : AssembledNode

namespace Compile

def compileNode (tree : Tree) (registry : Registry) (node : Node) :
    Except CompileError CompiledNode :=
  match registry.kind? node.kind with
  | none => .error (.unknownKind node.identifier node.kind)
  | some kind =>
    let contribution := kind.code node (.ofNode tree node)
    .ok
      { contribution
        assembled :=
          { node
            label := kind.declaration.label
            lines := Assembly.assemble node contribution
            modules := kind.usedModules node } }

def compileNodes (tree : Tree) (registry : Registry) (order : List String) :
    Except CompileError (List CompiledNode) :=
  (order.filterMap tree.node?).mapM (compileNode tree registry)

def isProcedure (node : CompiledNode) : Bool :=
  node.contribution = .procedure

def isSilent (node : CompiledNode) : Bool :=
  node.contribution = .raw .empty

def stats (tree : Tree) (nodes : List CompiledNode) (procedure : Procedure) : CompileStats where
  nodes := tree.nodes.length
  links := tree.links.length
  procedureNodes := nodes.countP isProcedure
  rawNodes := nodes.countP fun node => !isProcedure node && !isSilent node
  silentNodes := nodes.countP isSilent
  lines := procedure.lines.length

end Compile

namespace Tree

/-- The procedure of a tree with its warnings. A tree with structural problems is refused before its
order is looked at. -/
def compile (tree : Tree) (registry : Registry) (options : CompileOptions) :
    Except CompileError Compiled :=
  let problems := tree.problems registry
  if !problems.isEmpty then .error (.invalidNetwork tree.name problems)
  else
    match tree.evaluationOrder with
    | .error nodes => .error (.cycle nodes)
    | .ok order => do
      let nodes ← Compile.compileNodes tree registry order
      let procedure := Linking.link tree options (nodes.map (·.assembled))
      return {
        procedure
        warnings := if options.checkTypes then tree.typeProblems else []
        stats := Compile.stats tree nodes procedure }

end Tree

end FrameGraph
