import FrameGraph.Problem

/-!
The problems reported for the trees of a document, each once, in the order of the reports.
-/

namespace FrameGraph

structure ReportedProblem where
  tree : String
  problem : Problem
deriving DecidableEq, Repr

namespace ReportedProblem

def text (entry : ReportedProblem) : String :=
  "[" ++ entry.tree ++ "] " ++ entry.problem.text

end ReportedProblem

structure ProblemList where
  entries : List ReportedProblem
deriving DecidableEq, Repr

namespace ProblemList

def empty : ProblemList := ⟨[]⟩

def report (list : ProblemList) (tree : String) (problem : Problem) : ProblemList :=
  if (⟨tree, problem⟩ : ReportedProblem) ∈ list.entries then list
  else ⟨list.entries ++ [⟨tree, problem⟩]⟩

def reportAll (list : ProblemList) (tree : String) (problems : List Problem) : ProblemList :=
  problems.foldl (·.report tree ·) list

def clearTree (list : ProblemList) (tree : String) : ProblemList :=
  ⟨list.entries.filter (·.tree ≠ tree)⟩

def forTree (list : ProblemList) (tree : String) : List Problem :=
  (list.entries.filter (·.tree = tree)).map (·.problem)

def hasErrors (list : ProblemList) : Bool :=
  list.entries.any (·.problem.isBlocking)

@[simp] theorem forTree_clearTree_self (list : ProblemList) (tree : String) :
    (list.clearTree tree).forTree tree = [] := by
  simp [clearTree, forTree, List.filter_filter]

theorem nodup_report {list : ProblemList} (h : list.entries.Nodup) (tree : String)
    (problem : Problem) : (list.report tree problem).entries.Nodup := by
  unfold report
  split
  · exact h
  · rename_i hmem
    refine List.nodup_append.mpr ⟨h, by simp, ?_⟩
    intro a ha b hb heq
    rw [List.mem_singleton] at hb
    exact hmem (hb ▸ heq ▸ ha)

end ProblemList

end FrameGraph
