import FrameGraph.CommandLine.MemoryFiles
import FrameGraph.Compile.Phase
import FrameGraph.Main
import FrameGraph.Problem.Json
import FrameGraph.Proofs.AbsorbedLinks
import FrameGraph.Proofs.AddedParameters
import FrameGraph.Proofs.AppendedNode
import FrameGraph.Proofs.AssignedOutputs
import FrameGraph.Proofs.BrokenLinks
import FrameGraph.Proofs.CachedFrames
import FrameGraph.Proofs.ClosedLiterals
import FrameGraph.Proofs.CodeNames
import FrameGraph.Proofs.CodeRewriting
import FrameGraph.Proofs.CompileOutcome
import FrameGraph.Proofs.CompileProblems
import FrameGraph.Proofs.Contributions
import FrameGraph.Proofs.DistinctLiterals
import FrameGraph.Proofs.DistinctVariables
import FrameGraph.Proofs.DocumentJson
import FrameGraph.Proofs.DrawnRevisions
import FrameGraph.Proofs.EditHistory
import FrameGraph.Proofs.EvaluationOrder
import FrameGraph.Proofs.ExactFlags
import FrameGraph.Proofs.FailedTrees
import FrameGraph.Proofs.FragmentText
import FrameGraph.Proofs.FreeNames
import FrameGraph.Proofs.HostAnswers
import FrameGraph.Proofs.HostString
import FrameGraph.Proofs.ImportedModules
import FrameGraph.Proofs.InvalidFlags
import FrameGraph.Proofs.JsonNumerals
import FrameGraph.Proofs.JsonText
import FrameGraph.Proofs.LastPlaceholder
import FrameGraph.Proofs.LexemeBoundaries
import FrameGraph.Proofs.LineNames
import FrameGraph.Proofs.LinkIntegrity
import FrameGraph.Proofs.LinkOrder
import FrameGraph.Proofs.LiteralForms
import FrameGraph.Proofs.LiteralModules
import FrameGraph.Proofs.LiteralNames
import FrameGraph.Proofs.LiteralText
import FrameGraph.Proofs.NameMarking
import FrameGraph.Proofs.NearestNumbers
import FrameGraph.Proofs.NetworkRoots
import FrameGraph.Proofs.Networks
import FrameGraph.Proofs.NodeBindings
import FrameGraph.Proofs.NodeLines
import FrameGraph.Proofs.OperationInputs
import FrameGraph.Proofs.OptionInvariance
import FrameGraph.Proofs.Outcomes
import FrameGraph.Proofs.ParameterLines
import FrameGraph.Proofs.PlainRunner
import FrameGraph.Proofs.ProcedureBody
import FrameGraph.Proofs.ProcedureLines
import FrameGraph.Proofs.ReadableNumerals
import FrameGraph.Proofs.RefusedEdits
import FrameGraph.Proofs.ReloadedDocuments
import FrameGraph.Proofs.RepairedTrees
import FrameGraph.Proofs.RepeatedTags
import FrameGraph.Proofs.ReportedProblems
import FrameGraph.Proofs.RequestedModules
import FrameGraph.Proofs.Revisions
import FrameGraph.Proofs.RoundingIntervals
import FrameGraph.Proofs.Schedule
import FrameGraph.Proofs.Segmentation
import FrameGraph.Proofs.SessionEquivalence
import FrameGraph.Proofs.ShortestDecimals
import FrameGraph.Proofs.SourceBlocks
import FrameGraph.Proofs.StandardCode
import FrameGraph.Proofs.StandardModules
import FrameGraph.Proofs.StandardNodes
import FrameGraph.Proofs.TextLines
import FrameGraph.Proofs.ValidEdits
import FrameGraph.Proofs.Validation
import FrameGraph.Proofs.ValueJson
import FrameGraph.Proofs.VariableNames
import FrameGraph.Proofs.WrittenDecimals
