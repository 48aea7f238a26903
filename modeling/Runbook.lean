import Runbook.Main
import Runbook.Run.Rewind
import Runbook.Workflow.Edit
import Runbook.Workflow.Reach
import Runbook.Proofs.StepPositions
import Runbook.Proofs.RouteTargets
import Runbook.Proofs.StepCalls
import Runbook.Proofs.BatchCalls
import Runbook.Proofs.ReachableRuns
import Runbook.Proofs.RewoundRuns
import Runbook.Proofs.ConvertedRoutes
import Runbook.Proofs.ConvertedRuns
import Runbook.Proofs.ReadGuarantees
import Runbook.Proofs.GraphSearch
import Runbook.Proofs.GraphChecks
import Runbook.Proofs.FailedCalls
import Runbook.Proofs.CheckedEdges
import Runbook.Proofs.TidyText
import Runbook.Proofs.TitleNames
import Runbook.Proofs.ReadSteps
import Runbook.Proofs.RecordParts
import Runbook.Proofs.StepRoundTrip
import Runbook.Proofs.WorkflowRoundTrip
import Runbook.Proofs.ConditionText
import Runbook.Proofs.CheckedRoutes
import Runbook.Proofs.BatchCeiling
import Runbook.Proofs.DecimalRounding
import Runbook.Proofs.JsonNumbers
import Runbook.Proofs.JsonValues
import Runbook.Proofs.JsonLimits
import Runbook.Proofs.SavedRuns
import Runbook.Proofs.ResumedRuns
import Runbook.Proofs.CycleReports
import Runbook.Proofs.ReachableNodes
import Runbook.Proofs.FloatOverflow
import Runbook.Proofs.RouteAlignment
import Runbook.Proofs.DecisionForms
import Runbook.Proofs.DecisionExchange
import Runbook.Proofs.CallInvariants
import Runbook.Proofs.LatestAnswer
import Runbook.Proofs.BatchAnswers
import Runbook.Proofs.RewindPositions
import Runbook.Proofs.RefusedCalls
import Runbook.Proofs.BatchCommit
import Runbook.Proofs.ClosingDecisions
import Runbook.Proofs.ConvertedChecks
import Runbook.Proofs.StepWrites
import Runbook.Proofs.FirstBranch
import Runbook.Proofs.SequenceOrder
import Runbook.Proofs.BreadthFirstOrder
import Runbook.Proofs.QuestionNames
import Runbook.Proofs.TemplateSlots
import Runbook.Proofs.ConditionLookup
import Runbook.Proofs.BlankAnswers
import Runbook.Proofs.TitleReferences
import Runbook.Proofs.EdgeEdits
import Runbook.Proofs.RouteArrival
