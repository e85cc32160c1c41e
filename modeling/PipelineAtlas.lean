import PipelineAtlas.CommandLine.Run
import PipelineAtlas.Dag.Example
import PipelineAtlas.Loading
import PipelineAtlas.Main
import PipelineAtlas.Workspace
import PipelineAtlas.Proofs.Edge.Precedence
import PipelineAtlas.Proofs.Sweep.Outcome
import PipelineAtlas.Proofs.Dag.Operation
import PipelineAtlas.Proofs.Dag.TopologicalOrder
import PipelineAtlas.Proofs.Dag.Builder
import PipelineAtlas.Proofs.Definition.Check
import PipelineAtlas.Proofs.Definition.Build
import PipelineAtlas.Proofs.Airflow.Dependency
import PipelineAtlas.Proofs.Airflow.File
import PipelineAtlas.Proofs.Airflow.RoundTrip
import PipelineAtlas.Proofs.Airflow.Inert
import PipelineAtlas.Dag.Indexed
import PipelineAtlas.Proofs.Dag.Indexed
import PipelineAtlas.Proofs.Airflow.Effect
import PipelineAtlas.Proofs.Airflow.Execution
import PipelineAtlas.Proofs.Airflow.Operand
import PipelineAtlas.Proofs.Airflow.Marked
import PipelineAtlas.Proofs.Airflow.LineBreak
import PipelineAtlas.Proofs.Script.Continued
import PipelineAtlas.Proofs.Airflow.Place
import PipelineAtlas.Proofs.Definition.Parametric
import PipelineAtlas.Proofs.Definition.TypedReading
import PipelineAtlas.Proofs.FileTree.Walk
import PipelineAtlas.Proofs.Graph.WellFormed
import PipelineAtlas.Proofs.Workspace.DefinitionFiles
import PipelineAtlas.Proofs.Workspace.WellFormed
import PipelineAtlas.Proofs.Schedule.Expression
import PipelineAtlas.Proofs.Script.Standing
import PipelineAtlas.Proofs.Airflow.Spelled
import PipelineAtlas.Proofs.Airflow.EveryOperand
import PipelineAtlas.Proofs.Airflow.OperatorLine
import PipelineAtlas.Proofs.Airflow.EveryOperator
import PipelineAtlas.Graph.Indexed
import PipelineAtlas.Dag.Change
import PipelineAtlas.Proofs.FirstOccurrence
import PipelineAtlas.Proofs.Graph.Call
import PipelineAtlas.Proofs.Graph.Indexed
import PipelineAtlas.Proofs.Dag.Change
import PipelineAtlas.Proofs.Dag.History
import PipelineAtlas.Proofs.Dag.Registry
import PipelineAtlas.Proofs.NodeId
import PipelineAtlas.Proofs.Text.Lines
import PipelineAtlas.Proofs.Mermaid
import PipelineAtlas.Proofs.Workspace.Finding
import PipelineAtlas.Proofs.Workspace.SharedNode
import PipelineAtlas.Proofs.Dag.BuilderCall
import PipelineAtlas.Proofs.Dag.BuilderFault
import PipelineAtlas.Proofs.Definition.Restored
import PipelineAtlas.Proofs.Loading
import PipelineAtlas.Proofs.CommandLine.Argument
import PipelineAtlas.Proofs.CommandLine.Listing
import PipelineAtlas.Proofs.Text.Token
import PipelineAtlas.Proofs.Schedule.CronLine
import PipelineAtlas.Proofs.Schedule.Firing
import PipelineAtlas.Proofs.Schedule.CronPeriod
import PipelineAtlas.Proofs.FileTree.Added
import PipelineAtlas.Proofs.Workspace.Recorded
import PipelineAtlas.Proofs.Mermaid.Unambiguous
import PipelineAtlas.Proofs.Workspace.ModelFiles
import PipelineAtlas.Proofs.Workspace.Monotone
import PipelineAtlas.Proofs.Airflow.Agreement
import PipelineAtlas.Proofs.Edge.Neighbours
import PipelineAtlas.Proofs.Edge.Service
import PipelineAtlas.Proofs.Sweep.Queue
import PipelineAtlas.Proofs.Dag.ServiceOrder
import PipelineAtlas.Proofs.Dag.Layers
import PipelineAtlas.Proofs.Dag.Border
import PipelineAtlas.Proofs.Definition.Fault
import PipelineAtlas.Proofs.Schedule.IntervalText
import PipelineAtlas.Proofs.Schedule.FieldText
import PipelineAtlas.Proofs.Airflow.LayoutEffect
import PipelineAtlas.Proofs.Text.Word
import PipelineAtlas.Proofs.Script.Level
import PipelineAtlas.Proofs.Script.Part
import PipelineAtlas.Proofs.Script.ValueText
import PipelineAtlas.Proofs.Airflow.Declared
import PipelineAtlas.Proofs.Airflow.ScheduleSpan
import PipelineAtlas.Proofs.Instant.Calendar
import PipelineAtlas.Proofs.Airflow.StartDate
import PipelineAtlas.Proofs.Airflow.NameLink
import PipelineAtlas.Proofs.Airflow.ValueLayout
import PipelineAtlas.Proofs.Airflow.ValueReading
import PipelineAtlas.Proofs.Airflow.Variable
import PipelineAtlas.Proofs.Instant.Form
import PipelineAtlas.Proofs.Workspace.ListedModels
import PipelineAtlas.Proofs.Workspace.JobLines
import PipelineAtlas.Proofs.Workspace.ChartLines
import PipelineAtlas.Proofs.Workspace.Rereading
import PipelineAtlas.Proofs.Workspace.Candidates
import PipelineAtlas.Proofs.Offset.DagFile
import PipelineAtlas.Proofs.HashSum
import PipelineAtlas.Proofs.Script.OneLiteral
import PipelineAtlas.Proofs.Offset.LogicalLine
import PipelineAtlas.Proofs.Offset.Cut
