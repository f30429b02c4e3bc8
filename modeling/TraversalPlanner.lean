import TraversalPlanner.Number.Layout
import TraversalPlanner.Number.Numeral
import TraversalPlanner.Text.Classes
import TraversalPlanner.Json.Reader
import TraversalPlanner.Json.Writer
import TraversalPlanner.Json.Record
import TraversalPlanner.Value.Column
import TraversalPlanner.Traversal.Fluent
import TraversalPlanner.Traversal.Text
import TraversalPlanner.Error
import TraversalPlanner.Expression.Condition
import TraversalPlanner.Expression.Naming
import TraversalPlanner.Operator.Slots
import TraversalPlanner.Operator.Build
import TraversalPlanner.Plan.Lowering
import TraversalPlanner.Plan.Graph
import TraversalPlanner.Plan.Tables
import TraversalPlanner.Plan.Assembly
import TraversalPlanner.Job
import TraversalPlanner.Proofs.GraphGrowth
import TraversalPlanner.Proofs.LoweringChecks
import TraversalPlanner.Proofs.AssemblyLogic
import TraversalPlanner.Proofs.LexicalScope
import TraversalPlanner.Proofs.TagWalks
import TraversalPlanner.Proofs.Planting
import TraversalPlanner.Proofs.LooseRoots
import TraversalPlanner.Proofs.Stems
import TraversalPlanner.Proofs.Cycles
import TraversalPlanner.Proofs.TableGrowth
import TraversalPlanner.Proofs.TableRefinement
import TraversalPlanner.Proofs.PlanLayout
import TraversalPlanner.Proofs.CodecLaws
import TraversalPlanner.Proofs.FrameRoundTrip
import TraversalPlanner.Proofs.StrictReading
import TraversalPlanner.Proofs.ChecksumLaws
import TraversalPlanner.Proofs.FrameIntegrity
import TraversalPlanner.Proofs.BuiltOperators
import TraversalPlanner.Proofs.Cuts
import TraversalPlanner.Proofs.Nesting
import TraversalPlanner.Proofs.Acceptance
import TraversalPlanner.Proofs.Serialization
import TraversalPlanner.Proofs.PlanForest
import TraversalPlanner.Proofs.PlanShape
import TraversalPlanner.Proofs.TwinRuns
import TraversalPlanner.Proofs.Relocation
import TraversalPlanner.Proofs.Lookups
import TraversalPlanner.Proofs.ScanFusion
import TraversalPlanner.Proofs.Blame
import TraversalPlanner.Proofs.MarkedTexts
import TraversalPlanner.Proofs.Standing
import TraversalPlanner.Proofs.Complaints
import TraversalPlanner.Proofs.FilterPaths
import TraversalPlanner.Proofs.NameBalance
import TraversalPlanner.Proofs.SelfApplication
import TraversalPlanner.Proofs.HeadPositions
import TraversalPlanner.Proofs.UnionParents
import TraversalPlanner.Proofs.BuildFaults
import TraversalPlanner.Proofs.Scanning
import TraversalPlanner.Proofs.Refusals
import TraversalPlanner.Proofs.SchemaFilter
import TraversalPlanner.Proofs.Placing
import TraversalPlanner.Proofs.Sessions
import TraversalPlanner.Proofs.Mirroring
import TraversalPlanner.Proofs.Release
import TraversalPlanner.Proofs.WellFormedNodes
import TraversalPlanner.Proofs.QuotedTexts
import TraversalPlanner.Proofs.WrittenKeys
import TraversalPlanner.Proofs.CheckedKeys
import TraversalPlanner.Proofs.Numerals
import TraversalPlanner.Proofs.JsonTexts
import TraversalPlanner.Proofs.Restatement
import TraversalPlanner.Proofs.TraversalReading
import TraversalPlanner.Proofs.TraversalTexts
import TraversalPlanner.Proofs.LegibleReferences
import TraversalPlanner.Proofs.ShownReferences
import TraversalPlanner.Proofs.ProjectionGrammar
import TraversalPlanner.Proofs.ConditionGrammar
import TraversalPlanner.Proofs.WrittenConditions
import TraversalPlanner.Proofs.Concatenation
import TraversalPlanner.Proofs.OrderWords
import TraversalPlanner.Proofs.Occupants
import TraversalPlanner.Proofs.GroupNames
import TraversalPlanner.Proofs.ProjectionNames
import TraversalPlanner.Proofs.NodeCounts
import TraversalPlanner.Proofs.AliasBindings
import TraversalPlanner.Proofs.Permanence
import TraversalPlanner.Proofs.Blueprints
import TraversalPlanner.Proofs.BlueprintPieces
import TraversalPlanner.Proofs.BranchWiring
import TraversalPlanner.Proofs.SlotCells
import TraversalPlanner.Proofs.BranchLeftovers
import TraversalPlanner.Proofs.Beginnings
import TraversalPlanner.Proofs.ScopelessRuns
import TraversalPlanner.Proofs.DeploymentHints
import TraversalPlanner.Proofs.Submissions
import TraversalPlanner.Proofs.PlanHistories
import TraversalPlanner.Proofs.TableRuns
