import Workflow.Main
import Workflow.Flow.Basic
import Workflow.Flow.Builder
import Workflow.Flow.Lower
import Workflow.Flow.Warning
import Workflow.Predicate.Parser
import Workflow.Proofs.Contract.Choice
import Workflow.Proofs.Contract.Availability
import Workflow.Proofs.Contract.MissingKeys
import Workflow.Proofs.Contract.ForwardPath
import Workflow.Proofs.Contract.Reaching
import Workflow.Proofs.Contract.Ledger
import Workflow.Proofs.Contract.DeadOutput
import Workflow.Proofs.Contract.Transforms
import Workflow.Proofs.Contract.Seeding
import Workflow.Proofs.Contract.FalseAlarm
import Workflow.Proofs.Contract.Course
import Workflow.Proofs.Contract.LateUse
import Workflow.Proofs.Tree.Replacement
import Workflow.Proofs.Contract.Effect
import Workflow.Proofs.Contract.Reordering
import Workflow.Proofs.Contract.Visit
import Workflow.Proofs.Contract.Flattening
import Workflow.Proofs.Visibility.Flattening
import Workflow.Proofs.Flow.Lowering
import Workflow.Proofs.Flow.Expression
import Workflow.Proofs.Flow.Checkpoint
import Workflow.Proofs.Flow.Composition
import Workflow.Proofs.Flow.Branch
import Workflow.Proofs.StateOp.Splitting
import Workflow.Proofs.Visibility.Terminal
import Workflow.Proofs.Event.Filtering
import Workflow.Proofs.Tree.Listing
import Workflow.Proofs.Event.Interleaving
import Workflow.Proofs.Flow.Bracketing
import Workflow.Proofs.Predicate.RoundTrip
import Workflow.Proofs.Node.Document
import Workflow.Proofs.Predicate.Grammar
import Workflow.Proofs.StateOp.Footprint
import Workflow.Proofs.StateOp.Moving
import Workflow.Proofs.Predicate.Dependence
import Workflow.Proofs.Event.Agreement
import Workflow.Proofs.Graph.Drawing
import Workflow.Proofs.Graph.Escape
import Workflow.Proofs.Graph.Dot
import Workflow.Proofs.Graph.Mermaid
import Workflow.Proofs.Template.Rendering
import Workflow.Proofs.Flow.Slug
import Workflow.Proofs.Config.Expansion
import Workflow.Proofs.Contract.Lookup
