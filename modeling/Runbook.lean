import Runbook.Main
import Runbook.Workflow.Named
import Runbook.Workflow.Same
import Runbook.Proofs.Check.Editing
import Runbook.Proofs.Document.Redrawn
import Runbook.Proofs.Run.Bookkeeping
import Runbook.Proofs.Run.Confluence
import Runbook.Proofs.Run.Finality
import Runbook.Proofs.Run.Itinerary
import Runbook.Proofs.Run.Log
import Runbook.Proofs.Run.Precedence
import Runbook.Proofs.Run.Thread
import Runbook.Proofs.Workflow.Built
import Runbook.Proofs.Workflow.Saved
import Runbook.Proofs.Yaml.Block
import Runbook.Proofs.Yaml.Characters
import Runbook.Proofs.Yaml.Numbers
import Runbook.Proofs.Run.Atomic
import Runbook.Proofs.Run.Stable
import Runbook.Proofs.Run.Timeless
import Runbook.Proofs.Run.Truncated
import Runbook.Proofs.Workflow.Overrides
import Runbook.Proofs.Yaml.Leaves
import Runbook.Proofs.Yaml.Stream
import Runbook.Proofs.Yaml.Nodes
import Runbook.Proofs.Workflow.SavedYaml
import Runbook.Proofs.Graph.Part
import Runbook.Proofs.Document.Removed
import Runbook.Proofs.Check.Reachable
import Runbook.Proofs.Workflow.Spelled
import Runbook.Proofs.Workflow.Merged
import Runbook.Proofs.Cli.Simulated
import Runbook.Proofs.Config.Cache
import Runbook.Proofs.Workflow.Loaded
import Runbook.Proofs.Run.Dead
import Runbook.Proofs.Run.Times
import Runbook.Proofs.Check.Views
import Runbook.Proofs.Cli.Files
import Runbook.Proofs.Graph.Counters
