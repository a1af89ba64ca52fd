import Rejoin.Command.Directory
import Rejoin.Definition.Step
import Rejoin.Main
import Rejoin.Proofs.Plan.Induced
import Rejoin.Proofs.Plan.Match
import Rejoin.Proofs.Plan.Run
import Rejoin.Proofs.Plan.Shortcut
import Rejoin.Proofs.Plan.Absorption
import Rejoin.Proofs.Flaws
import Rejoin.Proofs.Plan.Layout
import Rejoin.Proofs.Plan.Outcome
import Rejoin.Proofs.Plan.Shortening
import Rejoin.Proofs.Plan.Replanning
import Rejoin.Proofs.Plan.Columns
import Rejoin.Proofs.Plan.Literals
import Rejoin.Proofs.Plan.KeyPaths
import Rejoin.Proofs.JoinGraph.Component
import Rejoin.Proofs.JoinGraph.Precedence
import Rejoin.Proofs.JoinGraph.Leaf
import Rejoin.Proofs.Plan.Leaf
import Rejoin.Proofs.View.Sides
import Rejoin.Proofs.Plan.Sides
import Rejoin.Proofs.Json.Scan
import Rejoin.Proofs.Json.Text
import Rejoin.Proofs.View.Text
import Rejoin.Proofs.Json.Record
import Rejoin.Proofs.Definition.Text
import Rejoin.Proofs.Command.Run
import Rejoin.Proofs.Definition.Flaws
import Rejoin.Proofs.Plan.Reordering
import Rejoin.Proofs.Plan.EveryField
import Rejoin.Proofs.Definition.Step
import Rejoin.Proofs.Plan.Blueprint
import Rejoin.Proofs.Json.Format
import Rejoin.Proofs.Json.Parse
import Rejoin.Proofs.Definition.Spelling
