import BlockGraph.Main
import BlockGraph.Proofs.Checking.Examined
import BlockGraph.Proofs.Checking.Inactive
import BlockGraph.Proofs.Document.Format
import BlockGraph.Proofs.Mapping.Rereading
import BlockGraph.Proofs.Mapping.WellFormed
import BlockGraph.Rewrite.Basic
import BlockGraph.Workbench
import BlockGraph.Proofs.Mapping.Identity
import BlockGraph.Proofs.Rewrite.Folding
import BlockGraph.Proofs.Float
import BlockGraph.Proofs.Rewrite.Meaning
import BlockGraph.Proofs.Checking.Identity
import BlockGraph.Proofs.Checking.Folding
import BlockGraph.Proofs.Checking.Visits
import BlockGraph.Proofs.Checking.Hardware
import BlockGraph.Proofs.Node.Copy
import BlockGraph.Proofs.Mapping.Annotations
import BlockGraph.Proofs.Checking.Annotation
import BlockGraph.Proofs.Checking.Logs
import BlockGraph.Proofs.Checking.Modest
import BlockGraph.Proofs.Checking.Setting
import BlockGraph.Proofs.Checking.Isolation
import BlockGraph.Proofs.Checking.Canvas
import BlockGraph.Proofs.Checking.Names
import BlockGraph.Proofs.Checking.Resolution
import BlockGraph.Proofs.Checking.Typing
import BlockGraph.Proofs.Mapping.Equivalence
import BlockGraph.Proofs.Document.Text
import BlockGraph.Proofs.Rewrite.Saving
import BlockGraph.Proofs.Checking.Methods
import BlockGraph.Proofs.Checking.Pruning
import BlockGraph.Proofs.Rewrite.Frame
import BlockGraph.Proofs.Checking.Loops
import BlockGraph.Proofs.Checking.Upgrade
import BlockGraph.Proofs.Mapping.Extensions
import BlockGraph.Proofs.Checking.Jumps
import BlockGraph.Proofs.Checking.Values
import BlockGraph.Proofs.Rewrite.Sharing
import BlockGraph.Proofs.Mapping.Order
import BlockGraph.Proofs.Document.Differences
import BlockGraph.Proofs.Mapping.Blame
import BlockGraph.Proofs.Diagnostic.Places
import BlockGraph.Proofs.Phrase.Inverse
import BlockGraph.Proofs.Mapping.Size
import BlockGraph.Proofs.Node.Outline
import BlockGraph.Proofs.Mapping.Families
import BlockGraph.Proofs.History
