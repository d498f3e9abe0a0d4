import IfCollapse.Main
import IfCollapse.Proofs.Lowering
import IfCollapse.Proofs.Flattening
import IfCollapse.Proofs.Order
import IfCollapse.Proofs.Comparison
import IfCollapse.Proofs.Sites
import IfCollapse.Proofs.Verdict
import IfCollapse.Proofs.Projection
import IfCollapse.Proofs.Applicability
import IfCollapse.Proofs.EvaluationOrder
import IfCollapse.Proofs.Separation
import IfCollapse.Proofs.SingleRun
import IfCollapse.Proofs.Strays
import IfCollapse.Proofs.DanglingElse
import IfCollapse.Proofs.Boundaries
import IfCollapse.Proofs.Scanning
import IfCollapse.Proofs.Rendering
import IfCollapse.Proofs.Faultless
import IfCollapse.Proofs.Subtrees
import IfCollapse.Proofs.Locality
import IfCollapse.Proofs.Overwriting
import IfCollapse.Proofs.Patching
import IfCollapse.Proofs.Replay
import IfCollapse.Proofs.Splicing
import IfCollapse.Proofs.Fixing
import IfCollapse.Proofs.RowBlocks
import IfCollapse.Proofs.Arena
import IfCollapse.Proofs.Representation
import IfCollapse.Proofs.Agreement
import IfCollapse.Proofs.Differences
import IfCollapse.Proofs.Classification
import IfCollapse.Proofs.Substitution
import IfCollapse.Proofs.Borrowing
import IfCollapse.Proofs.Removal
import IfCollapse.Proofs.Comments
import IfCollapse.Proofs.Selection
import IfCollapse.Proofs.Locations
import IfCollapse.Proofs.Quotation
import IfCollapse.Proofs.Lexemes
import IfCollapse.Proofs.Indentation
import IfCollapse.Proofs.Reindentation
import IfCollapse.Proofs.Lines
import IfCollapse.Proofs.Precedence
import IfCollapse.Proofs.Annotations
import IfCollapse.Proofs.Planning
import IfCollapse.Proofs.Traversal
import IfCollapse.Proofs.Repetition
import IfCollapse.Proofs.Rounds
import IfCollapse.Proofs.Completion
