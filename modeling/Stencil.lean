import Stencil.Main
import Stencil.Execution.Semantics
import Stencil.Library.Extension
import Stencil.Grammar.Directory
import Stencil.Proofs.Execution.Refinement
import Stencil.Proofs.Execution.Room
import Stencil.Proofs.Execution.Blocks
import Stencil.Proofs.Document.Folding
import Stencil.Proofs.Document.Soundness
import Stencil.Proofs.Source.Tokenization
import Stencil.Proofs.Standard.Grammar
import Stencil.Proofs.Standard.Meaning
import Stencil.Proofs.Standard.Compilation
import Stencil.Proofs.Standard.Correctness
import Stencil.Proofs.Document.Shifting
import Stencil.Proofs.Program.Relocation
import Stencil.Proofs.Value.Streams
import Stencil.Proofs.Standard.Relocation
import Stencil.Proofs.Execution.Streams
import Stencil.Proofs.Standard.Concatenation
import Stencil.Proofs.Grammar.Registration
import Stencil.Proofs.Document.Balance
import Stencil.Proofs.Document.Derivation
import Stencil.Proofs.Document.Preservation
import Stencil.Proofs.Expression.Literals
import Stencil.Proofs.Source.Arguments
import Stencil.Proofs.Standard.Faults
import Stencil.Proofs.Standard.Verbatim
import Stencil.Proofs.Source.Excerpt
import Stencil.Proofs.Expression.Derivation
import Stencil.Proofs.Expression.Acceptance
import Stencil.Proofs.Program.Generation
import Stencil.Proofs.Program.Shape
import Stencil.Proofs.Library.Bodies
import Stencil.Proofs.Execution.Chains
import Stencil.Proofs.Execution.Steps
import Stencil.Proofs.Standard.Origins
import Stencil.Proofs.Execution.Names
import Stencil.Proofs.Execution.Loops
import Stencil.Proofs.Execution.Scopes
import Stencil.Proofs.Standard.Independence
import Stencil.Proofs.Source.Places
import Stencil.Proofs.Document.Places
import Stencil.Proofs.Execution.Faults
import Stencil.Proofs.Standard.Places
import Stencil.Proofs.Text.Quoting
import Stencil.Proofs.Expression.Lexemes
import Stencil.Proofs.Expression.Writing
import Stencil.Proofs.Program.Gist
import Stencil.Proofs.Program.Interchange
import Stencil.Proofs.Standard.Insertion
import Stencil.Text.Sha1
import Stencil.Proofs.Program.Preparing
import Stencil.Proofs.Text.Digests
import Stencil.Proofs.Engine.Caching
import Stencil.Proofs.Engine.History
import Stencil.Proofs.Grammar.Requests
import Stencil.Proofs.Grammar.Handlers
import Stencil.Proofs.Grammar.Atomicity
import Stencil.Proofs.Grammar.Listing
import Stencil.Proofs.Document.Items
import Stencil.Proofs.Program.Freezing
import Stencil.Proofs.Document.Arena
import Stencil.Proofs.Value.Parts
import Stencil.Proofs.Value.Spelling
import Stencil.Proofs.Expression.Evaluation
import Stencil.Proofs.Execution.Failures
import Stencil.Proofs.Execution.Attribution
import Stencil.Proofs.Standard.Closure
import Stencil.Proofs.Execution.Joining
import Stencil.Proofs.Program.Normal
import Stencil.Proofs.Source.Agreement
import Stencil.Proofs.Document.Postorder
import Stencil.Proofs.Program.Sweeping
import Stencil.Proofs.Source.Naming
import Stencil.Proofs.Source.Placeholders
import Stencil.Proofs.Source.Matching
import Stencil.Proofs.Expression.Shapes
import Stencil.Proofs.Expression.Scanning
import Stencil.Proofs.Expression.Viability
import Stencil.Proofs.Standard.Outputs
import Stencil.Proofs.Value.Paths
import Stencil.Proofs.CommandLine.Assignments
import Stencil.Proofs.Document.Outlines
import Stencil.Proofs.Document.Drafting
