import Jasm.Main
import Jasm.Proofs.Assembly.Atomicity
import Jasm.Proofs.Assembly.Brackets
import Jasm.Proofs.Assembly.Pending
import Jasm.Proofs.Compile.Discovery
import Jasm.Proofs.Compile.Interleaving
import Jasm.Proofs.Compile.Outputs
import Jasm.Proofs.Compile.Overflow
import Jasm.Proofs.Compile.Recovery
import Jasm.Proofs.Compile.Returns
import Jasm.Proofs.Compile.Telling
import Jasm.Proofs.Compile.Transparency
import Jasm.Proofs.Diagnostic.Bounds
import Jasm.Proofs.Diagnostic.Filtering
import Jasm.Proofs.Diagnostic.Rules
import Jasm.Proofs.Diagnostic.Shortening
import Jasm.Proofs.Draft.Positions
import Jasm.Proofs.Scope.Declaring
import Jasm.Proofs.Source.Assignment
import Jasm.Proofs.Source.Expressions
import Jasm.Proofs.Source.Programs
import Jasm.Proofs.Trace.Nesting
import Jasm.Proofs.Value.Arrays
import Jasm.Proofs.Value.Cells
