import SJava.Main
import SJava.Directory
import SJava.Proofs.Trim
import SJava.Proofs.LineBraces
import SJava.Proofs.Entries
import SJava.Proofs.Walks
import SJava.Proofs.Placement
import SJava.Proofs.Bindings
import SJava.Proofs.References
import SJava.Proofs.Scoping
import SJava.Proofs.Structured.Refinement
import SJava.Proofs.Values
import SJava.Proofs.Rearrangement
import SJava.Proofs.Composition
import SJava.Proofs.Initializers
import SJava.Proofs.TakingApart
import SJava.Proofs.LineFaults
import SJava.Proofs.Respacing
import SJava.Proofs.Assigning
import SJava.Proofs.Initialization
import SJava.Proofs.Balance
import SJava.Proofs.Results
import SJava.Proofs.SymbolTables
import SJava.Proofs.Resolving
import SJava.Proofs.Arguments
import SJava.Proofs.Clauses
import SJava.Proofs.Returns
import SJava.Proofs.Written
import SJava.Proofs.Sequence
import SJava.Proofs.Reporting
import SJava.Proofs.Operations
import SJava.Proofs.Selecting
import SJava.Proofs.Blocks
import SJava.Proofs.Quotes
import SJava.Proofs.Parenthesized
import SJava.Proofs.Precedence
