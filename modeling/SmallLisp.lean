import SmallLisp.Main
import SmallLisp.Proofs.ArgumentOrder
import SmallLisp.Proofs.Arithmetic
import SmallLisp.Proofs.Assignment
import SmallLisp.Proofs.Atom
import SmallLisp.Proofs.Backtracking
import SmallLisp.Proofs.Binary64.Line
import SmallLisp.Proofs.Binary64.Nearest
import SmallLisp.Proofs.Blank
import SmallLisp.Proofs.Comparison
import SmallLisp.Proofs.Depth
import SmallLisp.Proofs.Equivalence
import SmallLisp.Proofs.Evolution
import SmallLisp.Proofs.Extremum
import SmallLisp.Proofs.Factorial
import SmallLisp.Proofs.Failure
import SmallLisp.Proofs.Grammar
import SmallLisp.Proofs.History
import SmallLisp.Proofs.Munch
import SmallLisp.Proofs.Printed
import SmallLisp.Proofs.Prompt
import SmallLisp.Proofs.Quotation
import SmallLisp.Proofs.Scope
import SmallLisp.Proofs.Script
import SmallLisp.Proofs.Separation
import SmallLisp.Proofs.Signature
import SmallLisp.Proofs.Splitting
import SmallLisp.Proofs.Stream
import SmallLisp.Proofs.Transparency
import SmallLisp.Proofs.Walk
import SmallLisp.Proofs.Words
import SmallLisp.Value.Inspect
