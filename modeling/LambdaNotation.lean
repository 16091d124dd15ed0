import LambdaNotation.Main
import LambdaNotation.Proofs.Failure
import LambdaNotation.Proofs.Yield
import LambdaNotation.Proofs.Congruence
import LambdaNotation.Proofs.BuiltSource
import LambdaNotation.Proofs.Limit
import LambdaNotation.Proofs.Refusal
import LambdaNotation.Proofs.Concatenation
import LambdaNotation.Proofs.Agreement
import LambdaNotation.Proofs.Validation
import LambdaNotation.Proofs.SampleTerms
import LambdaNotation.Proofs.Wrapping
import LambdaNotation.Proofs.Shape
import LambdaNotation.Proofs.NodeText
import LambdaNotation.Proofs.Offset
import LambdaNotation.Proofs.Requests
import LambdaNotation.Proofs.Recursion
import LambdaNotation.Proofs.Narration
import LambdaNotation.Proofs.Naming
import LambdaNotation.Proofs.Message
import LambdaNotation.Proofs.Report
import LambdaNotation.Proofs.Entries
import LambdaNotation.Proofs.Effect
import LambdaNotation.Proofs.Depth
