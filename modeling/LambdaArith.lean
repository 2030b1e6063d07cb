import LambdaArith.CommandLine.Batch
import LambdaArith.CommandLine.Interactive
import LambdaArith.Main
import LambdaArith.Proofs.Commuting
import LambdaArith.Proofs.Extent
import LambdaArith.Proofs.FirstWrongToken
import LambdaArith.Proofs.ModuleText
import LambdaArith.Proofs.NameSearch
import LambdaArith.Proofs.Namespace
import LambdaArith.Proofs.OutputNames
import LambdaArith.Proofs.ParameterNames
import LambdaArith.Proofs.PostOrder
import LambdaArith.Proofs.Refusals
import LambdaArith.Proofs.Samples
import LambdaArith.Proofs.Sessions
import LambdaArith.Proofs.SingleAssignment
import LambdaArith.Proofs.Spacing
import LambdaArith.Proofs.Splitting
import LambdaArith.Proofs.Undoing
import LambdaArith.Proofs.Unresolved
import LambdaArith.Proofs.Untouched
