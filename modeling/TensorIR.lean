import TensorIR.Main
import TensorIR.Run
import TensorIR.Program.Cut
import TensorIR.Proofs.Invariant
import TensorIR.Proofs.FailedLowering
import TensorIR.Proofs.Scalar.Alteration
import TensorIR.Proofs.Scalar.Arithmetic
import TensorIR.Proofs.Scalar.Moving
import TensorIR.Proofs.Scalar.Branching
import TensorIR.Proofs.Scalar.Positions
import TensorIR.Proofs.Scalar.LoopHead
import TensorIR.Proofs.Scalar.Rounds
import TensorIR.Proofs.Scalar.Looping
import TensorIR.Proofs.ExactIntegers
import TensorIR.Proofs.Scalar.Converting
import TensorIR.Proofs.Scalar.Running
import TensorIR.Proofs.Scalar.Adequacy
import TensorIR.Proofs.Scalar.Calling
import TensorIR.Proofs.Scalar.Meaningful
import TensorIR.Proofs.Scalar.Correctness
import TensorIR.Proofs.Execution.DeadCode
import TensorIR.Proofs.Execution.Defined
import TensorIR.Proofs.UseSearch
import TensorIR.Proofs.Reading.Nesting
import TensorIR.Proofs.Canonicalization
import TensorIR.Proofs.Refinement.Alike
import TensorIR.Proofs.Refinement.Narrowing
import TensorIR.Proofs.Relowering.Restating
import TensorIR.Proofs.Refinement.Settling
import TensorIR.Proofs.Relowering.Again
import TensorIR.Proofs.Relowering.Entrances
import TensorIR.Proofs.Relowering.Sparing
import TensorIR.Proofs.Relowering.Converting
import TensorIR.Proofs.Relowering.Idempotence
import TensorIR.Proofs.Refinement.Rejection
import TensorIR.Proofs.TypeTexts
import TensorIR.Proofs.Calls
import TensorIR.Proofs.Storage
import TensorIR.Proofs.Inference.Quantized
import TensorIR.Proofs.Inference.Sizes
import TensorIR.Proofs.Inference.Versions
import TensorIR.Proofs.Inference.Cuts
import TensorIR.Proofs.Tensors.Soundness
import TensorIR.Proofs.Ranges.Points
import TensorIR.Proofs.Planning.Plans
import TensorIR.Proofs.Interfaces.Signatures
import TensorIR.Proofs.Computing.Elementwise
import TensorIR.Proofs.Computing.Products
import TensorIR.Proofs.Computing.Quantization
import TensorIR.Proofs.Computing.Sums
import TensorIR.Proofs.Computing.Unbounded
import TensorIR.Proofs.Computing.Views
import TensorIR.Proofs.Bounds.Knowledge
import TensorIR.Proofs.Tensors.Slices
import TensorIR.Proofs.Texts.ShapedTypes
import TensorIR.Proofs.Texts.TorchTypes
import TensorIR.Proofs.Scanning.Coverage
import TensorIR.Proofs.Scanning.Quoted
import TensorIR.Proofs.FreshNames
import TensorIR.Proofs.Tensors.RowMajor
