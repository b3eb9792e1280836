import TensorIR.Op.Kind

/-!
# What holds for every operation of a kind

Some properties belong to the kind of an operation alone: whether it can be dropped when its results
are not used, whether it is a constant, whether it ends a block, and whether the types of its results
may be made more precise.

## Main definitions

* `OpKind.isPure`, `OpKind.isConst`, `OpKind.isTerminator`, `OpKind.allowsRefinement`
-/

namespace TensorIR

/-- The operation computes a tensor from tensors, and the type of its result follows from those of
its operands. -/
def TorchKind.isTensorOp : TorchKind → Bool
  | addTensor | subTensor | mulTensor | divTensor | maximum | minimum | relu | neg | abs | exp
  | tanh | sigmoid | clamp | mm | sumDimIntList | transposeInt | view | reshape | sliceTensor
  | broadcastTo | quantizePerTensor | dequantizeSelf | intRepr | perTensorAffineCreate => true
  | _ => false

/-- The operation computes an integer or a truth value from two integers. -/
def TorchKind.isIntBinary : TorchKind → Bool
  | addInt | subInt | mulInt | ltInt | gtInt | eqInt | neInt => true
  | _ => false

/-- The operation is a constant. -/
def TorchKind.isConst : TorchKind → Bool
  | constantBool | constantDevice | constantFloat | constantInt | constantNone | constantStr => true
  | _ => false

namespace OpKind

/-- The operation has no effect besides its results. -/
def isPure : OpKind → Bool
  | arith _ | math _ | tosa _ => true
  | memref .alloc | memref .load => true
  | torch kind =>
    kind.isTensorOp || kind.isIntBinary || kind.isConst ||
      match kind with
      | .sizeInt | .tensorStaticInfoCast | .copyToVtensor | .copyToTensor | .derefine
      | .listConstruct | .tupleConstruct | .dictConstruct => true
      | _ => false
  | _ => false

/-- The operation is a constant. -/
def isConst : OpKind → Bool
  | arith .constant | tosa .const => true
  | torch kind => kind.isConst
  | _ => false

/-- The operation ends its block. -/
def isTerminator : OpKind → Bool
  | func .ret | scf .yield | torch .primIfYield | torch .primLoopCondition
  | torch .globalSlotInit => true
  | _ => false

/-- The types of the results may be made more precise, and so may those of the operands. -/
def allowsRefinement : OpKind → Bool
  | torch kind => kind.isTensorOp || kind == .tensorStaticInfoCast
  | _ => false

end OpKind

end TensorIR
