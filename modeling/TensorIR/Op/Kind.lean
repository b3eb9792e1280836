/-!
# Kinds of operation

The operations fall into groups, which their names show by the part before the first point. Each
kind has one name and each name belongs to one kind.

## Main definitions

* `OpKind` — the kinds of operation
* `OpKind.name`, `OpKind.ofName?` — the name of a kind and back
-/

namespace TensorIR

/-- The kinds of operation in the group `arith`: operations on scalars. -/
inductive ArithKind where
  | addf
  | addi
  | cmpf
  | cmpi
  | constant
  | divf
  | divsi
  | extf
  | extsi
  | fptosi
  | fptoui
  | indexCast
  | maximumf
  | maxsi
  | minimumf
  | minsi
  | mulf
  | muli
  | negf
  | remsi
  | select
  | sitofp
  | subf
  | subi
  | truncf
  | trunci
  | uitofp
  deriving DecidableEq, Repr

namespace ArithKind

/-- The name of a kind. -/
def name : ArithKind → String
  | addf => "arith.addf"
  | addi => "arith.addi"
  | cmpf => "arith.cmpf"
  | cmpi => "arith.cmpi"
  | constant => "arith.constant"
  | divf => "arith.divf"
  | divsi => "arith.divsi"
  | extf => "arith.extf"
  | extsi => "arith.extsi"
  | fptosi => "arith.fptosi"
  | fptoui => "arith.fptoui"
  | indexCast => "arith.index_cast"
  | maximumf => "arith.maximumf"
  | maxsi => "arith.maxsi"
  | minimumf => "arith.minimumf"
  | minsi => "arith.minsi"
  | mulf => "arith.mulf"
  | muli => "arith.muli"
  | negf => "arith.negf"
  | remsi => "arith.remsi"
  | select => "arith.select"
  | sitofp => "arith.sitofp"
  | subf => "arith.subf"
  | subi => "arith.subi"
  | truncf => "arith.truncf"
  | trunci => "arith.trunci"
  | uitofp => "arith.uitofp"

/-- All kinds of the group. -/
def all : List ArithKind :=
  [.addf, .addi, .cmpf, .cmpi, .constant, .divf, .divsi, .extf, .extsi, .fptosi, .fptoui,
   .indexCast, .maximumf, .maxsi, .minimumf, .minsi, .mulf, .muli, .negf, .remsi, .select,
   .sitofp, .subf, .subi, .truncf, .trunci, .uitofp]

theorem mem_all (kind : ArithKind) : kind ∈ all := by
  cases kind <;> decide

end ArithKind

/-- The kinds of operation in the group `func`: functions. -/
inductive FuncKind where
  | call
  | func
  | ret
  deriving DecidableEq, Repr

namespace FuncKind

/-- The name of a kind. -/
def name : FuncKind → String
  | call => "func.call"
  | func => "func.func"
  | ret => "return"

/-- All kinds of the group. -/
def all : List FuncKind :=
  [.call, .func, .ret]

theorem mem_all (kind : FuncKind) : kind ∈ all := by
  cases kind <;> decide

end FuncKind

/-- The kinds of operation in the group `math`: transcendental and rounding functions. -/
inductive MathKind where
  | absf
  | exp
  | roundeven
  | tanh
  deriving DecidableEq, Repr

namespace MathKind

/-- The name of a kind. -/
def name : MathKind → String
  | absf => "math.absf"
  | exp => "math.exp"
  | roundeven => "math.roundeven"
  | tanh => "math.tanh"

/-- All kinds of the group. -/
def all : List MathKind :=
  [.absf, .exp, .roundeven, .tanh]

theorem mem_all (kind : MathKind) : kind ∈ all := by
  cases kind <;> decide

end MathKind

/-- The kinds of operation in the group `memref`: operations on buffers. -/
inductive MemrefKind where
  | alloc
  | load
  | store
  deriving DecidableEq, Repr

namespace MemrefKind

/-- The name of a kind. -/
def name : MemrefKind → String
  | alloc => "memref.alloc"
  | load => "memref.load"
  | store => "memref.store"

/-- All kinds of the group. -/
def all : List MemrefKind :=
  [.alloc, .load, .store]

theorem mem_all (kind : MemrefKind) : kind ∈ all := by
  cases kind <;> decide

end MemrefKind

/-- The kinds of operation in the group `scf`: structured control flow on scalars and buffers. -/
inductive ScfKind where
  | forLoop
  | ifElse
  | yield
  deriving DecidableEq, Repr

namespace ScfKind

/-- The name of a kind. -/
def name : ScfKind → String
  | forLoop => "scf.for"
  | ifElse => "scf.if"
  | yield => "scf.yield"

/-- All kinds of the group. -/
def all : List ScfKind :=
  [.forLoop, .ifElse, .yield]

theorem mem_all (kind : ScfKind) : kind ∈ all := by
  cases kind <;> decide

end ScfKind

/-- The kinds of operation in the group `tosa`: operations on whole tensors. -/
inductive TosaKind where
  | abs
  | add
  | cast
  | clamp
  | const
  | exp
  | matmul
  | maximum
  | minimum
  | mul
  | negate
  | pad
  | reciprocal
  | reduceSum
  | reshape
  | sigmoid
  | slice
  | sub
  | tanh
  | tile
  | transpose
  deriving DecidableEq, Repr

namespace TosaKind

/-- The name of a kind. -/
def name : TosaKind → String
  | abs => "tosa.abs"
  | add => "tosa.add"
  | cast => "tosa.cast"
  | clamp => "tosa.clamp"
  | const => "tosa.const"
  | exp => "tosa.exp"
  | matmul => "tosa.matmul"
  | maximum => "tosa.maximum"
  | minimum => "tosa.minimum"
  | mul => "tosa.mul"
  | negate => "tosa.negate"
  | pad => "tosa.pad"
  | reciprocal => "tosa.reciprocal"
  | reduceSum => "tosa.reduce_sum"
  | reshape => "tosa.reshape"
  | sigmoid => "tosa.sigmoid"
  | slice => "tosa.slice"
  | sub => "tosa.sub"
  | tanh => "tosa.tanh"
  | tile => "tosa.tile"
  | transpose => "tosa.transpose"

/-- All kinds of the group. -/
def all : List TosaKind :=
  [.abs, .add, .cast, .clamp, .const, .exp, .matmul, .maximum, .minimum, .mul, .negate, .pad,
   .reciprocal, .reduceSum, .reshape, .sigmoid, .slice, .sub, .tanh, .tile, .transpose]

theorem mem_all (kind : TosaKind) : kind ∈ all := by
  cases kind <;> decide

end TosaKind

/-- The kinds of operation in the group `torch`: the operations of the programs that are lowered. -/
inductive TorchKind where
  | abs
  | addTensor
  | addInt
  | broadcastTo
  | clamp
  | dequantizeSelf
  | divTensor
  | eqInt
  | exp
  | gtInt
  | intRepr
  | ltInt
  | maximum
  | minimum
  | mm
  | mulTensor
  | mulInt
  | neInt
  | neg
  | quantizePerTensor
  | relu
  | reshape
  | sigmoid
  | sizeInt
  | sliceTensor
  | subTensor
  | subInt
  | sumDimIntList
  | tanh
  | transposeInt
  | view
  | attr
  | classType
  | constantBool
  | constantDevice
  | constantFloat
  | constantInt
  | constantNone
  | constantStr
  | copyToTensor
  | copyToVtensor
  | derefine
  | globalSlot
  | globalSlotGet
  | globalSlotInit
  | globalSlotSet
  | method
  | nnModule
  | perTensorAffineCreate
  | callMethod
  | dictConstruct
  | getAttr
  | primIf
  | primIfYield
  | listConstruct
  | primLoop
  | primLoopCondition
  | setAttr
  | tupleConstruct
  | slot
  | tensorStaticInfoCast
  deriving DecidableEq, Repr

namespace TorchKind

/-- The name of a kind. -/
def name : TorchKind → String
  | abs => "torch.aten.abs"
  | addTensor => "torch.aten.add.Tensor"
  | addInt => "torch.aten.add.int"
  | broadcastTo => "torch.aten.broadcast_to"
  | clamp => "torch.aten.clamp"
  | dequantizeSelf => "torch.aten.dequantize.self"
  | divTensor => "torch.aten.div.Tensor"
  | eqInt => "torch.aten.eq.int"
  | exp => "torch.aten.exp"
  | gtInt => "torch.aten.gt.int"
  | intRepr => "torch.aten.int_repr"
  | ltInt => "torch.aten.lt.int"
  | maximum => "torch.aten.maximum"
  | minimum => "torch.aten.minimum"
  | mm => "torch.aten.mm"
  | mulTensor => "torch.aten.mul.Tensor"
  | mulInt => "torch.aten.mul.int"
  | neInt => "torch.aten.ne.int"
  | neg => "torch.aten.neg"
  | quantizePerTensor => "torch.aten.quantize_per_tensor"
  | relu => "torch.aten.relu"
  | reshape => "torch.aten.reshape"
  | sigmoid => "torch.aten.sigmoid"
  | sizeInt => "torch.aten.size.int"
  | sliceTensor => "torch.aten.slice.Tensor"
  | subTensor => "torch.aten.sub.Tensor"
  | subInt => "torch.aten.sub.int"
  | sumDimIntList => "torch.aten.sum.dim_IntList"
  | tanh => "torch.aten.tanh"
  | transposeInt => "torch.aten.transpose.int"
  | view => "torch.aten.view"
  | attr => "torch.attr"
  | classType => "torch.class_type"
  | constantBool => "torch.constant.bool"
  | constantDevice => "torch.constant.device"
  | constantFloat => "torch.constant.float"
  | constantInt => "torch.constant.int"
  | constantNone => "torch.constant.none"
  | constantStr => "torch.constant.str"
  | copyToTensor => "torch.copy.to_tensor"
  | copyToVtensor => "torch.copy.to_vtensor"
  | derefine => "torch.derefine"
  | globalSlot => "torch.global_slot"
  | globalSlotGet => "torch.global_slot.get"
  | globalSlotInit => "torch.global_slot.init"
  | globalSlotSet => "torch.global_slot.set"
  | method => "torch.method"
  | nnModule => "torch.nn_module"
  | perTensorAffineCreate => "torch.per_tensor_affine.create"
  | callMethod => "torch.prim.CallMethod"
  | dictConstruct => "torch.prim.DictConstruct"
  | getAttr => "torch.prim.GetAttr"
  | primIf => "torch.prim.If"
  | primIfYield => "torch.prim.If.yield"
  | listConstruct => "torch.prim.ListConstruct"
  | primLoop => "torch.prim.Loop"
  | primLoopCondition => "torch.prim.Loop.condition"
  | setAttr => "torch.prim.SetAttr"
  | tupleConstruct => "torch.prim.TupleConstruct"
  | slot => "torch.slot"
  | tensorStaticInfoCast => "torch.tensor_static_info_cast"

/-- All kinds of the group. -/
def all : List TorchKind :=
  [.abs, .addTensor, .addInt, .broadcastTo, .clamp, .dequantizeSelf, .divTensor, .eqInt, .exp,
   .gtInt, .intRepr, .ltInt, .maximum, .minimum, .mm, .mulTensor, .mulInt, .neInt, .neg,
   .quantizePerTensor, .relu, .reshape, .sigmoid, .sizeInt, .sliceTensor, .subTensor, .subInt,
   .sumDimIntList, .tanh, .transposeInt, .view, .attr, .classType, .constantBool, .constantDevice,
   .constantFloat, .constantInt, .constantNone, .constantStr, .copyToTensor, .copyToVtensor,
   .derefine, .globalSlot, .globalSlotGet, .globalSlotInit, .globalSlotSet, .method, .nnModule,
   .perTensorAffineCreate, .callMethod, .dictConstruct, .getAttr, .primIf, .primIfYield,
   .listConstruct, .primLoop, .primLoopCondition, .setAttr, .tupleConstruct, .slot,
   .tensorStaticInfoCast]

theorem mem_all (kind : TorchKind) : kind ∈ all := by
  cases kind <;> decide

end TorchKind

/-- The kind of an operation. -/
inductive OpKind where
  | module
  | arith (kind : ArithKind)
  | func (kind : FuncKind)
  | math (kind : MathKind)
  | memref (kind : MemrefKind)
  | scf (kind : ScfKind)
  | tosa (kind : TosaKind)
  | torch (kind : TorchKind)
  deriving DecidableEq, Repr

namespace OpKind

instance : Inhabited OpKind := ⟨module⟩

/-- The name of a kind. -/
def name : OpKind → String
  | module => "module"
  | arith kind => kind.name
  | func kind => kind.name
  | math kind => kind.name
  | memref kind => kind.name
  | scf kind => kind.name
  | tosa kind => kind.name
  | torch kind => kind.name

/-- All kinds of operation. -/
def all : List OpKind :=
  module :: (ArithKind.all.map arith ++
    FuncKind.all.map func ++
    MathKind.all.map math ++
    MemrefKind.all.map memref ++
    ScfKind.all.map scf ++
    TosaKind.all.map tosa ++
    TorchKind.all.map torch)

/-- The kind with a given name. -/
def ofName? (name : String) : Option OpKind :=
  all.find? (·.name == name)

/-- The part of a name before the first point, which shows the group. -/
def dialectOf (name : String) : String :=
  if name.toList.contains '.' then String.ofList (name.toList.takeWhile (· ≠ '.')) else "builtin"

/-- The operation belongs to the programs that are lowered. -/
def isTorch : OpKind → Bool
  | torch _ => true
  | _ => false

theorem mem_all (kind : OpKind) : kind ∈ all := by
  cases kind with
  | module => simp [all]
  | arith kind => simp [all, ArithKind.mem_all]
  | func kind => simp [all, FuncKind.mem_all]
  | math kind => simp [all, MathKind.mem_all]
  | memref kind => simp [all, MemrefKind.mem_all]
  | scf kind => simp [all, ScfKind.mem_all]
  | tosa kind => simp [all, TosaKind.mem_all]
  | torch kind => simp [all, TorchKind.mem_all]

end OpKind

end TensorIR
