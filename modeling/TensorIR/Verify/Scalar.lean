import TensorIR.Program.Infer

/-!
# Rules for operations on scalars and buffers

Arithmetic takes and gives scalars of one type, conversions take one type to another, comparisons
give one bit, and buffers are accessed with one position for each dimension.

## Main definitions

* `Program.verifyArith`, `Program.verifyMath`, `Program.verifyMemref` — the rule for each kind
-/

namespace TensorIR

/-- Integers and positions. -/
def ScalarType.isIntLike (type : ScalarType) : Bool :=
  type.isInteger || type == .index

/-- The predicates that compare integers. -/
def integerPredicates : List String :=
  ["eq", "ne", "slt", "sle", "sgt", "sge", "ult", "ule", "ugt", "uge"]

/-- The predicates that compare floating-point numbers. -/
def floatPredicates : List String := ["oeq", "one", "olt", "ole", "ogt", "oge"]

/-- The scalar type that a type is. -/
def expectScalar (type : Ty) : Except Error ScalarType :=
  match type with
  | .scalar scalar => .ok scalar
  | other => failing s!"expected a scalar type, but got {other.text}"

/-- The buffer type that a type is. -/
def expectMemref (type : Ty) : Except Error ShapedType :=
  match type with
  | .shaped ⟨.memref, shape, element⟩ => .ok ⟨.memref, shape, element⟩
  | other => failing s!"expected a memref, but got {other.text}"

namespace Program

variable (program : Program)

/-- The scalar types of the operands and of the results of an operation. -/
def scalarTypes (op : OpId) : Except Error (List ScalarType × List ScalarType) := do
  let operands ← (← program.typedOperands op).mapM expectScalar
  let results ← (← program.typedResults op).mapM expectScalar
  return (operands, results)

/-- The rule for operations whose operands and result have one type. -/
def verifySameTypes (op : OpId) (arity : Nat) (what : String) (allowed : ScalarType → Bool) :
    Except Error Unit := do
  let (operands, results) ← program.scalarTypes op
  match results with
  | [result] =>
    if operands.length ≠ arity then
      failing s!"expected {arity} operands and 1 result, but got {operands.length} and 1"
    if !allowed result then failing s!"expected {what} type, but got {result.text}"
    if operands.any (· ≠ result) then failing "operand and result types must be equal"
  | _ =>
    failing <|
      s!"expected {arity} operands and 1 result, but got {operands.length} and {results.length}"

/-- The rule for conversions. -/
def verifyScalarCast (op : OpId) (source target : ScalarType → Bool) : Except Error Unit := do
  match ← program.scalarTypes op with
  | ([operand], [result]) =>
    if !source operand || !target result then
      failing s!"invalid cast from {operand.text} to {result.text}"
  | _ => failing "expected 1 operand and 1 result"

/-- The rule for comparisons. -/
def verifyCompare (op : OpId) (predicates : List String) (allowed : ScalarType → Bool) :
    Except Error Unit := do
  match (program.attributes op).str? "predicate" with
  | some predicate =>
    if !predicates.contains predicate then failing s!"unknown predicate \"{predicate}\""
  | none => failing "missing predicate"
  let (operands, results) ← program.scalarTypes op
  match operands with
  | [a, b] => if a ≠ b ∨ !allowed a then failing "expected two operands of the same type"
  | _ => failing "expected two operands of the same type"
  if results ≠ [.i1] then failing "result must be i1"

/-- The rule for selections. -/
def verifySelect (op : OpId) : Except Error Unit := do
  match ← program.scalarTypes op with
  | ([condition, a, b], [result]) =>
    if condition ≠ .i1 then failing "condition must be i1"
    if a ≠ result ∨ b ≠ result then failing "values and result must have the same type"
  | _ => failing "expected 3 operands and 1 result"

/-- The rule for scalar constants. -/
def verifyScalarConstant (op : OpId) : Except Error Unit := do
  let some type := (program.resultType? op 0).bind Ty.scalar?
    | failing "result must be a scalar type"
  match program.constantValue? op with
  | some (.float _) =>
    if !type.isFloat then failing s!"value does not match the type {type.text}"
  | some (.bool _) => return
  | some (.int value) =>
    if type.isFloat then failing s!"value does not match the type {type.text}"
    match type.intRange? with
    | some (low, high) =>
      if value < low ∨ high < value then failing s!"value {value} does not fit into {type.text}"
    | none => return
  | _ => failing s!"value does not match the type {type.text}"

/-- The rule for arithmetic. -/
def verifyArith (op : OpId) : ArithKind → Except Error Unit
  | .constant => program.verifyScalarConstant op
  | .addi | .subi | .muli | .divsi | .remsi | .maxsi | .minsi =>
    program.verifySameTypes op 2 "an integer" ScalarType.isIntLike
  | .addf | .subf | .mulf | .divf | .maximumf | .minimumf =>
    program.verifySameTypes op 2 "a float" ScalarType.isFloat
  | .negf => program.verifySameTypes op 1 "a float" ScalarType.isFloat
  | .cmpi => program.verifyCompare op integerPredicates ScalarType.isIntLike
  | .cmpf => program.verifyCompare op floatPredicates ScalarType.isFloat
  | .select => program.verifySelect op
  | .sitofp | .uitofp => program.verifyScalarCast op ScalarType.isInteger ScalarType.isFloat
  | .fptosi | .fptoui => program.verifyScalarCast op ScalarType.isFloat ScalarType.isInteger
  | .extf | .truncf => program.verifyScalarCast op ScalarType.isFloat ScalarType.isFloat
  | .extsi | .trunci => program.verifyScalarCast op ScalarType.isInteger ScalarType.isInteger
  | .indexCast => program.verifyScalarCast op ScalarType.isIntLike ScalarType.isIntLike

/-- The rule for functions on one floating-point number. -/
def verifyMath (op : OpId) : Except Error Unit := do
  match ← program.typedOperands op, ← program.typedResults op with
  | [operand], [result] =>
    match operand, result with
    | .scalar a, .scalar b =>
      if a.isFloat ∧ a = b then return
      failing <|
        s!"operand and result must be the same float type, but got {operand.text} and {result.text}"
    | _, _ =>
      failing <|
        s!"operand and result must be the same float type, but got {operand.text} and {result.text}"
  | _, _ => failing "expected 1 operand and 1 result"

/-- The type of the buffer that an operation accesses, given as the operand at a position; the
operands behind it are the positions in the buffer. -/
def verifyAccess (op : OpId) (first : Nat) : Except Error ShapedType := do
  let types ← program.typedOperands op
  match types.drop first with
  | [] => failing "missing memref operand"
  | buffer :: indices =>
    let memref ← expectMemref buffer
    if indices.length ≠ memref.rank then
      failing s!"expected {memref.rank} indices for {memref.text}, but got {indices.length}"
    if indices.any (· ≠ .scalar .index) then failing "indices must be of type index"
    return memref

/-- The rule for operations on buffers. -/
def verifyMemref (op : OpId) : MemrefKind → Except Error Unit
  | .alloc => do
    match program.resultType? op 0 with
    | none => failing "memref.alloc has no result"
    | some type =>
      let memref ← expectMemref type
      if !memref.isStatic then failing s!"dynamic sizes are not supported: {memref.text}"
  | .load => do
    let memref ← program.verifyAccess op 0
    if program.resultType? op 0 ≠ some (.scalar memref.element) then
      failing s!"result type must be the element type of {memref.text}"
  | .store => do
    let memref ← program.verifyAccess op 1
    match (← program.typedOperands op).head? with
    | some (.scalar element) =>
      if element ≠ memref.element then
        failing s!"stored value must have the element type of {memref.text}"
    | _ => failing s!"stored value must have the element type of {memref.text}"

end Program

end TensorIR
