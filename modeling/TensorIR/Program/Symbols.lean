import TensorIR.Program.Infer

/-!
# Symbols of a module

Functions, classes and global slots are known by symbols. A class lists its attributes, each with a
fixed position, and its methods, each implemented by a function.

## Main definitions

* `ClassLayout` — the attributes and methods of a class
* `SymbolTable` — the symbols of a module
* `Program.symbolTable` — the symbols that a program declares
-/

namespace TensorIR

/-- An attribute that a class declares. -/
structure AttributeDeclaration where
  name : String
  type : TorchType
  isPrivate : Bool
  deriving DecidableEq, Repr

/-- A method that a class declares: the function that implements it. -/
structure MethodDeclaration where
  function : String
  isPrivate : Bool
  deriving DecidableEq, Repr

/-- A member that a class declares: an attribute, or a method under its name. -/
inductive MemberDeclaration where
  | attr (declared : AttributeDeclaration)
  | method (name : String) (declared : MethodDeclaration)
  deriving DecidableEq, Repr

/-- The attributes and methods of a class, in the order of their declaration and indexed by name. -/
structure ClassLayout where
  name : String
  attributes : List AttributeDeclaration := []
  /-- The positions of the attributes, the last entry of a name first. -/
  slots : List (String × Nat) := []
  methods : List (String × MethodDeclaration) := []
  /-- The positions of the methods, the last entry of a name first. -/
  methodIndex : List (String × Nat) := []
  deriving DecidableEq, Repr

/-- Why a class cannot declare a member. -/
inductive LayoutFault where
  | duplicateAttribute (name className : String)
  | duplicateMethod (name className : String)
  deriving DecidableEq, Repr

/-- The sentence that reports why a class cannot declare a member. -/
def LayoutFault.message : LayoutFault → String
  | duplicateAttribute name className => s!"duplicate attribute \"{name}\" in class \"{className}\""
  | duplicateMethod name className => s!"duplicate method \"{name}\" in class \"{className}\""

/-- A change of a layout. When it fails the layout stays as it was at that point. -/
abbrev Declaring := ExceptT LayoutFault (StateM ClassLayout)

namespace ClassLayout

/-- The position of an attribute. -/
def slotIndex? (layout : ClassLayout) (name : String) : Option Nat :=
  layout.slots.lookup name

/-- The attribute with a given name. -/
def attribute? (layout : ClassLayout) (name : String) : Option AttributeDeclaration :=
  (layout.slotIndex? name).bind fun position => layout.attributes[position]?

/-- The method with a given name. -/
def method? (layout : ClassLayout) (name : String) : Option MethodDeclaration :=
  ((layout.methodIndex.lookup name).bind fun position => layout.methods[position]?).map (·.2)

/-- Declares another attribute, unless its name is taken. -/
def addAttribute (declared : AttributeDeclaration) : Declaring Unit := do
  let layout ← get
  if (layout.slots.lookup declared.name).isSome then
    throw (.duplicateAttribute declared.name layout.name)
  modify fun layout =>
    { layout with slots := (declared.name, layout.attributes.length) :: layout.slots }
  modify fun layout => { layout with attributes := layout.attributes ++ [declared] }

/-- Declares another method, unless its name is taken. -/
def addMethod (name : String) (method : MethodDeclaration) : Declaring Unit := do
  let layout ← get
  if (layout.methodIndex.lookup name).isSome then throw (.duplicateMethod name layout.name)
  modify fun layout =>
    { layout with methodIndex := (name, layout.methods.length) :: layout.methodIndex }
  modify fun layout => { layout with methods := layout.methods ++ [(name, method)] }

/-- How the declaration of another member ends, and the layout afterwards. -/
def declare (layout : ClassLayout) : MemberDeclaration → Except LayoutFault Unit × ClassLayout
  | .attr declared => (addAttribute declared).run layout
  | .method name method => (addMethod name method).run layout

/-- The layout with another member. -/
def extend (layout : ClassLayout) (member : MemberDeclaration) : Except Error ClassLayout :=
  match layout.declare member with
  | (.ok (), after) => .ok after
  | (.error fault, _) => failing fault.message

end ClassLayout

/-- The types of the arguments and results of a function. -/
structure Signature where
  inputs : List Ty
  outputs : List Ty
  deriving DecidableEq, Repr

/-- The symbols of a module. -/
structure SymbolTable where
  functions : List (String × Signature) := []
  classes : List (String × ClassLayout) := []
  globalSlots : List (String × TorchType) := []
  /-- The functions that implement methods, each with the class of the method. -/
  methods : List (String × String) := []
  deriving Inhabited

namespace SymbolTable

/-- The function with a given name. -/
def function? (symbols : SymbolTable) (name : String) : Option Signature :=
  symbols.functions.lookup name

/-- The class with a given name. -/
def class? (symbols : SymbolTable) (name : String) : Option ClassLayout :=
  symbols.classes.lookup name

/-- The type of the global slot with a given name. -/
def globalSlot? (symbols : SymbolTable) (name : String) : Option TorchType :=
  symbols.globalSlots.lookup name

/-- The function implements a method of the class. -/
def isMethodOf (symbols : SymbolTable) (function className : String) : Bool :=
  symbols.methods.contains (function, className)

end SymbolTable

namespace Program

variable (program : Program)

/-- The operations directly inside an operation. -/
def membersOf (op : OpId) : List OpId :=
  (program.regionsOf op).heads

/-- The entry block of an operation's first region. -/
def entryOf? (op : OpId) : Option (BlockId × Body) :=
  (program.regionsOf op).entryBlock?

/-- The body of a function. -/
def functionBody (op : OpId) : Except Error (BlockId × Body) :=
  match program.entryOf? op with
  | some entry => .ok entry
  | none => failing "Expected function to have a body"

/-- The type that an operation declares. -/
def declaredType (op : OpId) : Except Error TorchType :=
  match (program.attributes op).type? "type" with
  | some (.torch type) => .ok type
  | some other => failing s!"requires a torch type, but got {other.text}"
  | none => failing "requires a type attribute"

/-- The layout with the member that an operation inside a class declares. -/
def addMember (layout : ClassLayout) (op : OpId) : Except Error ClassLayout :=
  match program.kind op with
  | .torch .attr => do
    let type ← program.declaredType op
    layout.extend (.attr ⟨program.stringOf op "name", type, program.isPrivate op⟩)
  | .torch .method =>
    layout.extend (.method (program.stringOf op "name")
      ⟨program.symbolOf op "function", program.isPrivate op⟩)
  | _ => .ok layout

/-- The attributes and methods that a class declares. -/
def classLayout (op : OpId) : Except Error ClassLayout :=
  (program.membersOf op).foldlM program.addMember { name := program.symbolOf op "sym_name" }

/-- The types of the arguments and results of a function. -/
def signature (op : OpId) : Except Error Signature := do
  let (block, _) ← program.functionBody op
  let inputs ← (program.header block).arguments.mapM program.typed
  return ⟨inputs, ← program.typedResults op⟩

/-- The symbols with the one that an operation directly in the module declares. -/
def addSymbol (symbols : SymbolTable) (op : OpId) : Except Error SymbolTable :=
  match program.kind op with
  | .func .func => do
    let name := (program.functionName? op).getD ""
    let signature ← program.signature op
    if (symbols.function? name).isSome then failing s!"redefinition of function @{name}"
    return { symbols with functions := symbols.functions ++ [(name, signature)] }
  | .torch .classType => do
    let layout ← program.classLayout op
    if (symbols.class? layout.name).isSome then failing s!"redefinition of class @{layout.name}"
    return { symbols with
      classes := symbols.classes ++ [(layout.name, layout)]
      methods := symbols.methods ++ layout.methods.map fun method =>
        (method.2.function, layout.name) }
  | .torch .globalSlot => do
    let name := program.symbolOf op "sym_name"
    let type ← program.declaredType op
    if (symbols.globalSlot? name).isSome then failing s!"redefinition of global slot @{name}"
    return { symbols with globalSlots := symbols.globalSlots ++ [(name, type)] }
  | _ => return symbols

/-- The symbols that a program declares. -/
def symbolTable : Except Error SymbolTable :=
  program.topLevel.foldlM program.addSymbol {}

/-- The symbol that an operation carries. -/
def symbolName? (op : OpId) : Option String :=
  match program.kind op with
  | .func .func => program.functionName? op
  | .torch .classType | .torch .globalSlot => some (program.symbolOf op "sym_name")
  | _ => none

/-- The operations around a given one, innermost first. -/
def ancestors : Nat → OpId → List OpId
  | 0, _ => []
  | fuel + 1, op =>
    match program.parent? op with
    | none => []
    | some parent => parent :: ancestors fuel parent

/-- The name of the function that holds an operation. -/
def enclosingFunction? (op : OpId) : Option String :=
  match (program.ancestors program.operations.size op).find? fun around =>
    program.kind around == .func .func with
  | some function => program.symbolName? function
  | none => none

end Program

end TensorIR
