import TensorIR.Text.Blank
import TensorIR.Type.TensorInfo

/-!
# Torch types

The types of the programs that are lowered: primitive values, tensors with and without value
semantics, containers, optional values and instances of classes.

Subtyping follows what is known about tensors and extends through the containers; every type is a
subtype of `any`, and `none` and every subtype of `τ` are subtypes of `optional τ`.

## Main definitions

* `TorchType` — the types
* `TorchType.isSubtype`, `TorchType.meet?`, `TorchType.join` — subtyping and its two bounds
* `TorchType.text`, `TorchType.read` — the written form and back
-/

namespace TensorIR

/-- The type of a value before lowering. `tensor` has reference semantics and `vtensor` has value
semantics; neither is a subtype of the other. -/
inductive TorchType where
  | none
  | bool
  | int
  | float
  | str
  | device
  | generator
  | linearParams
  | any
  | tensor (info : TensorInfo)
  | vtensor (info : TensorInfo)
  | list (element : TorchType)
  | tuple (elements : List TorchType)
  | dict (key value : TorchType)
  | optional (element : TorchType)
  | nnModule (className : String)
  deriving Repr, Inhabited

namespace TorchType

mutual

/-- Two types are built alike. -/
def same : TorchType → TorchType → Bool
  | .none, .none | .bool, .bool | .int, .int | .float, .float | .str, .str => true
  | .device, .device | .generator, .generator | .linearParams, .linearParams | .any, .any => true
  | .tensor i, .tensor j => i = j
  | .vtensor i, .vtensor j => i = j
  | .list x, .list y => same x y
  | .tuple xs, .tuple ys => sameList xs ys
  | .dict k v, .dict l w => same k l && same v w
  | .optional x, .optional y => same x y
  | .nnModule c, .nnModule d => c = d
  | _, _ => false

/-- Two lists hold types that are built alike. -/
def sameList : List TorchType → List TorchType → Bool
  | [], [] => true
  | x :: xs, y :: ys => same x y && sameList xs ys
  | _, _ => false

end

mutual

theorem same_iff : (a b : TorchType) → (same a b = true ↔ a = b)
  | .none, b | .bool, b | .int, b | .float, b | .str, b | .device, b | .generator, b
  | .linearParams, b | .any, b | .tensor _, b | .vtensor _, b | .nnModule _, b => by
    cases b <;> simp [same]
  | .list x, b | .optional x, b => by
    cases b <;> simp [same, same_iff x]
  | .tuple xs, b => by
    cases b <;> simp [same, sameList_iff xs]
  | .dict k v, b => by
    cases b <;> simp [same, same_iff k, same_iff v]

theorem sameList_iff : (as bs : List TorchType) → (sameList as bs = true ↔ as = bs)
  | [], bs => by cases bs <;> simp [sameList]
  | a :: as, bs => by cases bs <;> simp [sameList, same_iff a, sameList_iff as]

end

instance : DecidableEq TorchType := fun a b =>
  decidable_of_iff (same a b = true) (same_iff a b)

/-- The type is that of a tensor of either kind. -/
def isTensor : TorchType → Bool
  | .tensor _ | .vtensor _ => true
  | _ => false

/-- What is known about a tensor of either kind. -/
def tensorInfo? : TorchType → Option TensorInfo
  | .tensor info | .vtensor info => some info
  | _ => Option.none

/-- The same kind of tensor with other knowledge. -/
def withInfo? (info : TensorInfo) : TorchType → Option TorchType
  | .tensor _ => some (.tensor info)
  | .vtensor _ => some (.vtensor info)
  | _ => Option.none

mutual

/-- Every value of the first type is one of the second. -/
def isSubtype (a : TorchType) : TorchType → Bool
  | .any => true
  | .optional b =>
    same a (.optional b) ||
      match a with
      | .none => true
      | .optional c => isSubtype c b
      | c => isSubtype c b
  | .vtensor info =>
    match a with
    | .vtensor known => same a (.vtensor info) || known.isSubtype info
    | _ => false
  | .tensor info =>
    match a with
    | .tensor known => same a (.tensor info) || known.isSubtype info
    | _ => false
  | .list b =>
    match a with
    | .list c => same a (.list b) || isSubtype c b
    | _ => false
  | .tuple bs =>
    match a with
    | .tuple cs => same a (.tuple bs) || (cs.length == bs.length && isSubtypeEach cs bs)
    | _ => false
  | .dict l w =>
    match a with
    | .dict k v => same a (.dict l w) || (isSubtype k l && isSubtype v w)
    | _ => false
  | b => same a b

/-- Position by position, as far as both lists go, the first type is a subtype of the second. -/
def isSubtypeEach (as : List TorchType) : List TorchType → Bool
  | [] => true
  | b :: bs =>
    match as with
    | [] => true
    | a :: as => isSubtype a b && isSubtypeEach as bs

end

mutual

/-- The most precise type known from both, unless they contradict each other. -/
def meet? (a b : TorchType) : Option TorchType :=
  if isSubtype a b then some a
  else if isSubtype b a then some b
  else
    match a, b with
    | .vtensor i, .vtensor j => (i.meet? j).map .vtensor
    | .tensor i, .tensor j => (i.meet? j).map .tensor
    | .optional c, .optional d => (meet? c d).map .optional
    | .optional c, d => meet? c d
    | c, .optional d => meet? d c
    | .list c, .list d => (meet? c d).map .list
    | .tuple cs, .tuple ds =>
      if cs.length = ds.length then (meetEach? cs ds).map .tuple else Option.none
    | _, _ => Option.none
termination_by sizeOf a + sizeOf b

/-- The most precise types position by position, unless one position is contradictory. -/
def meetEach? (as bs : List TorchType) : Option (List TorchType) :=
  match as, bs with
  | a :: as, b :: bs =>
    match meet? a b with
    | some c => (meetEach? as bs).map (c :: ·)
    | Option.none => Option.none
  | _, _ => some []
termination_by sizeOf as + sizeOf bs

end

mutual

/-- A type of which both are subtypes, for the results of branches. -/
def join (a b : TorchType) : TorchType :=
  if isSubtype a b then b
  else if isSubtype b a then a
  else
    match a, b with
    | .vtensor i, .vtensor j => .vtensor (i.join j)
    | .tensor i, .tensor j => .tensor (i.join j)
    | .none, d => .optional d
    | c, .none => .optional c
    | .optional c, d => .optional (join c d)
    | c, .optional d => .optional (join d c)
    | .list c, .list d => .list (join c d)
    | .tuple cs, .tuple ds => if cs.length = ds.length then .tuple (joinEach cs ds) else .any
    | _, _ => .any
termination_by sizeOf a + sizeOf b

/-- The joins position by position. -/
def joinEach (as bs : List TorchType) : List TorchType :=
  match as, bs with
  | a :: as, b :: bs => join a b :: joinEach as bs
  | _, _ => []
termination_by sizeOf as + sizeOf bs

end

mutual

/-- The written form of a type inside a container. -/
def shortText : TorchType → String
  | .none => "none"
  | .bool => "bool"
  | .int => "int"
  | .float => "float"
  | .str => "str"
  | .device => "Device"
  | .generator => "Generator"
  | .linearParams => "LinearParams"
  | .any => "any"
  | .tensor info => if info.isUnknown then "tensor" else "tensor<" ++ info.text ++ ">"
  | .vtensor info => if info.isUnknown then "vtensor" else "vtensor<" ++ info.text ++ ">"
  | .list element => "list<" ++ shortText element ++ ">"
  | .optional element => "optional<" ++ shortText element ++ ">"
  | .tuple elements => "tuple<" ++ String.intercalate ", " (shortTexts elements) ++ ">"
  | .dict key value => "dict<" ++ shortText key ++ ", " ++ shortText value ++ ">"
  | .nnModule className => "nn.Module<\"" ++ className ++ "\">"

/-- The written forms of the types in a list. -/
def shortTexts : List TorchType → List String
  | [] => []
  | a :: as => shortText a :: shortTexts as

end

/-- The written form of a type. -/
def text (type : TorchType) : String :=
  "!torch." ++ type.shortText

/-- The types that are written as a name alone. -/
def named : List TorchType :=
  [.none, .bool, .int, .float, .str, .device, .generator, .linearParams, .any, .tensor ⟨Option.none, Option.none⟩,
    .vtensor ⟨Option.none, Option.none⟩]

/-- The name before the first angle bracket and the text after it. -/
def nameAndRest (text : List Char) : List Char × Option (List Char) :=
  let name := text.takeWhile (· ≠ '<')
  match text.drop name.length with
  | [] => (name, Option.none)
  | _ :: rest => (name, some rest)

/-- Reads the class name between quotes. -/
def readClassName (arguments : List Char) : Except TypeFault TorchType :=
  match (Text.afterPrefix? ['"'] (Text.trimmed arguments)).bind (Text.beforeLast? '"') with
  | some name => .ok (.nnModule (String.ofList name))
  | Option.none => .error (.notQuoted (String.ofList arguments))

/-- Reads a type as it stands inside a container, nested at most as deep as the fuel. -/
def readShort : Nat → List Char → Except TypeFault TorchType
  | 0, whole => .error (.unknownTorch (String.ofList whole))
  | fuel + 1, whole => do
    let trimmed := Text.trimmed whole
    let short := (Text.afterPrefix? "!torch.".toList trimmed).getD trimmed
    let unknown : TypeFault := .unknownTorch (String.ofList short)
    match nameAndRest short with
    | (name, Option.none) =>
      match named.find? (·.shortText == String.ofList name) with
      | some type => return type
      | Option.none => throw unknown
    | (name, some rest) =>
      let some arguments := Text.beforeLast? '>' rest
        | throw (.unterminatedTorch (String.ofList short))
      match String.ofList name with
      | "tensor" => return .tensor (← TensorInfo.read arguments)
      | "vtensor" => return .vtensor (← TensorInfo.read arguments)
      | "list" => return .list (← readShort fuel arguments)
      | "optional" => return .optional (← readShort fuel arguments)
      | "tuple" => return .tuple (← (Text.splitTopLevel arguments).mapM (readShort fuel))
      | "dict" =>
        match Text.splitTopLevel arguments with
        | [key, value] => return .dict (← readShort fuel key) (← readShort fuel value)
        | _ => throw (.notKeyAndValue (String.ofList arguments))
      | "nn.Module" => readClassName arguments
      | _ => throw unknown

/-- Reads a type. White space is passed over wherever it stands. -/
def read (text : List Char) : Except TypeFault TorchType :=
  let bare := Text.withoutBlanks text
  match Text.afterPrefix? "!torch.".toList bare with
  | some _ => readShort (bare.length + 1) bare
  | Option.none => .error (.notTorch (String.ofList bare))

end TorchType

end TensorIR
