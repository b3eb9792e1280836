/-!
# The nesting of operations

A program is a tree: an operation has regions, a region has blocks, and a block has operations. The
tree holds only names; what an operation or a block is made of is kept beside it. Reading goes
through the list of visits in program order, and every change is a change at one operation or in one
block.

## Main definitions

* `Body`, `Blocks`, `Regions` — the operations of a block, the blocks of a region, the regions of an
  operation
* `Body.visits` — every operation with its surroundings, in program order
* `Body.alterAt` — the tree with the operations from a given one on replaced
-/

namespace TensorIR

/-- The name of an operation. -/
structure OpId where
  index : Nat
  deriving DecidableEq, Repr, Inhabited

/-- The name of a block. -/
structure BlockId where
  index : Nat
  deriving DecidableEq, Repr, Inhabited

/-- The name of a value. -/
structure ValueId where
  index : Nat
  deriving DecidableEq, Repr, Inhabited

mutual

/-- The operations of a block, first to last, each with its regions. -/
inductive Body where
  | nil
  | cons (op : OpId) (regions : Regions) (rest : Body)

/-- The blocks of a region, the entry block first. -/
inductive Blocks where
  | nil
  | cons (block : BlockId) (body : Body) (rest : Blocks)

/-- The regions of an operation. -/
inductive Regions where
  | nil
  | cons (blocks : Blocks) (rest : Regions)

end

instance : Inhabited Body := ⟨.nil⟩
instance : Inhabited Blocks := ⟨.nil⟩
instance : Inhabited Regions := ⟨.nil⟩

/-- An operation as it is met on a walk through the tree. -/
structure Visit where
  op : OpId
  /-- The regions of the operation. -/
  regions : Regions
  /-- The operations that follow it in its block. -/
  rest : Body
  /-- The block that holds it, unless it is the outermost operation. -/
  block : Option BlockId
  /-- The operation that holds its block. -/
  parent : Option OpId
  /-- The number of operations around it. -/
  depth : Nat
  deriving Inhabited

mutual

/-- The operations in program order, each before those inside it. -/
def Body.visits (block : Option BlockId) (parent : Option OpId) (depth : Nat) : Body → List Visit
  | .nil => []
  | .cons op regions rest =>
    ⟨op, regions, rest, block, parent, depth⟩ ::
      (Regions.visits op (depth + 1) regions ++ Body.visits block parent depth rest)

/-- The operations inside blocks that belong to `parent`. -/
def Blocks.visits (parent : OpId) (depth : Nat) : Blocks → List Visit
  | .nil => []
  | .cons block body rest =>
    Body.visits (some block) (some parent) depth body ++ Blocks.visits parent depth rest

/-- The operations inside regions that belong to `parent`. -/
def Regions.visits (parent : OpId) (depth : Nat) : Regions → List Visit
  | .nil => []
  | .cons blocks rest => Blocks.visits parent depth blocks ++ Regions.visits parent depth rest

end

mutual

/-- The operations in program order, each before those inside it. -/
def Body.ops : Body → List OpId
  | .nil => []
  | .cons op regions rest => op :: (Regions.ops regions ++ Body.ops rest)

/-- The operations inside blocks. -/
def Blocks.ops : Blocks → List OpId
  | .nil => []
  | .cons _ body rest => Body.ops body ++ Blocks.ops rest

/-- The operations inside regions. -/
def Regions.ops : Regions → List OpId
  | .nil => []
  | .cons blocks rest => Blocks.ops blocks ++ Regions.ops rest

end

mutual

/-- The blocks inside the regions of operations, in program order. -/
def Body.blockBodies : Body → List (BlockId × Body)
  | .nil => []
  | .cons _ regions rest => Regions.blockBodies regions ++ Body.blockBodies rest

/-- Blocks with their operations, each before those inside it. -/
def Blocks.blockBodies : Blocks → List (BlockId × Body)
  | .nil => []
  | .cons block body rest =>
    (block, body) :: (Body.blockBodies body ++ Blocks.blockBodies rest)

/-- The blocks inside regions. -/
def Regions.blockBodies : Regions → List (BlockId × Body)
  | .nil => []
  | .cons blocks rest => Blocks.blockBodies blocks ++ Regions.blockBodies rest

end

mutual

/-- The operations with those from `op` on replaced by what `change` makes of its regions and of the
operations after it. -/
def Body.alterAt (op : OpId) (change : Regions → Body → Body) : Body → Body
  | .nil => .nil
  | .cons other regions rest =>
    if other = op then change regions rest
    else .cons other (Regions.alterAt op change regions) (Body.alterAt op change rest)

/-- The blocks with a change at one operation. -/
def Blocks.alterAt (op : OpId) (change : Regions → Body → Body) : Blocks → Blocks
  | .nil => .nil
  | .cons block body rest =>
    .cons block (Body.alterAt op change body) (Blocks.alterAt op change rest)

/-- The regions with a change at one operation. -/
def Regions.alterAt (op : OpId) (change : Regions → Body → Body) : Regions → Regions
  | .nil => .nil
  | .cons blocks rest => .cons (Blocks.alterAt op change blocks) (Regions.alterAt op change rest)

end

namespace Body

/-- Operations one after the other. -/
def append : Body → Body → Body
  | .nil, later => later
  | .cons op regions rest, later => .cons op regions (append rest later)

/-- One operation alone. -/
def single (op : OpId) (regions : Regions) : Body := .cons op regions .nil

/-- The operations of the block itself, without those inside them. -/
def heads : Body → List OpId
  | .nil => []
  | .cons op _ rest => op :: heads rest

/-- The last operation of the block, without those inside it. -/
def last? : Body → Option OpId
  | .nil => none
  | .cons op _ .nil => some op
  | .cons _ _ rest => last? rest

/-- The operations of the block without the last one, and the last one alone. -/
def splitLast? : Body → Option (Body × OpId × Regions)
  | .nil => none
  | .cons op regions .nil => some (.nil, op, regions)
  | .cons op regions rest =>
    (splitLast? rest).map fun (front, last) => (.cons op regions front, last)

/-- The operations of the block before a given one. -/
def before (op : OpId) : Body → Body
  | .nil => .nil
  | .cons other regions rest => if other = op then .nil else .cons other regions (before op rest)

/-- There are no operations. -/
def isEmpty : Body → Bool
  | .nil => true
  | .cons .. => false

end Body

namespace Blocks

/-- The entry block with its operations. -/
def entryBlock? : Blocks → Option (BlockId × Body)
  | .nil => none
  | .cons block body _ => some (block, body)

/-- The blocks with other operations in the entry block. -/
def withEntryBody (body : Body) : Blocks → Blocks
  | .nil => .nil
  | .cons block _ rest => .cons block body rest

/-- The number of blocks. -/
def size : Blocks → Nat
  | .nil => 0
  | .cons _ _ rest => rest.size + 1

/-- The names of the blocks. -/
def names : Blocks → List BlockId
  | .nil => []
  | .cons block _ rest => block :: names rest

end Blocks

namespace Regions

/-- The regions as a list. -/
def toList : Regions → List Blocks
  | .nil => []
  | .cons blocks rest => blocks :: toList rest

/-- Regions from a list. -/
def ofList : List Blocks → Regions
  | [] => .nil
  | blocks :: rest => .cons blocks (ofList rest)

/-- The region at a position. -/
def get? (regions : Regions) (index : Nat) : Option Blocks :=
  regions.toList[index]?

/-- The regions with a change of the one at a position. -/
def modify (regions : Regions) (index : Nat) (change : Blocks → Blocks) : Regions :=
  ofList (regions.toList.modify index change)

/-- The entry block of the first region. -/
def entryBlock? (regions : Regions) : Option (BlockId × Body) :=
  (regions.get? 0).bind Blocks.entryBlock?

/-- A region of one block. -/
def single (block : BlockId) (body : Body) : Regions :=
  .cons (.cons block body .nil) .nil

/-- The operations directly inside the regions. -/
def heads (regions : Regions) : List OpId :=
  regions.toList.flatMap blockHeads
where
  /-- The operations directly inside blocks. -/
  blockHeads : Blocks → List OpId
    | .nil => []
    | .cons _ body rest => body.heads ++ blockHeads rest

end Regions

end TensorIR
