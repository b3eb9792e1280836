import TensorIR.Proofs.Planning.Calls

/-!
# Plans of building

A plan is a finite program of calls that build operations, nested as loops and branches are. A call is given
values that stand in the program already, values that calls before it in the same body or around it have
given, arguments of bodies around it, and constant positions that have been asked for anywhere before. If
those of the program are visible at the anchor, all operands are visible where the operations are put.

## Main definitions

* `Plan`, `Plan.Call` — programs of calls, and single calls
* `Plan.build` — what a plan builds
* `Plan.Scoped` — all values that a plan mentions are there when they are needed

## Main results

* `Plan.proceeds` — following a plan keeps a draft in order
* `Program.visible_build` — following a plan keeps all operands of the program visible
-/

namespace TensorIR

/-- A value that a call is given. -/
inductive Plan.Operand where
  /-- A value of the program. -/
  | around (value : ValueId)
  /-- The value at a position among those that calls and bodies around have given, the first one first. -/
  | given (position : Nat)
  /-- The constant position that an earlier call has asked for. -/
  | index (position : Int)
  deriving DecidableEq, Repr

mutual

/-- A program of calls, which gives values at its end. -/
inductive Plan where
  | finish (operands : List Plan.Operand)
  | call (first : Plan.Call) (rest : Plan)

/-- A call that builds operations. Loops and branches have programs of calls for their bodies. -/
inductive Plan.Call where
  | index (position : Int)
  | int (value : Int) (type : ScalarType)
  | float (value : Float) (type : ScalarType)
  | scalar (value : Float) (type : ScalarType)
  | literal (literal : Literal) (type : Ty)
  | create (kind : OpKind) (operands : List Plan.Operand) (types : List Ty) (attributes : Attributes)
  | value (kind : OpKind) (operands : List Plan.Operand) (type : Ty) (attributes : Attributes)
  | forLoop (lower upper step : Plan.Operand) (initial : List Plan.Operand) (body : Plan)
  | ifElse (condition : Plan.Operand) (types : List Ty) (thenBody elseBody : Plan)
  | loopNest (shape : List Int) (body : Plan)

end

/-- The value that is meant, where calls and bodies around have given some. -/
def Plan.Operand.value? (values : List ValueId) (draft : Draft) : Plan.Operand → Option ValueId
  | around value => some value
  | given position => values[position]?
  | index position => draft.indices.lookup position

/-- The value that a call is given. -/
def Build.operand (values : List ValueId) (operand : Plan.Operand) : Build ValueId := do
  match operand.value? values (← get) with
  | some value => return value
  | none => throw (.failure "a value is used that has not been given")

mutual

/-- Follows a plan, where calls and bodies around have given some values. -/
def Plan.build (values : List ValueId) : Plan → Build (List ValueId)
  | .finish operands => operands.mapM (Build.operand values)
  | .call first rest => do
    let more ← Plan.Call.build values first
    Plan.build (values ++ more) rest

/-- Makes a call and gives the values that it gives. -/
def Plan.Call.build (values : List ValueId) : Plan.Call → Build (List ValueId)
  | .index position => return [← Build.index position]
  | .int value type => return [← Build.int value type]
  | .float value type => return [← Build.float value type]
  | .scalar value type => return [← Build.scalar value type]
  | .literal constant type => return (← Build.literal constant type).toList
  | .create kind operands types attributes => do
    let operands ← operands.mapM (Build.operand values)
    let op ← Build.create kind operands types attributes
    Build.ask (·.results op)
  | .value kind operands type attributes => do
    let operands ← operands.mapM (Build.operand values)
    return [← Build.value kind operands type attributes]
  | .forLoop lower upper stride initial body => do
    let lower ← Build.operand values lower
    let upper ← Build.operand values upper
    let stride ← Build.operand values stride
    let initial ← initial.mapM (Build.operand values)
    Build.forLoop lower upper stride initial fun position carried =>
      Plan.build (values ++ position :: carried) body
  | .ifElse condition types thenBody elseBody => do
    let condition ← Build.operand values condition
    Build.ifElse condition types (Plan.build values thenBody) (Plan.build values elseBody)
  | .loopNest shape body => do
    Build.loopNest shape fun positions => do
      let _ ← Plan.build (values ++ positions) body
    return []

end

/-- The number of values that a call gives. -/
def Plan.Call.count : Plan.Call → Nat
  | .index _ | .int .. | .float .. | .scalar .. | .value .. => 1
  | .literal constant type => (constant.hasConstant type).toNat
  | .create _ _ types _ | .ifElse _ types _ _ => types.length
  | .forLoop _ _ _ initial _ => initial.length
  | .loopNest .. => 0

mutual

/-- The constant positions that a plan asks for, the last one first. -/
def Plan.asks : Plan → List Int
  | .finish _ => []
  | .call first rest => Plan.asks rest ++ Plan.Call.asks first

/-- The constant positions that a call asks for. -/
def Plan.Call.asks : Plan.Call → List Int
  | .index position => [position]
  | .forLoop _ _ _ _ body => Plan.asks body
  | .ifElse _ _ thenBody elseBody => Plan.asks elseBody ++ Plan.asks thenBody
  | .loopNest shape body => Plan.asks body ++ Build.nestPositions shape
  | _ => []

end

/-- A value is there when it is needed: it can be seen in the program, it is among a number of values that
have been given, or it is a constant position that has been asked for. -/
def Plan.Operand.Known (seen : ValueId → Prop) (count : Nat) (asked : List Int) : Plan.Operand → Prop
  | around value => seen value
  | given position => position < count
  | index position => position ∈ asked

mutual

/-- Every value that a plan mentions is there when it is needed. -/
def Plan.Scoped (seen : ValueId → Prop) (count : Nat) (asked : List Int) : Plan → Prop
  | .finish operands => ∀ operand ∈ operands, operand.Known seen count asked
  | .call first rest =>
    Plan.Call.Scoped seen count asked first ∧
      Plan.Scoped seen (count + first.count) (first.asks ++ asked) rest

/-- Every value that a call mentions is there when it is needed. -/
def Plan.Call.Scoped (seen : ValueId → Prop) (count : Nat) (asked : List Int) : Plan.Call → Prop
  | .create _ operands _ _ | .value _ operands _ _ => ∀ operand ∈ operands, operand.Known seen count asked
  | .forLoop lower upper stride initial body =>
    (∀ operand ∈ [lower, upper, stride] ++ initial, operand.Known seen count asked) ∧
      Plan.Scoped seen (count + (initial.length + 1)) asked body
  | .ifElse condition _ thenBody elseBody =>
    condition.Known seen count asked ∧ Plan.Scoped seen count asked thenBody ∧
      Plan.Scoped seen count (thenBody.asks ++ asked) elseBody
  | .loopNest shape body =>
    Plan.Scoped seen (count + shape.length) (Build.nestPositions shape ++ asked) body
  | _ => True

end

/-! ### Values that are meant -/

section Operands

variable {seen scope : ValueId → Prop} {typed : Prop} {values offered : List ValueId} {asked : List Int}

open Build (Proceeds)

/-- A value that is there when it is needed may be used. -/
theorem Build.Proceeds.operand {operand : Plan.Operand} (more : ∀ value, seen value → scope value)
    (among : ∀ value ∈ values, value ∈ offered) (known : operand.Known seen values.length asked) :
    Proceeds scope typed (Draft.Offers scope offered asked) (Build.operand values operand)
      fun value draft => draft.Offers scope (offered ++ [value]) asked := by
  apply of_run
  intro draft orderly offers
  -- Each kind of operand is visible for a reason of its own.
  have means : ∃ value, operand.value? values draft = some value ∧ draft.Shows scope value := by
    cases operand with
    | around value => exact ⟨value, rfl, .inr (.inr (more value known))⟩
    | given position =>
      have inside : position < values.length := known
      exact ⟨values[position], List.getElem?_eq_getElem inside,
        offers.shown _ (among _ (List.getElem_mem inside))⟩
    | index position =>
      obtain ⟨value, isKnown⟩ := Option.isSome_iff_exists.mp (offers.known position known)
      exact ⟨value, isKnown, orderly.shows_of_lookup isKnown⟩
  obtain ⟨value, meant, shown⟩ := means
  refine ⟨value, draft, ?_, .refl orderly, offers.append fun other member => ?_⟩
  · rw [Build.operand, run_bind, run_get]
    dsimp only
    rw [meant]
    rfl
  · exact List.mem_singleton.mp member ▸ shown

theorem Build.Proceeds.operands {operands : List Plan.Operand} (more : ∀ value, seen value → scope value)
    (among : ∀ value ∈ values, value ∈ offered)
    (known : ∀ operand ∈ operands, operand.Known seen values.length asked) :
    Proceeds scope typed (Draft.Offers scope offered asked) (operands.mapM (Build.operand values))
      fun found draft => found.length = operands.length ∧ draft.Offers scope (offered ++ found) asked := by
  induction operands generalizing offered with
  | nil => exact .pure fun draft offers => ⟨rfl, by simpa using offers⟩
  | cons operand operands ih =>
    rw [List.forall_mem_cons] at known
    rw [List.mapM_cons]
    refine (Proceeds.operand more among known.1).bind fun value => ?_
    refine (ih (fun other member => List.mem_append_left _ (among other member)) known.2).bind fun found => ?_
    exact .pure fun draft offers => ⟨congrArg Nat.succ offers.1, by simpa using offers.2⟩

/-! ### Calls and plans -/

theorem Build.Proceeds.int (value : Int) (type : ScalarType) :
    Proceeds scope typed (Draft.Offers scope values asked) (Build.int value type)
      fun value draft => draft.Offers scope (values ++ [value]) asked :=
  .named (·.freshNamed s!"c{value.natAbs}_{type.text}") _ _ _

theorem Build.Proceeds.float (value : Float) (type : ScalarType) :
    Proceeds scope typed (Draft.Offers scope values asked) (Build.float value type)
      fun value draft => draft.Offers scope (values ++ [value]) asked :=
  .named (·.freshNamed "cst") _ _ _

/-- A loop whose bounds and first values are meant by what a call is given. -/
theorem Build.Proceeds.loopOver {lower upper stride : Plan.Operand} {initial : List Plan.Operand}
    {asks : List Int} {body : ValueId → List ValueId → Build (List ValueId)}
    (more : ∀ value, seen value → scope value)
    (known : ∀ operand ∈ [lower, upper, stride] ++ initial, operand.Known seen values.length asked)
    (inside : ∀ (wider : ValueId → Prop) (position : ValueId) (carried : List ValueId),
      (∀ value, scope value → wider value) → carried.length = initial.length →
        Proceeds wider typed (Draft.Offers wider (values ++ position :: carried) asked) (body position carried)
          fun results draft => draft.Offers wider results asks) :
    Proceeds scope typed (Draft.Offers scope values asked)
      (do
        let lower ← Build.operand values lower
        let upper ← Build.operand values upper
        let stride ← Build.operand values stride
        let initial ← initial.mapM (Build.operand values)
        Build.forLoop lower upper stride initial body)
      fun results draft => results.length = initial.length ∧ draft.Offers scope (values ++ results) asks := by
  simp only [List.cons_append, List.nil_append, List.forall_mem_cons] at known
  obtain ⟨isLower, isUpper, isStride, areInitial⟩ := known
  refine (Proceeds.operand more (fun _ => id) isLower).bind fun lower => ?_
  refine (Proceeds.operand more (fun _ => List.mem_append_left _) isUpper).bind fun upper => ?_
  refine (Proceeds.operand more ?_ isStride).bind fun stride => ?_
  · simp only [List.mem_append]
    tauto
  refine (Proceeds.operands more ?_ areInitial).bind fun found => .of_fact fun count => ?_
  · simp only [List.mem_append]
    tauto
  refine (Proceeds.forLoop ?_ fun wider position carried wide number => ?_).weaken (fun _ => id)
    fun results draft offers => ⟨offers.1.trans count, offers.2.anti ?_⟩
  · simp only [List.mem_append, List.mem_cons]
    tauto
  · -- The body is not given the bounds, only what has been there before the loop.
    refine (inside wider position carried wide (number.trans count)).weaken
      (fun draft offers => offers.anti ?_) fun _ _ => id
    simp only [List.mem_append, List.mem_cons]
    tauto
  · simp only [List.mem_append]
    tauto

mutual

/-- Following a plan keeps a draft in order. The values that it gives at its end are visible there. -/
theorem Plan.proceeds {seen scope : ValueId → Prop} {values : List ValueId} {asked : List Int}
    (more : ∀ value, seen value → scope value) :
    (plan : Plan) → plan.Scoped seen values.length asked →
      Proceeds scope typed (Draft.Offers scope values asked) (plan.build values)
        fun results draft => draft.Offers scope results (plan.asks ++ asked)
  | .finish operands, known => by
    rw [Plan.build]
    refine (Proceeds.operands more (fun _ => id) known).weaken (fun _ => id) fun found draft offers => ?_
    exact offers.2.anti fun value => List.mem_append_right _
  | .call first rest, ⟨firstScoped, restScoped⟩ => by
    rw [Plan.build, Plan.asks, List.append_assoc]
    refine (Plan.Call.proceeds more first firstScoped).bind fun found => .of_fact fun count => ?_
    -- What the first call has given is counted when the rest is asked whether its values are there.
    refine Plan.proceeds more rest ?_
    rwa [List.length_append, count]

/-- Making a call keeps a draft in order. The values that it gives may be used from then on. -/
theorem Plan.Call.proceeds {seen scope : ValueId → Prop} {values : List ValueId} {asked : List Int}
    (more : ∀ value, seen value → scope value) :
    (call : Plan.Call) → call.Scoped seen values.length asked →
      Proceeds scope typed (Draft.Offers scope values asked) (call.build values)
        fun results draft => results.length = call.count ∧
          draft.Offers scope (values ++ results) (call.asks ++ asked)
  | .index position, _ => by
    rw [Plan.Call.build]
    exact (Proceeds.index position).bind fun value => .pure fun draft offers => ⟨rfl, offers⟩
  | .int value type, _ => by
    rw [Plan.Call.build]
    exact (Proceeds.int value type).bind fun value => .pure fun draft offers => ⟨rfl, offers⟩
  | .float value type, _ => by
    rw [Plan.Call.build]
    exact (Proceeds.float value type).bind fun value => .pure fun draft offers => ⟨rfl, offers⟩
  | .scalar value type, _ => by
    have constant : Proceeds scope typed (Draft.Offers scope values asked) (Build.scalar value type)
        fun value draft => draft.Offers scope (values ++ [value]) asked := by
      rw [Build.scalar]
      split
      · exact .float value type
      · exact .int _ type
    rw [Plan.Call.build]
    exact constant.bind fun value => .pure fun draft offers => ⟨rfl, offers⟩
  | .literal constant type, _ => by
    rw [Plan.Call.build]
    exact (Proceeds.literal constant type).bind fun found => .pure fun draft offers => offers
  | .create kind operands types attributes, known => by
    rw [Plan.Call.build]
    refine (Proceeds.operands more (fun _ => id) known).bind fun found => .of_fact fun _ => ?_
    refine (Proceeds.createAll types attributes fun operand => List.mem_append_right _).weaken (fun _ => id)
      fun results draft offers => ⟨offers.1, offers.2.anti ?_⟩
    simp only [List.mem_append]
    tauto
  | .value kind operands type attributes, known => by
    rw [Plan.Call.build]
    refine (Proceeds.operands more (fun _ => id) known).bind fun found => .of_fact fun _ => ?_
    refine (Proceeds.value kind type attributes fun operand => List.mem_append_right _).bind fun result =>
      .pure fun draft offers => ⟨rfl, offers.anti ?_⟩
    simp only [List.mem_append]
    tauto
  | .forLoop lower upper stride initial body, ⟨known, inside⟩ => by
    rw [Plan.Call.build]
    refine .loopOver more known fun wider position carried wide number => ?_
    refine Plan.proceeds (fun value among => wide value (more value among)) body ?_
    rwa [List.length_append, List.length_cons, number]
  -- Behind the first side its values are gone, but the constant positions stand in front of the branch.
  | .ifElse condition types thenBody elseBody, ⟨known, inThen, inElse⟩ => by
    rw [Plan.Call.build, Plan.Call.asks, List.append_assoc]
    refine (Proceeds.operand more (fun _ => id) known).bind fun found => ?_
    refine (Proceeds.ifElse types (thenBody.asks ++ asked) (List.mem_append_right _ (List.mem_singleton_self _))
      (fun wider wide => ?_) fun wider wide => ?_).weaken (fun _ => id)
      fun results draft offers => ⟨offers.1, offers.2.anti ?_⟩
    · exact (Plan.proceeds (fun value among => wide value (more value among)) thenBody inThen).weaken
        (fun draft offers => offers.anti fun value => List.mem_append_left _) fun _ _ => id
    · exact (Plan.proceeds (fun value among => wide value (more value among)) elseBody inElse).weaken
        (fun draft offers => offers.anti fun value => List.mem_append_left _) fun _ _ => id
    · simp only [List.mem_append]
      tauto
  | .loopNest shape body, inside => by
    rw [Plan.Call.build, Plan.Call.asks, List.append_assoc]
    refine (Proceeds.loopNest shape fun wider positions wide number => ?_).bind fun _ =>
      .pure fun draft offers => ⟨rfl, by rwa [List.append_nil]⟩
    refine (Plan.proceeds (fun value among => wide value (more value among)) body ?_).bind fun _ =>
      .pure fun draft offers => offers.anti fun value member => absurd member List.not_mem_nil
    rwa [List.length_append, number]

end

end Operands

/-! ### The program afterwards -/

/-- What has been built in order keeps the operands of the whole program visible. -/
theorem Draft.Leads.visible {program : Program} {anchor : OpId} {draft : Draft} {typed : Prop}
    (formed : program.WellFormed) (visible : program.tree.Visible program fun _ => False)
    (leads : (program.draft anchor .before).Leads (program.IsVisibleAt anchor) typed draft) :
    draft.finished.tree.Visible draft.finished fun _ => False := by
  have reached := leads.furthers.program
  have anchored : draft.anchor = anchor := leads.furthers.anchor
  have tree : draft.program.tree = program.tree := by
    rw [Program.tree, reached.root, reached.regions, ← Program.tree]
    rfl
  have reads : ∀ part ∈ program.tree.parts, program.Reads draft.program part :=
    fun part member => reached.reads (formed.knows part member)
  have kept : program.tree.Visible draft.program fun _ => False := (Body.visible_congr _ reads).mpr visible
  -- Only the anchor gets something next to it, so the tree is the old one with the draft put there.
  rw [Draft.finished_eq, Program.tree_alterAt leads.orderly.placed, tree,
    Body.visible_congr _ fun part _ => draft.program.reads_alterAt draft.anchor draft.change part]
  refine Body.visible_altered (leads.orderly.suits leads.furthers.placement) _ kept fun value shown => ?_
  rw [anchored]
  exact (Body.sees_congr _ reads).mpr shown

/-- Following a plan in front of an operation keeps all operands visible, also if something fails on the
way. If the values that are visible at the operation have types, nothing fails. -/
theorem Program.visible_build {program after : Program} {anchor : OpId} {plan : Plan}
    {outcome : Except Error (List ValueId)} (formed : program.WellFormed)
    (visible : program.tree.Visible program fun _ => False) (inside : anchor ∈ program.regions.ops)
    (inScope : plan.Scoped (program.IsVisibleAt anchor) 0 [])
    (run : (Change.build anchor (plan.build [])).run program = (outcome, after)) :
    after.tree.Visible after (fun _ => False) ∧
      ((∀ value, program.IsVisibleAt anchor value → (program.typeOf? value).isSome) →
        ∃ values, outcome = .ok values) := by
  have placed : anchor ≠ program.root := fun same => formed.root_notMem (same ▸ inside)
  have orderly : (program.draft anchor .before).Orderly (program.IsVisibleAt anchor)
      (∀ value, program.IsVisibleAt anchor value → (program.typeOf? value).isSome) :=
    Draft.orderly_draft placed id
  have nothing : (program.draft anchor .before).Offers (program.IsVisibleAt anchor) [] [] :=
    ⟨fun _ member => absurd member List.not_mem_nil, fun _ member => absurd member List.not_mem_nil⟩
  obtain ⟨leads, -, succeeds⟩ := Plan.proceeds (fun _ => id) plan inScope _ orderly nothing
  rw [Change.run_build] at run
  cases run
  exact ⟨leads.visible formed visible, succeeds⟩

/-- A function that gives back its argument. -/
def passing : Program where
  values := #[⟨some "%x", some (.scalar .index), .argument (some ⟨1⟩)⟩, ⟨none, some (.scalar .index), .signature⟩]
  operations := #[
    { kind := .module },
    { kind := .func .func, results := [⟨1⟩],
      attributes := Attributes.empty.insert "sym_name" (.ofSymbol "f") },
    { kind := .func .ret, operands := [⟨0⟩] }]
  headers := #[{}, { arguments := [⟨0⟩] }]
  root := ⟨0⟩
  regions := .single ⟨0⟩ (.single ⟨1⟩ (.single ⟨1⟩ (.single ⟨2⟩ .nil)))

/-- A loop that adds a constant position in each round, and a sum behind it that uses the position for which
the body of the loop has asked. -/
def counting : Plan :=
  .call (.index 0) <| .call (.index 4) <| .call (.index 1) <|
    .call (.forLoop (.given 0) (.given 1) (.given 2) [.around ⟨0⟩]
      (.call (.index 7) <|
        .call (.value (.arith .addi) [.given 4, .given 5] (.scalar .index) .empty) <| .finish [.given 6])) <|
    .call (.value (.arith .addi) [.given 3, .index 7] (.scalar .index) .empty) <| .finish [.given 4]

theorem isVisibleAt_passing {value : ValueId} : passing.IsVisibleAt ⟨2⟩ value ↔ value = ⟨0⟩ := by
  simp [Program.IsVisibleAt, Program.tree, passing, Body.Sees, Regions.Sees, Blocks.Sees, Regions.single,
    Body.single, Program.header]

/-- Both sums may use the position, which stands in front of the loop. -/
theorem visible_build_counting : ∃ values after,
    (Change.build ⟨2⟩ (counting.build [])).run passing = (.ok values, after) ∧
      after.tree.Visible after fun _ => False := by
  have visible : passing.tree.Visible passing fun _ => False := by
    simp [Program.tree, passing, Body.Visible, Regions.Visible, Blocks.Visible, Regions.single, Body.single,
      Program.header, Program.operands, Program.operation]
  have inScope : counting.Scoped (passing.IsVisibleAt ⟨2⟩) 0 [] := by
    simp [counting, Plan.Scoped, Plan.Call.Scoped, Plan.Operand.Known, Plan.Call.count, Plan.Call.asks, Plan.asks,
      isVisibleAt_passing]
  rcases run : (Change.build ⟨2⟩ (counting.build [])).run passing with ⟨outcome, after⟩
  obtain ⟨kept, succeeds⟩ := Program.visible_build (show passing.WellFormed by decide +kernel) visible (by decide)
    inScope run
  obtain ⟨values, rfl⟩ := succeeds fun value seen => by
    rw [isVisibleAt_passing.mp seen]
    rfl
  exact ⟨values, after, rfl, kept⟩

end TensorIR
