import Mathlib.Data.Prod.Lex
import TensorIR.Proofs.Reading.Binding

/-!
# Names in nested text

Reading follows the nesting of the text, and so do the names: what is visible to the reader is what has been
declared. So every operand of a program that has been read is what its name stands for at the place where it
is written, and none of them is used where it is not visible. Each token takes at least one character, so the place of
a token is behind that of the token before it, and tells which token stands there.

## Main definitions

* `Reader.Lastingly` — what has been read, in every program that goes on from the one that has been built
* `Reader.HasRead`, `Reader.HasReadBody`, `BindsRegion` — what has been read is bound to its names

## Main results

* `Scan.nodup_location` — tokens of a text stand at different places
* `binds_operation`, `binds_region`, `binds_blocks`, `binds_body` — what is nested
* `Program.bound_of_read` — the program that a text stands for
-/

namespace TensorIR

/-! ### Where tokens stand -/

/-- The place as a pair of numbers, which are compared line by line. -/
def Location.place (location : Location) : ℕ ×ₗ ℕ :=
  toLex (location.line, location.column)

theorem Location.place_lt_of_column {line column further : Nat} (behind : column < further) :
    place ⟨line, column⟩ < place ⟨line, further⟩ :=
  Prod.Lex.toLex_lt_toLex.mpr (.inr ⟨rfl, behind⟩)

theorem Location.place_lt_of_line (line column : Nat) : place ⟨line, column⟩ < place ⟨line + 1, 0⟩ :=
  Prod.Lex.toLex_lt_toLex.mpr (.inl line.lt_succ_self)

namespace Scan

/-- What has been read begins at the given place or behind it, and goes on from place to place. -/
def Rises (location : Location) (found : List Token) : Prop :=
  (∀ token ∈ found, location.place ≤ token.location.place) ∧
    found.Pairwise fun first second => first.location.place < second.location.place

theorem Rises.of_lt {location further : Location} {found : List Token} (rises : Rises further found)
    (behind : location.place < further.place) : Rises location found :=
  ⟨fun token member => behind.le.trans (rises.1 token member), rises.2⟩

theorem rises_tokensFrom {location : Location} {text : List Char} {found : List Token}
    (scans : tokensFrom location text = .ok found) : Rises location found := by
  fun_induction tokensFrom location text generalizing found with
  | case1 location =>
    cases scans
    exact ⟨fun _ member => (List.mem_singleton.mp member) ▸ le_rfl, List.pairwise_singleton _ _⟩
  | case2 => cases scans
  | case3 _ _ _ _ ih => exact (ih scans).of_lt (Location.place_lt_of_column (by omega))
  | case4 _ _ _ _ ih => exact (ih scans).of_lt (Location.place_lt_of_line _ _)
  | case5 _ _ _ _ _ ih => exact (ih scans).of_lt (Location.place_lt_of_column (by omega))
  | case6 location _ _ _ extra _ token =>
    rename_i ih
    rcases later : tokensFrom ⟨location.line, location.column + 1 + extra⟩ _ with _ | others
    · rw [later] at scans
      cases scans
    rw [later] at scans
    cases scans
    have behind : location.place < Location.place ⟨location.line, location.column + 1 + extra⟩ :=
      Location.place_lt_of_column (by omega)
    obtain ⟨atLeast, pairwise⟩ := ih later
    refine ⟨?_, List.pairwise_cons.mpr ⟨fun token member => behind.trans_le (atLeast token member), pairwise⟩⟩
    exact List.forall_mem_cons.mpr ⟨le_rfl, fun token member => behind.le.trans (atLeast token member)⟩

/-- Tokens of a text stand at different places. -/
theorem nodup_location {source : String} {found : List Token} (scans : tokens source = .ok found) :
    (found.map Token.location).Nodup := by
  rw [List.Nodup, List.pairwise_map]
  exact (rises_tokensFrom scans).2.imp fun before same => before.ne (congrArg Location.place same)

end Scan

open Reading

variable {reader left start : Reader}

/-! ### Nested operations -/

/-- What has been read holds in every text that ends with what there was to read, and in every program that goes on
from the one that has been built. -/
def Reader.Lastingly (start left : Reader) (holds : Program → List Token → Prop) : Prop :=
  ∀ program text, left.program.Continues program → start.rest <:+ text → holds program text

theorem Reader.lasts_lastingly {holds : Program → List Token → Prop} : Lasts (start.Lastingly · holds) :=
  fun _ _ lastingly advances program text continues => lastingly program text (advances.continues.trans continues)

/-- What is named inside of a region does not matter outside. -/
theorem Reader.Advances.lastingly (holds : Naming → Program → List Token → Prop) (advances : start.Advances reader)
    (lastingly : reader.Lastingly left (holds reader.names)) : start.Lastingly left (holds start.names) := by
  rw [← advances.names]
  exact fun program text continues suffix => lastingly program text continues (advances.rest.trans suffix)

/-- The reader is further on in the same region, its program has grown, and values may have been named. -/
structure Reader.Within (start left : Reader) : Prop where
  outer : left.scopes.drop 1 = start.scopes.drop 1
  rest : left.rest <:+ start.rest
  continues : start.program.Continues left.program

namespace Reader.Within

theorem trans (first : start.Within reader) (second : reader.Within left) : start.Within left :=
  ⟨second.outer.trans first.outer, second.rest.trans first.rest, first.continues.trans second.continues⟩

end Reader.Within

theorem Reader.Advances.within (advances : reader.Advances left) : reader.Within left :=
  ⟨congrArg _ advances.scopes, advances.rest, advances.continues⟩

/-- An operation has been read with its regions, and its operands and those inside are bound to their names. -/
def Reader.HasRead (start : Reader) (read : OpId × Regions) (left : Reader) : Prop :=
  start.Adds read.1 left ∧ start.Lastingly left fun program text => read.2.Bound program text start.names

/-- The operations of a block have been read and bound, and their results are named. -/
def Reader.HasReadBody (start : Reader) (read : Body) (left : Reader) : Prop :=
  start.Within left ∧ start.Lastingly left fun program text =>
    read.Bound program text start.names ∧ left.names = program.declare start.names (read.results program)

/-- What is inside of the blocks is bound to its names. -/
abbrev Reader.BindsBlocks (start : Reader) (read : Blocks) (left : Reader) : Prop :=
  start.Lastingly left fun program text => read.Bound program text start.names

/-- The step reads a region whose first block has the given arguments unless it names its own, and what is inside
of it is bound to its names. -/
def BindsRegion (arguments : List ValueId) (region : Reading Blocks) : Prop :=
  ∀ reader read left, reader.Knows arguments → region.run reader = .ok (read, left) →
    reader.Advances left ∧ reader.BindsBlocks read left

/-- A region that is read inside an operation. -/
theorem BindsRegion.leads {holds : Reader → Prop} {region : Reading Blocks} {arguments : List ValueId}
    (binds : BindsRegion arguments region) (lasts : Lasts holds) (inside : ∀ reader, holds reader → start.Advances reader) :
    Leads (fun reader => holds reader ∧ reader.Knows arguments) region fun read left =>
      holds left ∧ start.BindsBlocks read left := by
  rintro reader read left ⟨holds, knows⟩ run
  obtain ⟨advances, bound⟩ := binds reader read left knows run
  exact ⟨lasts reader left holds advances,
    (inside reader holds).lastingly (fun names program text => read.Bound program text names) bound⟩

theorem BindsRegion.first {region : Reading Blocks} {op : OpId} (binds : BindsRegion [] region) :
    Leads (start.Adds op) region fun read left => start.Adds op left ∧ start.BindsBlocks read left :=
  (binds.leads lasts_adds fun _ => Reader.Adds.toAdvances).strengthen fun _ adds => ⟨adds, List.forall_mem_nil _⟩

theorem BindsRegion.second {region : Reading Blocks} {op : OpId} {first : Blocks} (binds : BindsRegion [] region) :
    Leads (fun reader => start.Adds op reader ∧ start.BindsBlocks first reader) region fun read left =>
      (start.Adds op left ∧ start.BindsBlocks first left) ∧ start.BindsBlocks read left :=
  (binds.leads (lasts_adds.and Reader.lasts_lastingly) fun _ holds => holds.1.toAdvances).strengthen
    fun _ holds => ⟨holds, List.forall_mem_nil _⟩

theorem hasRead_oneRegion {op : OpId} {read : Blocks} (holds : start.Adds op left ∧ start.BindsBlocks read left) :
    start.HasRead (op, .cons read .nil) left :=
  ⟨holds.1, fun program text continues isText => ⟨holds.2 program text continues isText, trivial⟩⟩

theorem hasRead_twoRegions {op : OpId} {first second : Blocks}
    (holds : (start.Adds op left ∧ start.BindsBlocks first left) ∧ start.BindsBlocks second left) :
    start.HasRead (op, .cons first (.cons second .nil)) left :=
  ⟨holds.1.1, fun program text continues isText => ⟨holds.1.2 program text continues isText,
    holds.2 program text continues isText, trivial⟩⟩

theorem BindsRegion.alone {region : Reading Blocks} {op : OpId} {arguments : List ValueId}
    (binds : BindsRegion arguments region) : Leads (fun reader => start.Adds op reader ∧ reader.Knows arguments)
      (do return (op, .cons (← region) .nil)) start.HasRead :=
  (binds.leads lasts_adds fun _ => Reader.Adds.toAdvances).bind fun _ => .pure fun _ => hasRead_oneRegion

/-- One operation and what follows it in its block. -/
theorem Reader.HasRead.cons {op : OpId} {regions : Regions} {rest : Body} {middle named : Reader} {done : PUnit}
    (read : start.HasRead (op, regions) middle)
    (defines : (forIn (middle.program.results op) PUnit.unit fun value _ => do
      define value
      return ForInStep.yield PUnit.unit : Reading PUnit).run middle = .ok (done, named))
    (behind : named.HasReadBody rest left) : start.HasReadBody (.cons op regions rest) left := by
  obtain ⟨adds, inside⟩ := read
  obtain ⟨within, later⟩ := behind
  obtain ⟨isNamed, outer, names⟩ := names_defineEach defines
  have grows : middle.program.Continues left.program := by
    rw [isNamed] at within
    exact within.continues
  have suffix : named.rest <:+ start.rest := by
    rw [isNamed]
    exact adds.rest
  refine ⟨⟨?_, within.rest.trans suffix, adds.continues.trans grows⟩, fun program text continues isText => ?_⟩
  · rw [within.outer, outer, adds.scopes]
  · have goesOn := grows.trans continues
    have same : program.results op = middle.program.results op :=
      congrArg Operation.results (goesOn.operations op adds.known).2
    have declares : named.names = program.declare start.names (program.results op) := by
      rw [same, goesOn.declare adds.results, names, adds.toAdvances.names]
    obtain ⟨bound, isLeft⟩ := later program text continues (suffix.trans isText)
    rw [declares] at bound isLeft
    refine ⟨⟨goesOn.bindsAt adds.known isText adds.binds, inside program text goesOn isText, bound⟩, ?_⟩
    rw [isLeft, Body.results, Program.declare_append]

/-- The end of a region. What has been named inside of it is forgotten. -/
theorem Reader.MovesTo.closes {first middle : Reader} {inside read : Blocks} (moved : reader.MovesTo first)
    (within : Reader.Within { first with scopes := [] :: first.scopes } middle)
    (bound : Reader.BindsBlocks { first with scopes := [] :: first.scopes } inside middle)
    (run : (do let _ ← expect .rightBrace; closeScope; return inside : Reading Blocks).run middle = .ok (read, left)) :
    reader.Advances left ∧ reader.BindsBlocks read left := by
  obtain ⟨_, last, closes, run⟩ := run_bind_eq_ok run
  have ends := (quiet_expect _).movesTo closes
  obtain ⟨_, _, ⟨⟩, ⟨⟩⟩ := run_bind_eq_ok run
  have inner : Reader.BindsBlocks first inside { last with scopes := last.scopes.drop 1 } := by
    intro program text continues isText
    rw [← names_openScope first]
    exact bound program text (ends.program ▸ continues) isText
  refine ⟨⟨?_, (ends.rest.trans within.rest).trans moved.rest, ?_⟩,
    moved.advances.lastingly (fun names program text => inside.Bound program text names) inner⟩
  · exact (congrArg (List.drop 1) ends.scopes).trans (within.outer.trans moved.scopes)
  · exact moved.program ▸ ends.program ▸ within.continues

/-- A block whose arguments are named in front of its operations, and the blocks behind it. -/
theorem Reader.Within.consBlock {label : Option String} {arguments : List ValueId} {block : BlockId} {body : Body}
    {rest : Blocks} {added named middle : Reader} {done : PUnit} (knows : reader.Knows arguments)
    (adds : (addBlock label arguments).run reader = .ok (block, added))
    (defines : (forIn arguments PUnit.unit fun value _ => do
      define value
      return ForInStep.yield PUnit.unit : Reading PUnit).run added = .ok (done, named))
    (inside : named.HasReadBody body middle) (behind : middle.Within left) (bound : middle.BindsBlocks rest left) :
    reader.Within left ∧ reader.BindsBlocks (.cons block body rest) left := by
  have grows := advances_addBlock label arguments reader reader block added (.refl _) adds
  obtain ⟨isNamed, outer, names⟩ := names_defineEach defines
  have isHeader : block.index < added.program.headers.size ∧ (added.program.header block).arguments = arguments := by
    rw [run_addBlock] at adds
    cases adds
    refine ⟨by simp [Program.withArguments, Program.addBlock], ?_⟩
    rw [Program.header_withArguments, if_pos rfl]
  have within : reader.Within named := by
    refine ⟨outer.trans (congrArg _ grows.scopes), ?_, ?_⟩ <;> rw [isNamed]
    · exact grows.rest
    · exact grows.continues
  have goesOn : added.program.Continues left.program := by
    have step := inside.1.continues.trans behind.continues
    rwa [isNamed] at step
  refine ⟨(within.trans inside.1).trans behind, fun program text continues isText => ?_⟩
  have later := goesOn.trans continues
  have isArguments : (program.header block).arguments = arguments := by
    rw [(later.headers block isHeader.1).2, isHeader.2]
  have declares : named.names = program.declare reader.names (program.header block).arguments := by
    rw [isArguments, later.declare (knows.mono grows.continues), names, grows.names]
  obtain ⟨isBound, isMiddle⟩ := inside.2 program text (behind.continues.trans continues) (within.rest.trans isText)
  have isRest := bound program text continues ((inside.1.rest.trans within.rest).trans isText)
  rw [declares] at isBound isMiddle
  rw [isMiddle] at isRest
  exact ⟨isBound, isRest⟩

mutual

/-- An operation is bound to its names, and so is what is inside its regions. -/
theorem binds_operation : (fuel : Nat) → ∀ start : Reader, Leads start.MovesTo (operation fuel) start.HasRead
  | 0, _ => .throw _
  | fuel + 1, start => by
    unfold operation
    refine (Along.get start).bind fun _ => ?_
    split
    case h_2 => exact leads_failHere _
    -- One case for each form of text. The regions inside are read with less fuel.
    split
    case h_1 => exact leads_failAt _ _
    case h_2 =>
      refine hears_operationName.bind fun location => .fromHears <|
        (adds_withoutOperands _ _ rfl rfl).bind fun op => ?_
      exact (binds_region fuel []).first.bind fun body => .pure fun _ => hasRead_oneRegion
    case h_3 => exact (bindsHead_functionHead start).bind fun head => (binds_region fuel _).alone
    case h_4 => exact (bindsHead_forHead start).bind fun head => (binds_region fuel _).alone
    case h_5 =>
      refine (binds_choiceHead start).bind fun op => (binds_region fuel []).first.bind fun first => ?_
      have lasts : Lasts fun reader => start.Adds op reader ∧ start.BindsBlocks first reader :=
        lasts_adds.and Reader.lasts_lastingly
      refine ((along_checkKeyword _).frame lasts).bind fun _ => .ite ?_ ?_
      · refine (quiet_advance.advances.frame lasts).bind fun _ => (binds_region fuel []).second.bind fun second => ?_
        exact .pure fun _ => hasRead_twoRegions
      · refine ((advances_addBlock none []).frame lasts).bind fun block => .pure fun _ holds => ?_
        exact hasRead_twoRegions ⟨holds, fun _ _ _ _ => ⟨trivial, trivial⟩⟩
    case h_6 =>
      refine (binds_branchHead start).bind fun op => (binds_region fuel []).first.bind fun first => ?_
      refine ((quiet_keyword _).advances.frame (lasts_adds.and Reader.lasts_lastingly)).bind fun _ => ?_
      exact (binds_region fuel []).second.bind fun second => .pure fun _ => hasRead_twoRegions
    case h_7 =>
      refine (binds_loopHead start).bind fun op => (binds_region fuel []).first.bind fun body => ?_
      refine ((advances_loopTypes op).frame (lasts_adds.and Reader.lasts_lastingly)).bind fun _ => ?_
      exact .pure fun _ => hasRead_oneRegion
    case h_8 =>
      exact (binds_classHead start).bind fun op => (binds_region fuel []).first.bind fun body =>
        .pure fun _ => hasRead_oneRegion
    case h_9 =>
      exact (binds_globalSlotHead start).bind fun op => (binds_region fuel []).first.bind fun body =>
        .pure fun _ => hasRead_oneRegion
    case h_10 =>
      refine hears_heading fun names location => .fromHears <| (adds_withoutOperands _ _ rfl rfl).bind fun op =>
        (binds_region fuel []).first.bind fun body => ?_
      have lasts : Lasts fun reader => start.Adds op reader ∧ start.BindsBlocks body reader :=
        lasts_adds.and Reader.lasts_lastingly
      refine ((quiet_expect _).advances.frame lasts).bind fun _ => (quiet_type.advances.frame lasts).bind fun type => ?_
      exact ((advances_setResultTypes op _).frame lasts).bind fun _ => .pure fun _ => hasRead_oneRegion
    case h_11 kind _ _ isLoop _ _ _ _ _ _ _ =>
      have other : kind ≠ .scf .forLoop := isLoop
      exact (binds_flatOperation other start).bind fun op => .pure fun _ adds => ⟨adds, fun _ _ _ _ => trivial⟩

/-- What is inside a region is bound to its names, and it is not seen behind the region. -/
theorem binds_region : (fuel : Nat) → (arguments : List ValueId) → BindsRegion arguments (region fuel arguments)
  | 0, _, _, _, _, _, run => by cases run
  | fuel + 1, arguments, reader, read, left, knows, run => by
    unfold region at run
    obtain ⟨_, first, opens, run⟩ := run_bind_eq_ok run
    have moved := (quiet_expect _).movesTo opens
    obtain ⟨_, _, ⟨⟩, run⟩ := run_bind_eq_ok run
    obtain ⟨empty, inner, checks, next⟩ := run_bind_eq_ok run
    obtain ⟨rfl, -⟩ := faces_of_check checks
    have known : Reader.Knows { first with scopes := [] :: first.scopes } arguments := by
      rw [Reader.Knows, moved.program]
      exact knows
    split at next
    case isTrue =>
      obtain ⟨block, middle, adds, run⟩ := run_bind_eq_ok next
      have grows := advances_addBlock none arguments _ _ block middle (.refl _) adds
      have empty : Reader.BindsBlocks { first with scopes := [] :: first.scopes } (.cons block .nil .nil) middle :=
        fun _ _ _ _ => ⟨trivial, trivial⟩
      exact moved.closes grows.within empty run
    case isFalse =>
      obtain ⟨inside, middle, reads, run⟩ := run_bind_eq_ok next
      obtain ⟨within, bound⟩ := binds_blocks fuel arguments _ inside middle known reads
      exact moved.closes within bound run

/-- What is inside of blocks is bound to its names. -/
theorem binds_blocks : (fuel : Nat) → (arguments : List ValueId) → ∀ reader read left, reader.Knows arguments →
    (blocks fuel arguments).run reader = .ok (read, left) → reader.Within left ∧ reader.BindsBlocks read left
  | 0, _, _, _, _, _, run => by cases run
  | fuel + 1, arguments, reader, read, left, knows, run => by
    let known (arguments : List ValueId) (now : Reader) : Prop := reader.Advances now ∧ now.Knows arguments
    have lasts (arguments : List ValueId) : Lasts (known arguments) := (lasts_advances reader).and (lasts_knows _)
    suffices binds : Leads (known arguments) (blocks (fuel + 1) arguments)
        fun read left => reader.Within left ∧ reader.BindsBlocks read left from
      binds reader read left ⟨.refl _, knows⟩ run
    unfold blocks
    refine ((along_check _).frame (lasts arguments)).bind fun _ => .ite (.pure ?_) ?_
    · exact fun left holds => ⟨holds.1.within, fun _ _ _ _ => trivial⟩
    refine (along_atEnd.frame (lasts arguments)).bind fun _ => ?_
    extract_lets begins labelled
    have begins (label : Option String) (arguments : List ValueId) : Leads (known arguments) (begins (label, arguments))
        fun read left => reader.Within left ∧ reader.BindsBlocks read left := by
      rintro now read left ⟨advances, knows⟩ run
      obtain ⟨block, added, adds, run⟩ := run_bind_eq_ok run
      obtain ⟨_, named, defines, run⟩ := run_bind_eq_ok run
      obtain ⟨inside, middle, reads, run⟩ := run_bind_eq_ok run
      obtain ⟨rest, _, readsRest, ⟨⟩⟩ := run_bind_eq_ok run
      obtain ⟨behind, bound⟩ := binds_blocks fuel [] middle rest _ (List.forall_mem_nil _) readsRest
      obtain ⟨within, holds⟩ := Reader.Within.consBlock knows adds defines (binds_body fuel _ _ _ reads) behind bound
      exact ⟨advances.within.trans within,
        advances.lastingly (fun names program text => Blocks.Bound program text names _) holds⟩
    have labelled : Leads (known arguments) (labelled ())
        fun read left => reader.Within left ∧ reader.BindsBlocks read left := by
      refine ((along_check _).frame (lasts arguments)).bind fun _ => .ite ?_ (.given (begins none arguments))
      refine (quiet_advance.advances.frame (lasts arguments)).bind fun label =>
        ((along_check _).frame (lasts arguments)).bind fun _ => ?_
      extract_lets closes
      have closes (arguments : List ValueId) : Leads (known arguments) (closes arguments)
          fun read left => reader.Within left ∧ reader.BindsBlocks read left :=
        ((quiet_expect _).advances.frame (lasts arguments)).bind fun _ => .given (begins (some label.lexeme) arguments)
      refine .ite ?_ (.given (closes arguments))
      exact Leads.bind ((grows_blockArguments reader).strengthen fun _ => And.left) closes
    exact .ite ((leads_failHere _).bind fun _ => labelled) labelled

/-- The operations of a block are bound to their names, and their results are named behind them. -/
theorem binds_body : (fuel : Nat) → ∀ reader read left, (body fuel).run reader = .ok (read, left) →
    reader.HasReadBody read left
  | 0, _, _, _, run => by cases run
  | fuel + 1, reader, read, left, run => by
    suffices binds : Leads reader.MovesTo (body (fuel + 1)) reader.HasReadBody from
      binds reader read left (.refl reader) run
    unfold body
    refine (along_check _ reader).bind fun _ => (along_check _ reader).bind fun _ => .ite (.pure ?_) ?_
    · exact fun now moved => ⟨moved.advances.within, fun _ _ _ _ => ⟨trivial, moved.advances.names⟩⟩
    refine (along_atEnd reader).bind fun _ => ?_
    extract_lets goesOn
    have goesOn : Leads reader.MovesTo (goesOn ()) reader.HasReadBody := by
      rintro now read left moved run
      obtain ⟨⟨op, regions⟩, middle, reads, run⟩ := run_bind_eq_ok run
      obtain ⟨_, _, ⟨⟩, run⟩ := run_bind_eq_ok run
      obtain ⟨_, named, defines, run⟩ := run_bind_eq_ok run
      obtain ⟨rest, _, readsRest, ⟨⟩⟩ := run_bind_eq_ok run
      exact (binds_operation fuel reader now _ middle moved reads).cons defines (binds_body fuel named rest _ readsRest)
    exact .ite ((leads_failHere _).bind fun _ => goesOn) goesOn

end

theorem lasts_hasReadBody {read : Body} : Lasts (start.HasReadBody read) := by
  rintro reader left ⟨within, lastingly⟩ advances
  refine ⟨within.trans advances.within, fun program text continues isText => ?_⟩
  rw [advances.names]
  exact lastingly program text (advances.continues.trans continues) isText

theorem Reader.MovesTo.hasReadBody (moved : start.MovesTo left) : start.HasReadBody .nil left :=
  ⟨moved.advances.within, fun _ _ _ _ => ⟨trivial, moved.advances.names⟩⟩

theorem binds_topLevel (fuel : Nat) : ∀ start : Reader, Leads start.MovesTo (topLevel fuel) start.HasReadBody := by
  induction fuel with
  | zero => exact fun _ => .throw _
  | succ fuel ih =>
    refine fun start => (along_atEnd start).bind fun _ => .ite (.pure fun _ => Reader.MovesTo.hasReadBody) ?_
    rintro now read left moved run
    obtain ⟨⟨op, regions⟩, middle, reads, run⟩ := run_bind_eq_ok run
    obtain ⟨_, _, ⟨⟩, run⟩ := run_bind_eq_ok run
    obtain ⟨_, named, defines, run⟩ := run_bind_eq_ok run
    obtain ⟨rest, _, readsRest, ⟨⟩⟩ := run_bind_eq_ok run
    exact (binds_operation fuel start now _ middle moved reads).cons defines (ih named named rest _ (.refl _) readsRest)

/-! ### Whole programs -/

theorem Program.continues_withTree (program : Program) (root : OpId) (regions : Regions) :
    program.Continues { program with root, regions } :=
  ⟨fun _ below => ⟨below, rfl⟩, fun _ below => ⟨below, rfl⟩, fun _ below => ⟨below, rfl⟩⟩

/-- Operations that stand alone are put into a module. -/
theorem binds_wrap (body : Body) : Leads (start.HasReadBody body) (do
    let root ← addOperation { kind := .module } [] none
    let block ← addBlock none []
    return { (← get).program with root, regions := .single block body })
    fun program _ => program.tree.Bound program start.rest start.names := by
  refine (Leads.frame lasts_hasReadBody (grows_addOperation _ _ _)).bind fun root => ?_
  rintro reader program left ⟨read, has⟩ run
  obtain ⟨block, _, adds, run⟩ := run_bind_eq_ok run
  obtain ⟨_, _, ⟨⟩, ⟨⟩⟩ := run_bind_eq_ok run
  have advances := advances_addBlock none [] reader reader block left (.refl _) adds
  have continues := left.program.continues_withTree root (.single block body)
  obtain ⟨bound, -⟩ := (lasts_hasReadBody reader left read advances).2 _ start.rest continues List.suffix_rfl
  have isHeader : (left.program.header block).arguments = [] := by
    rw [run_addBlock] at adds
    cases adds
    rw [Program.header_withArguments, if_pos rfl]
  have isRoot : left.program.operands root = [] := by
    obtain ⟨_, isOperation⟩ := has.isOperation
    rw [Program.operands, (advances.continues.operations root has.known).2, isOperation]
  refine ⟨.inl isRoot, ⟨⟨?_, trivial⟩, trivial⟩, trivial⟩
  have declares : Program.declare { left.program with root, regions := .single block body } start.names
      (left.program.header block).arguments = start.names := by
    rw [isHeader]
    rfl
  exact declares.symm ▸ bound

theorem binds_program : Leads start.MovesTo Reading.program
    fun program _ => program.tree.Bound program start.rest start.names := by
  refine (Along.get start).bind fun _ => ?_
  extract_lets fuel wrap
  refine (along_atEnd start).bind fun _ => .ite ((binds_wrap .nil).strengthen fun _ => Reader.MovesTo.hasReadBody) ?_
  refine (binds_operation fuel start).bind fun found => ?_
  obtain ⟨op, regions⟩ := found
  have still {α : Type} {step : Reading α} (along : ∀ {relation}, Along relation step) :
      Leads (start.HasRead (op, regions)) step fun _ => start.HasRead (op, regions) :=
    (along : Along (fun _ => start.HasRead (op, regions)) step) start
  refine (still (along_ask _)).bind fun kind => ?_
  extract_lets alone
  split
  case isTrue =>
    have alone : Leads (start.HasRead (op, regions)) (alone ())
        fun program _ => program.tree.Bound program start.rest start.names := by
      rintro reader _ _ ⟨adds, inside⟩ run
      cases run
      have continues := reader.program.continues_withTree op regions
      exact ⟨continues.bindsAt adds.known List.suffix_rfl adds.binds, inside _ start.rest continues List.suffix_rfl, trivial⟩
    exact (still along_atEnd).bind fun _ => .ite alone ((leads_failHere _).bind fun _ => alone)
  case isFalse =>
    rintro middle program left read run
    obtain ⟨_, _, ⟨⟩, run⟩ := run_bind_eq_ok run
    obtain ⟨_, named, defines, run⟩ := run_bind_eq_ok run
    obtain ⟨rest, last, readsRest, run⟩ := run_bind_eq_ok run
    exact binds_wrap _ _ _ _ (read.cons defines (binds_topLevel fuel named named rest last (.refl _) readsRest)) run

/-- In a program that has been read, every operand is what its name in the text stands for: the value that was
given this name last, as seen from there. So all operands are visible where they are used, and the search for
violations reports nothing but misplaced terminators and broken rules. -/
theorem Program.bound_of_read {source : String} {program : Program} (run : Program.read source = .ok program) :
    ∃ text, Scan.tokens source = .ok text ∧ (text.map Token.location).Nodup ∧
      program.tree.Bound program text (fun _ => none) ∧ program.tree.Visible program (fun _ => False) ∧
        ∀ symbols, ∀ report ∈ (program.tree.diagnostics program symbols []).1, ∃ visit ∈ program.visits,
          report ∈ program.misplacedTerminator visit.op visit.rest ∨ report ∈ program.brokenRule symbols visit.op := by
  unfold Program.read at run
  split at run
  case h_1 => cases run
  case h_2 text scans =>
    cases ran : Reading.program.run ⟨source, text.head?.getD default, text, [[]], {}⟩ with
    | error =>
      rw [ran] at run
      cases run
    | ok found =>
      rw [ran] at run
      cases run
      have bound := binds_program _ found.1 found.2 (Reader.MovesTo.refl _) ran
      have visible (seen : ValueId → Prop) : found.1.tree.Visible found.1 seen :=
        Body.Bound.visible (fun name value stands => by cases stands) bound
      exact ⟨text, scans, Scan.nodup_location scans, bound, visible _, fun symbols report =>
        found.1.tree.of_mem_diagnostics none none 0 (visible _)⟩

/-- The counter of a loop hides the argument of the function. -/
def hidingCounter : String :=
  "func.func @f(%x: index) \x7b
    scf.for %x = %x to %x step %x \x7b
      %y = arith.addi %x, %x : index, index -> index
    \x7d
    return
  \x7d"

theorem bound_hidingCounter : ∃ program text, Program.read hidingCounter = .ok program ∧
    Scan.tokens hidingCounter = .ok text ∧ program.tree.Bound program text (fun _ => none) ∧
      program.operands ⟨1⟩ = [⟨0⟩, ⟨0⟩, ⟨0⟩] ∧ program.operands ⟨2⟩ = [⟨1⟩, ⟨1⟩] := by
  have found : (Program.read hidingCounter).toOption.map (fun program => (program.operands ⟨1⟩, program.operands ⟨2⟩)) =
      some ([⟨0⟩, ⟨0⟩, ⟨0⟩], [⟨1⟩, ⟨1⟩]) := by decide +kernel
  cases read : Program.read hidingCounter with
  | error =>
    rw [read] at found
    cases found
  | ok program =>
    rw [read] at found
    obtain ⟨text, scans, -, bound, -⟩ := Program.bound_of_read read
    obtain ⟨loop, addition⟩ := Prod.mk.inj (Option.some.inj found)
    exact ⟨program, text, rfl, scans, bound, loop, addition⟩

end TensorIR
