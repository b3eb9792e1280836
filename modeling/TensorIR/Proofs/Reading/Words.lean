import TensorIR.Proofs.Reading.Quiet
import TensorIR.Proofs.Visibility

/-!
# Names of values and how they are read

In a text values are written by name. A name stands for the value that was last given it, as seen from
the place where it is written: an operation names its results behind itself, a block names its arguments
in front of its operations, and what is named inside a region is forgotten behind it. The first part of
this module says what it means that a program is bound to its text in this way, without a reader.

Behind the word of an operation stand the names of its operands, and between them signs, words and types.
The second part follows a reader from the word on: the names that it has passed stand for the values that
it has given. Steps that pass no name outside of angle brackets leave this as it is; what stands between
angle brackets is a type, which is read up to the bracket that closes it.

## Main definitions

* `Token.names` — the names of values in a text
* `Naming`, `Program.declare` — what names stand for, and how values are named
* `Program.BindsAt` — the operands of an operation are what the names behind its word stand for
* `Body.Bound`, `Blocks.Bound`, `Regions.Bound` — all operands in a part of the tree are
* `Nameless` — a step that passes no names of values
* `Reader.Hears` — the names between the word of an operation and the reader stand for given values

## Main results

* `Body.Bound.visible` — what a name stands for is visible where it is written
* `Program.Continues` — tables that have only grown
* `nameless_types`, `nameless_expect` — what may stand between operands
* `hears_operationName`, `hears_operand`, `hears_operands` — from the word on
-/

namespace TensorIR

/-! ### Names in a text -/

/-- The names of values in a text that begins inside so many angle brackets. What stands between angle
brackets is part of a type, or element data. -/
def Token.namesWithin : Nat → List Token → List String
  | _, [] => []
  | depth, token :: rest =>
    match token.kind with
    | .less => namesWithin (depth + 1) rest
    | .greater => namesWithin (depth - 1) rest
    | .percentIdentifier =>
      if depth = 0 then token.lexeme :: namesWithin depth rest else namesWithin depth rest
    | _ => namesWithin depth rest

/-- The names of values in a text, in their order. -/
def Token.names (text : List Token) : List String :=
  namesWithin 0 text

/-- The second of each two in a list. -/
def seconds {α : Type} : List α → List α
  | _ :: second :: rest => second :: seconds rest
  | _ => []

/-- Which of the names behind the word of an operation are its operands. All are, but in a counted loop the
counter stands in front, and each value that is carried is named by an argument. -/
def OpKind.operandWords {α : Type} (kind : OpKind) (words : List α) : List α :=
  match kind with
  | .scf .forLoop => (words.drop 1).take 3 ++ seconds (words.drop 4)
  | _ => words

/-! ### What names stand for -/

/-- The values that names stand for at one place of a text. -/
abbrev Naming := String → Option ValueId

/-- What names stand for behind the places where values are named. The last one with a name hides the
others. -/
def Program.declare (program : Program) (names : Naming) (values : List ValueId) : Naming :=
  values.foldl (fun names value name =>
    if (program.value value).name = some name then some value else names name) names

/-- The operands of the operation are, one after the other, what the names behind its word stand for. An
operation without operands need not have a word. -/
def Program.BindsAt (program : Program) (text : List Token) (names : Naming) (op : OpId) : Prop :=
  program.operands op = [] ∨ ∃ before word after, text = before ++ word :: after ∧
    (program.operation op).location = some word.location ∧
      (program.operands op).map some <+: (program.kind op).operandWords ((Token.names after).map names)

mutual

/-- The operands in a block and inside it are bound to their names. The results of an operation are named
behind it. -/
def Body.Bound (program : Program) (text : List Token) (names : Naming) : Body → Prop
  | .nil => True
  | .cons op regions rest =>
    program.BindsAt text names op ∧ Regions.Bound program text names regions ∧
      Body.Bound program text (program.declare names (program.results op)) rest

/-- The operands in blocks are bound to their names. What a block names can be used in the blocks behind it. -/
def Blocks.Bound (program : Program) (text : List Token) (names : Naming) : Blocks → Prop
  | .nil => True
  | .cons block body rest =>
    Body.Bound program text (program.declare names (program.header block).arguments) body ∧
      Blocks.Bound program text
        (program.declare (program.declare names (program.header block).arguments) (body.results program)) rest

/-- The operands inside regions are bound to their names. No region sees what another one names. -/
def Regions.Bound (program : Program) (text : List Token) (names : Naming) : Regions → Prop
  | .nil => True
  | .cons blocks rest => Blocks.Bound program text names blocks ∧ Regions.Bound program text names rest

end

section Declare

variable {program now : Program} {names : Naming} {text : List Token}

theorem Program.declare_append (first second : List ValueId) :
    program.declare names (first ++ second) = program.declare (program.declare names first) second :=
  List.foldl_append

theorem Program.declare_congr {values : List ValueId}
    (same : ∀ value ∈ values, (now.value value).name = (program.value value).name) :
    now.declare names values = program.declare names values := by
  induction values generalizing names with
  | nil => rfl
  | cons value values ih =>
    rw [List.forall_mem_cons] at same
    simp only [Program.declare, List.foldl_cons, same.1]
    exact ih same.2

/-- What a name stands for has been named here or before. -/
theorem Program.of_declare_eq_some {values : List ValueId} {name : String} {value : ValueId}
    (stands : program.declare names values name = some value) : value ∈ values ∨ names name = some value := by
  induction values generalizing names with
  | nil => exact .inr stands
  | cons first values ih =>
    rcases ih stands with later | here
    · exact .inl (List.mem_cons_of_mem first later)
    · dsimp only at here
      split at here
      · cases here
        exact .inl List.mem_cons_self
      · exact .inr here

theorem mem_of_mem_seconds {α : Type} {item : α} {list : List α} (member : item ∈ seconds list) :
    item ∈ list := by
  fun_induction seconds list with
  | case1 first second rest ih =>
    rcases List.mem_cons.mp member with rfl | later
    · simp
    · exact List.mem_cons_of_mem _ (List.mem_cons_of_mem _ (ih later))
  | case2 => cases member

theorem OpKind.mem_of_mem_operandWords {α : Type} {kind : OpKind} {item : α} {words : List α}
    (member : item ∈ kind.operandWords words) : item ∈ words := by
  unfold OpKind.operandWords at member
  split at member
  · rcases List.mem_append.mp member with front | back
    · exact List.mem_of_mem_drop (List.mem_of_mem_take front)
    · exact List.mem_of_mem_drop (mem_of_mem_seconds back)
  · exact member

/-- What a name stands for is visible if all that names stand for is. -/
theorem Program.BindsAt.visible {op : OpId} {seen : ValueId → Prop} (binds : program.BindsAt text names op)
    (sees : ∀ name value, names name = some value → seen value) : ∀ operand ∈ program.operands op, seen operand := by
  intro operand isOperand
  rcases binds with none | ⟨_, _, after, -, -, stand⟩
  · rw [none] at isOperand
    cases isOperand
  · have word := OpKind.mem_of_mem_operandWords (stand.subset (List.mem_map_of_mem isOperand))
    obtain ⟨name, -, stands⟩ := List.mem_map.mp word
    exact sees name operand stands

mutual

/-- What is bound to its names is visible where it is used. -/
theorem Body.Bound.visible {names : Naming} {seen : ValueId → Prop}
    (sees : ∀ name value, names name = some value → seen value) :
    {body : Body} → body.Bound program text names → body.Visible program seen
  | .nil, _ => trivial
  | .cons _ _ _, ⟨binds, inside, behind⟩ =>
    ⟨binds.visible sees, inside.visible sees, behind.visible fun name value stands =>
      (Program.of_declare_eq_some stands).imp_right (sees name value)⟩

theorem Blocks.Bound.visible {names : Naming} {seen : ValueId → Prop}
    (sees : ∀ name value, names name = some value → seen value) :
    {blocks : Blocks} → blocks.Bound program text names → blocks.Visible program seen
  | .nil, _ => trivial
  | .cons block _ _, ⟨inside, behind⟩ => by
    have enters name value (stands : program.declare names (program.header block).arguments name = some value) :=
      (Program.of_declare_eq_some stands).imp_right (sees name value)
    exact ⟨inside.visible enters, behind.visible fun name value stands =>
      (Program.of_declare_eq_some stands).imp_right (enters name value)⟩

theorem Regions.Bound.visible {names : Naming} {seen : ValueId → Prop}
    (sees : ∀ name value, names name = some value → seen value) :
    {regions : Regions} → regions.Bound program text names → regions.Visible program seen
  | .nil, _ => trivial
  | .cons _ _, ⟨inside, behind⟩ => ⟨inside.visible sees, behind.visible sees⟩

end

end Declare

/-! ### Tables that grow -/

/-- All that the first program has in its tables is in those of the second one. The results of an operation
that is there already keep their names, but may get other types. -/
structure Program.Continues (start now : Program) : Prop where
  operations : ∀ op : OpId, op.index < start.operations.size →
    op.index < now.operations.size ∧ now.operation op = start.operation op
  headers : ∀ block : BlockId, block.index < start.headers.size →
    block.index < now.headers.size ∧ now.header block = start.header block
  names : ∀ value : ValueId, value.index < start.values.size →
    value.index < now.values.size ∧ (now.value value).name = (start.value value).name

namespace Program.Continues

variable {start middle now : Program}

theorem refl (program : Program) : program.Continues program :=
  ⟨fun _ below => ⟨below, rfl⟩, fun _ below => ⟨below, rfl⟩, fun _ below => ⟨below, rfl⟩⟩

theorem trans (first : start.Continues middle) (second : middle.Continues now) : start.Continues now where
  operations op below := by
    obtain ⟨there, same⟩ := first.operations op below
    obtain ⟨here, alike⟩ := second.operations op there
    exact ⟨here, alike.trans same⟩
  headers block below := by
    obtain ⟨there, same⟩ := first.headers block below
    obtain ⟨here, alike⟩ := second.headers block there
    exact ⟨here, alike.trans same⟩
  names value below := by
    obtain ⟨there, same⟩ := first.names value below
    obtain ⟨here, alike⟩ := second.names value there
    exact ⟨here, alike.trans same⟩

theorem size_operations_le (continues : start.Continues now) : start.operations.size ≤ now.operations.size := by
  by_contra! fewer
  exact lt_irrefl _ (continues.operations ⟨now.operations.size⟩ fewer).1

/-- What is bound stays bound, also in a longer text. -/
theorem bindsAt {op : OpId} {text longer : List Token} {names : Naming} (continues : start.Continues now)
    (below : op.index < start.operations.size) (suffix : text <:+ longer) (binds : start.BindsAt text names op) :
    now.BindsAt longer names op := by
  have same := (continues.operations op below).2
  obtain ⟨front, rfl⟩ := suffix
  unfold Program.BindsAt Program.operands Program.kind at binds ⊢
  rw [same]
  refine binds.imp_right ?_
  rintro ⟨before, word, after, rfl, located, stand⟩
  exact ⟨front ++ before, word, after, (List.append_assoc ..).symm, located, stand⟩

theorem declare (continues : start.Continues now) {names : Naming} {values : List ValueId}
    (below : ∀ value ∈ values, value.index < start.values.size) :
    now.declare names values = start.declare names values :=
  Program.declare_congr fun value member => (continues.names value (below value member)).2

end Program.Continues

open Reading

variable {α β : Type} {reader left : Reader} {token : Token} {rest : List Token} {kind : TokenKind}

/-! ### Single tokens -/

/-- A token of this kind is neither the name of a value nor an angle bracket. -/
def TokenKind.IsPlain (kind : TokenKind) : Prop :=
  kind ≠ .percentIdentifier ∧ kind ≠ .less ∧ kind ≠ .greater

instance TokenKind.decidableIsPlain (kind : TokenKind) : Decidable kind.IsPlain :=
  inferInstanceAs (Decidable (_ ∧ _ ∧ _))

theorem Token.names_cons_of_isPlain (plain : token.kind.IsPlain) : Token.names (token :: rest) = Token.names rest := by
  obtain ⟨notName, notLess, notGreater⟩ := plain
  unfold Token.names
  rw [Token.namesWithin]
  split
  case h_1 less => exact absurd less notLess
  case h_2 greater => exact absurd greater notGreater
  case h_3 name => exact absurd name notName
  case h_4 => rfl

theorem Token.names_cons_of_name (isName : token.kind = .percentIdentifier) :
    Token.names (token :: rest) = token.lexeme :: Token.names rest := by
  unfold Token.names
  rw [Token.namesWithin, isName]
  rfl

/-- The next token is of the given kind. -/
def Reader.Faces (reader : Reader) (kind : TokenKind) : Prop :=
  ∃ token rest, reader.rest = token :: rest ∧ token.kind ≠ .eof ∧ token.kind = kind

/-- The reader when it has read its next token. -/
def Reader.after (reader : Reader) (token : Token) (rest : List Token) : Reader :=
  { reader with previous := token, rest }

theorem faces_of_check {found : Bool} (run : (check kind).run reader = .ok (found, left)) :
    left = reader ∧ (found = true → reader.Faces kind) := by
  cases run
  refine ⟨rfl, fun found => ?_⟩
  cases isRest : reader.rest with
  | nil => simp [isRest] at found
  | cons token rest =>
    simp only [isRest, List.head?_cons, Option.getD_some, Bool.and_eq_true, decide_eq_true_eq] at found
    exact ⟨token, rest, isRest, found⟩

theorem rest_of_advance (faces : reader.Faces kind) (run : advance.run reader = .ok (token, left)) :
    ∃ rest, reader.rest = token :: rest ∧ token.kind = kind ∧ left = reader.after token rest := by
  obtain ⟨next, rest, isRest, notEnd, isKind⟩ := faces
  unfold advance at run
  obtain ⟨_, _, ⟨⟩, run⟩ := run_bind_eq_ok run
  rw [isRest] at run
  dsimp only at run
  rw [if_neg notEnd] at run
  obtain ⟨_, _, ⟨⟩, ⟨⟩⟩ := run_bind_eq_ok run
  exact ⟨rest, isRest, isKind, rfl⟩

theorem rest_of_expect (run : (expect kind).run reader = .ok (token, left)) :
    ∃ rest, reader.rest = token :: rest ∧ token.kind = kind ∧ left = reader.after token rest := by
  obtain ⟨found, middle, checks, next⟩ := run_bind_eq_ok run
  obtain ⟨rfl, faces⟩ := faces_of_check checks
  split at next
  case isTrue found => exact rest_of_advance (faces found) next
  case isFalse =>
    obtain ⟨_, _, -, fails⟩ := run_bind_eq_ok next
    cases fails

theorem leads_failAt {before : Reader → Prop} {after : α → Reader → Prop} (token : Token) (cause : ParseCause) :
    Leads before (failAt token cause) after := by
  rintro reader _ left - run
  cases run

theorem leads_failHere {before : Reader → Prop} {after : α → Reader → Prop} (cause : ParseCause) :
    Leads before (failHere cause) after := by
  rintro reader _ left - run
  cases run

theorem leads_check {before : Reader → Prop} (kind : TokenKind) : Leads before (check kind)
    fun found reader => before reader ∧ (found = true → reader.Faces kind) := by
  intro reader found left start run
  obtain ⟨rfl, faces⟩ := faces_of_check run
  exact ⟨start, faces⟩

theorem leads_checkKeyword {before : Reader → Prop} (word : String) : Leads before (checkKeyword word)
    fun found reader => before reader ∧ (found = true → reader.Faces .bareIdentifier) := by
  refine (leads_check _).bind fun found => ?_
  rintro reader both left ⟨start, faces⟩ run
  cases run
  exact ⟨start, fun holds => faces (Bool.and_eq_true_iff.mp holds).1⟩

/-- A look at the next token tells what may follow. -/
theorem Leads.checks {before : Reader → Prop} {after : α → Reader → Prop} {onTrue onFalse : Reading α}
    (yes : Leads (fun reader => before reader ∧ reader.Faces kind) onTrue after)
    (no : Leads before onFalse after) :
    Leads before (do if ← check kind then onTrue else onFalse) after := by
  refine (leads_check kind).bind fun found => ?_
  cases found with
  | true => exact yes.strengthen fun _ holds => ⟨holds.1, holds.2 rfl⟩
  | false => exact no.strengthen fun _ => And.left

/-! ### Steps that pass no names -/

/-- The reader has moved on, and the names to come are the same. -/
structure Reader.SkipsTo (start left : Reader) : Prop extends start.MovesTo left where
  names : Token.names left.rest = Token.names start.rest

theorem Reader.SkipsTo.trans {start : Reader} (first : start.SkipsTo reader) (second : reader.SkipsTo left) :
    start.SkipsTo left :=
  ⟨first.toMovesTo.trans second.toMovesTo, second.names.trans first.names⟩

theorem Reader.movesTo_after (isRest : reader.rest = token :: rest) : reader.MovesTo (reader.after token rest) :=
  ⟨rfl, rfl, isRest ▸ List.suffix_cons token rest⟩

theorem Reader.skipsTo_after (isRest : reader.rest = token :: rest) (plain : token.kind.IsPlain) :
    reader.SkipsTo (reader.after token rest) :=
  ⟨Reader.movesTo_after isRest, by rw [isRest, Token.names_cons_of_isPlain plain, Reader.after]⟩

/-- A step that passes no names of values. -/
abbrev Nameless (step : Reading α) : Prop :=
  Along Reader.SkipsTo step

theorem nameless_advance {start : Reader} (plain : kind.IsPlain) :
    Leads (fun reader => start.SkipsTo reader ∧ reader.Faces kind) advance fun _ => start.SkipsTo := by
  rintro reader token left ⟨skips, faces⟩ run
  obtain ⟨rest, isRest, rfl, rfl⟩ := rest_of_advance faces run
  exact skips.trans (Reader.skipsTo_after isRest plain)

theorem nameless_expect (plain : kind.IsPlain) : Nameless (expect kind) := by
  intro start reader token left skips run
  obtain ⟨rest, isRest, rfl, rfl⟩ := rest_of_expect run
  exact skips.trans (Reader.skipsTo_after isRest plain)

theorem nameless_accept (plain : kind.IsPlain) : Nameless (accept kind) :=
  fun _ => .checks ((nameless_advance plain).bind fun _ => .pure fun _ => id) (.pure fun _ => id)

theorem nameless_keyword (word : String) : Nameless (keyword word) :=
  (nameless_expect (by decide)).bind fun _ => .ite (along_failAt _ _) (.pure _)

theorem nameless_string : Nameless string :=
  (nameless_expect (by decide)).bind fun _ => .pure _

theorem nameless_symbol : Nameless symbol :=
  (nameless_expect (by decide)).bind fun _ => .pure _

theorem nameless_commaList {more : Reading Bool} {item : Reading α} (asks : Nameless more) (each : Nameless item) :
    Nameless (commaList more item) :=
  .commaList asks each (nameless_accept (by decide))

/-! ### Types -/

theorem faces_of_atEnd (run : atEnd.run reader = .ok (false, left)) :
    left = reader ∧ ∃ kind, reader.Faces kind := by
  unfold atEnd peek at run
  cases isRest : reader.rest with
  | nil =>
    obtain ⟨_, _, ⟨⟩, run⟩ := run_bind_eq_ok run
    rw [isRest] at run
    cases run
  | cons token rest =>
    obtain ⟨_, _, ⟨⟩, run⟩ := run_bind_eq_ok run
    rw [isRest] at run
    injection run with run
    injection run with goesOn same
    exact ⟨same.symm, token.kind, token, rest, isRest, of_decide_eq_false goesOn, rfl⟩

/-- The number of open angle brackets behind a token. -/
def TokenKind.depthBehind (kind : TokenKind) (depth : Int) : Int :=
  match kind with
  | .less => depth + 1
  | .greater => depth - 1
  | _ => depth

theorem Token.exists_depthBehind {depth : Nat} (inside : 0 < depth ∨ token.kind = .less) :
    ∃ next : Nat, token.kind.depthBehind depth = next ∧
      Token.namesWithin depth (token :: rest) = Token.namesWithin next rest := by
  by_cases less : token.kind = .less
  · exact ⟨depth + 1, by simp [TokenKind.depthBehind, less], by simp [Token.namesWithin, less]⟩
  have inside : 0 < depth := inside.resolve_right less
  by_cases greater : token.kind = .greater
  · refine ⟨depth - 1, ?_, by simp [Token.namesWithin, greater]⟩
    simp only [TokenKind.depthBehind, greater]
    omega
  · refine ⟨depth, ?_, ?_⟩
    · unfold TokenKind.depthBehind
      split <;> first | contradiction | rfl
    · rw [Token.namesWithin]
      split <;> first | contradiction | exact if_neg inside.ne' | rfl

/-- What is read inside of so many angle brackets ends behind the last one of them. -/
theorem names_bracketText {text : String} (fuel depth : Nat) (inside : 0 < depth ∨ reader.Faces .less)
    (run : (bracketText fuel depth).run reader = .ok (text, left)) :
    Token.namesWithin depth reader.rest = Token.names left.rest := by
  induction fuel generalizing reader text depth with
  | zero => cases run
  | succ fuel ih =>
    obtain ⟨ended, middle, ends, next⟩ := run_bind_eq_ok run
    cases ended with
    | true => cases next
    | false =>
      obtain ⟨rfl, kind, faces⟩ := faces_of_atEnd ends
      obtain ⟨token, _, advances, next⟩ := run_bind_eq_ok next
      obtain ⟨rest, isRest, rfl, rfl⟩ := rest_of_advance faces advances
      -- Outside of all brackets the token is an opening one.
      have inside : 0 < depth ∨ token.kind = .less := by
        refine inside.imp_right ?_
        rintro ⟨other, _, isOther, -, less⟩
        rw [isRest] at isOther
        cases isOther
        exact less
      obtain ⟨deeper, isDeeper, names⟩ := Token.exists_depthBehind inside
      rw [isRest, names]
      have next : (if token.kind.depthBehind depth = 0 then pure token.lexeme
        else do return token.lexeme ++ (← bracketText fuel (token.kind.depthBehind depth)) : Reading String).run
          (middle.after token rest) = .ok (text, left) := next
      rw [isDeeper] at next
      split at next
      case isTrue ended =>
        cases next
        rw [Int.natCast_eq_zero.mp ended]
        rfl
      case isFalse goesOn =>
        obtain ⟨_, _, reads, ⟨⟩⟩ := run_bind_eq_ok next
        exact ih deeper (.inl (Nat.pos_of_ne_zero fun zero => goesOn (Int.natCast_eq_zero.mpr zero))) reads

theorem nameless_brackets {start : Reader} (fuel : Nat) :
    Leads (fun reader => start.SkipsTo reader ∧ reader.Faces .less) (bracketText fuel 0) fun _ => start.SkipsTo := by
  rintro reader text left ⟨skips, faces⟩ run
  exact skips.trans ⟨(quiet_bracketText fuel 0).movesTo run, (names_bracketText fuel 0 (.inr faces) run).symm⟩

theorem nameless_typeText : Nameless typeText := by
  have named (mark : String) (name : Token) : Nameless (do
      if ← check .less then
        return mark ++ name.lexeme ++ (← bracketText (← get).rest.length 0)
      return mark ++ name.lexeme) := by
    refine fun start => .checks ?_ (.pure fun _ => id)
    intro reader text left skips run
    obtain ⟨_, _, ⟨⟩, run⟩ := run_bind_eq_ok run
    obtain ⟨_, _, reads, ⟨⟩⟩ := run_bind_eq_ok run
    exact nameless_brackets _ reader _ left skips reads
  refine (nameless_accept (by decide)).bind fun _ => fun start => .checks ?_ ?_
  · exact (nameless_advance (by decide)).bind fun name => named _ name start
  · exact ((nameless_expect (by decide)).bind (named _)) start

theorem nameless_type : Nameless type := by
  refine along_peek.bind fun _ => fun start => .checks ?_ ?_
  · refine (nameless_advance (by decide)).bind fun token => ?_
    split
    · exact .pure fun _ => id
    · exact along_failAt _ _ start
  · refine (nameless_typeText.bind fun text => ?_) start
    split
    · exact .pure _
    · exact along_failAt _ _

theorem nameless_types : Nameless types :=
  nameless_commaList (.pure _) nameless_type

/-! ### Behind the word of an operation -/

/-- What names stand for to the reader. -/
def Reader.names (reader : Reader) : Naming :=
  fun name => reader.scopes.findSome? (·.lookup name)

/-- Since the word at the given place, the reader has passed names that stand for the given values. -/
structure Reader.Hears (start : Reader) (location : Location) (heard : List (Option ValueId)) (left : Reader) :
    Prop extends start.MovesTo left where
  behind : ∃ before word after, start.rest = before ++ word :: after ∧ word.location = location ∧
    (Token.names after).map start.names = heard ++ (Token.names left.rest).map start.names

section Hears

variable {start : Reader} {location : Location} {heard : List (Option ValueId)} {step : Reading α}

theorem Reader.SkipsTo.hears (hears : start.Hears location heard reader) (skips : reader.SkipsTo left) :
    start.Hears location heard left := by
  obtain ⟨before, word, after, isRest, located, names⟩ := hears.behind
  refine ⟨hears.toMovesTo.trans skips.toMovesTo, before, word, after, isRest, located, ?_⟩
  rw [names, skips.names]

theorem Along.hears (nameless : Nameless step) :
    Leads (start.Hears location heard) step fun _ => start.Hears location heard :=
  fun reader value left hears run => (nameless reader reader value left ⟨.refl reader, rfl⟩ run).hears hears

/-- What follows a step that passes no names starts from the same. -/
theorem Along.thenHears {next : α → Reading β} {later : β → Reader → Prop} (nameless : Nameless step)
    (rest : ∀ value, Leads (start.Hears location heard) (next value) later) :
    Leads (start.Hears location heard) (step >>= next) later :=
  nameless.hears.bind rest

theorem hears_advance (plain : kind.IsPlain) : Leads
    (fun reader => start.Hears location heard reader ∧ reader.Faces kind) advance fun _ => start.Hears location heard :=
  fun reader value left ⟨hears, faces⟩ run =>
    (nameless_advance plain reader value left ⟨⟨.refl reader, rfl⟩, faces⟩ run).hears hears

theorem hears_operationName : Leads start.MovesTo operationName fun location => start.Hears location [] := by
  intro reader location left moved run
  obtain ⟨_, _, ⟨⟩, run⟩ := run_bind_eq_ok run
  obtain ⟨word, _, expects, ⟨⟩⟩ := run_bind_eq_ok run
  obtain ⟨after, isRest, -, rfl⟩ := rest_of_expect expects
  obtain ⟨before, isStart⟩ := moved.rest
  refine ⟨moved.trans (Reader.movesTo_after isRest), before, word, after, ?_, ?_, rfl⟩
  · rw [← isStart, isRest]
  · rw [isRest]
    rfl

/-- The reader passes a name. -/
theorem Reader.Hears.name (hears : start.Hears location heard reader) (isRest : reader.rest = token :: rest)
    (isName : token.kind = .percentIdentifier) :
    start.Hears location (heard ++ [start.names token.lexeme]) (reader.after token rest) := by
  obtain ⟨before, word, after, isStart, located, names⟩ := hears.behind
  refine ⟨hears.toMovesTo.trans (Reader.movesTo_after isRest), before, word, after, isStart, located, ?_⟩
  rw [names, isRest, Token.names_cons_of_name isName, List.map_cons, List.append_assoc]
  rfl

theorem hears_name : Leads (start.Hears location heard) (expect .percentIdentifier)
    fun token => start.Hears location (heard ++ [start.names token.lexeme]) := by
  intro reader token left hears run
  obtain ⟨rest, isRest, isName, rfl⟩ := rest_of_expect run
  exact hears.name isRest isName

theorem hears_operand : Leads (start.Hears location heard) operand
    fun value => start.Hears location (heard ++ [some value]) := by
  refine hears_name.bind fun token => ?_
  intro reader value left hears run
  obtain ⟨_, _, ⟨⟩, run⟩ := run_bind_eq_ok run
  split at run
  case h_1 value found =>
    cases run
    rw [hears.scopes] at found
    rw [← found]
    exact hears
  case h_2 => cases run

/-- A list of items each of which begins with a name is heard item by item. -/
theorem hears_commaList {item : Reading α} (hear : α → List (Option ValueId))
    (each : ∀ heard, Leads (fun reader => start.Hears location heard reader ∧ reader.Faces .percentIdentifier) item
      fun value => start.Hears location (heard ++ hear value)) :
    Leads (start.Hears location heard) (commaList (check .percentIdentifier) item)
      fun values => start.Hears location (heard ++ values.flatMap hear) := by
  have each (read : List α) : Leads
      (fun reader => start.Hears location (heard ++ read.flatMap hear) reader ∧ reader.Faces .percentIdentifier) item
      fun value => start.Hears location (heard ++ (read ++ [value]).flatMap hear) :=
    (each _).weaken fun value _ hears => by simpa using hears
  have comma : Nameless (accept .comma) := nameless_accept (by decide)
  exact (Leads.commaList (fun _ => leads_check _) each fun _ => comma.hears).strengthen
    fun reader hears => (List.append_nil heard).symm ▸ hears

theorem hears_operands : Leads (start.Hears location heard) operands
    fun values => start.Hears location (heard ++ values.map some) := by
  have each (heard : List (Option ValueId)) : Leads
      (fun reader => start.Hears location heard reader ∧ reader.Faces .percentIdentifier) operand
      fun value => start.Hears location (heard ++ [some value]) :=
    hears_operand.strengthen fun _ => And.left
  refine (hears_commaList (fun value => [some value]) each).weaken fun _ _ hears => ?_
  rwa [List.map_eq_flatMap]

end Hears

end TensorIR
