import TensorIR.Program.Parse
import TensorIR.Proofs.Verified

/-!
# Steps of reading, and looking at tokens

A step of reading is described by what holds of the reader before it and after it. Rules put such
descriptions together along the form of a step: one step behind another, a choice, a list between
commas.

A step either only looks at tokens, or it also adds to the program that is being built. Of the first
it is shown here that whatever they read, be it a number, a type or the attributes of an operation,
the program and the visible names are afterwards what they were before.

## Main definitions

* `Leads` — what holds before a step leads to what holds after it
* `Along` — a step that stays within a relation, wherever in the relation it is started
* `Reader.MovesTo` — a reader and the same further on in the text
* `Quiet` — a step that only looks at tokens

## Main results

* `Leads.bind`, `Leads.commaList`, `Leads.forIn` — the rules for steps that consist of others
* `Along.bind`, `Along.commaList` — the same for relations
* `quiet_type`, `quiet_attributes` — what operations consist of
-/

namespace TensorIR

variable {α β γ : Type}

theorem Reading.run_bind_of_ok {step : Reading α} {next : α → Reading β} {value : α}
    {reader middle : Reader} (run : step.run reader = .ok (value, middle)) :
    (step >>= next).run reader = (next value).run middle := by
  rw [StateT.run_bind, run]
  rfl

theorem Reading.run_bind_eq_ok {step : Reading α} {next : α → Reading β} {value : β}
    {reader after : Reader} (run : (step >>= next).run reader = .ok (value, after)) :
    ∃ first middle, step.run reader = .ok (first, middle) ∧
      (next first).run middle = .ok (value, after) := by
  rw [StateT.run_bind] at run
  obtain ⟨⟨first, middle⟩, ran, later⟩ := of_bind_eq_ok run
  exact ⟨first, middle, ran, later⟩

/-- Started where `before` holds, the step ends where `after` holds of what it gives, if it succeeds. -/
def Leads (before : Reader → Prop) (step : Reading α) (after : α → Reader → Prop) : Prop :=
  ∀ reader value left, before reader → step.run reader = .ok (value, left) → after value left

namespace Leads

variable {before between : Reader → Prop} {after : α → Reader → Prop} {later : β → Reader → Prop}
  {step : Reading α} {next : α → Reading β}

theorem pure {value : α} (holds : ∀ reader, before reader → after value reader) :
    Leads before (Pure.pure value) after := by
  rintro reader _ _ start ⟨⟩
  exact holds reader start

theorem throw (error : Error) : Leads before (MonadExcept.throw error : Reading α) after := by
  rintro _ _ _ _ ⟨⟩

theorem bind (first : Leads before step after) (second : ∀ value, Leads (after value) (next value) later) :
    Leads before (step >>= next) later := by
  intro reader value left start run
  obtain ⟨given, middle, ran, rest⟩ := Reading.run_bind_eq_ok run
  exact second given middle value left (first reader given middle start ran) rest

/-- What is known already need not be read. -/
theorem given {value : α} (leads : Leads before (next value) later) :
    Leads before (Pure.pure value >>= next) later := by
  rwa [pure_bind]

theorem ite {condition : Prop} {_ : Decidable condition} {other : Reading α} (onTrue : Leads before step after)
    (onFalse : Leads before other after) : Leads before (if condition then step else other) after := by
  split
  · exact onTrue
  · exact onFalse

theorem strengthen (leads : Leads between step after) (holds : ∀ reader, before reader → between reader) :
    Leads before step after :=
  fun reader value left start => leads reader value left (holds reader start)

theorem weaken {weaker : α → Reader → Prop} (leads : Leads before step after)
    (holds : ∀ value reader, after value reader → weaker value reader) : Leads before step weaker :=
  fun reader value left start run => holds value left (leads reader value left start run)

theorem map {weaker : β → Reader → Prop} (leads : Leads before step after) (change : α → β)
    (holds : ∀ value reader, after value reader → weaker (change value) reader) :
    Leads before (change <$> step) weaker := by
  rw [map_eq_pure_bind]
  exact leads.bind fun value => pure (holds value)

/-- What has been read before stands in front of the rest of a list. The question whether there is more may
tell something about what is coming. -/
theorem commaList {state : List α → Reader → Prop} {ready : Reader → Prop} {more : Reading Bool}
    (asks : ∀ read, Leads (state read) more fun goesOn reader => state read reader ∧ (goesOn = true → ready reader))
    (each : ∀ read, Leads (fun reader => state read reader ∧ ready reader) step fun value => state (read ++ [value]))
    (comma : ∀ read, Leads (state read) (Reading.accept .comma) fun _ => state read) :
    Leads (state []) (Reading.commaList more step) state := by
  have within (fuel : Nat) (read : List α) : Leads (state read)
      (Reading.commaListWithin more step fuel) fun values => state (read ++ values) := by
    have ends (read : List α) : Leads (state read) (Pure.pure []) fun values => state (read ++ values) :=
      pure fun _ holds => (List.append_nil read).symm ▸ holds
    induction fuel generalizing read with
    | zero => exact ends read
    | succ fuel ih =>
      refine (asks read).bind fun goesOn => ?_
      cases goesOn with
      | false => exact (ends read).strengthen fun _ => And.left
      | true =>
        refine Leads.strengthen (Leads.bind (each read) fun first => ?_) fun _ holds => ⟨holds.1, holds.2 rfl⟩
        refine (comma (read ++ [first])).bind fun _ => ite ?_ (pure fun _ => id)
        refine (ih (read ++ [first])).bind fun rest => pure fun program holds => ?_
        rwa [List.append_assoc] at holds
  exact fun reader value left start run => within _ [] reader value left start run

theorem mapM {state : List β → Reader → Prop} {change : α → Reading β} (items : List α)
    (each : ∀ item read, Leads (state read) (change item) fun value => state (read ++ [value])) :
    Leads (state []) (items.mapM change) state := by
  suffices general : ∀ read, Leads (state read) (items.mapM change) fun values => state (read ++ values) from
    general []
  induction items with
  | nil => exact fun read => pure fun _ holds => (List.append_nil read).symm ▸ holds
  | cons item items ih =>
    intro read
    rw [List.mapM_cons]
    refine (each item read).bind fun first => (ih (read ++ [first])).bind fun rest => pure fun _ holds => ?_
    rwa [List.append_assoc] at holds

theorem forIn {state : γ → Reader → Prop} {change : α → γ → Reading (ForInStep γ)} (items : List α)
    (each : ∀ item now, Leads (state now) (change item now) fun next reader =>
      ∃ value, next = .yield value ∧ state value reader) (start : γ) :
    Leads (state start) (ForIn.forIn items start change) state := by
  induction items generalizing start with
  | nil => exact pure fun _ => id
  | cons item items ih =>
    rw [List.forIn_cons]
    refine (each item start).bind fun next => ?_
    cases next with
    | done state =>
      rintro _ _ _ ⟨_, ended, _⟩
      cases ended
    | yield value =>
      refine (ih value).strengthen ?_
      rintro reader ⟨_, ⟨⟩, holds⟩
      exact holds

/-- A step of building. -/
theorem build {change : Program → α × Program}
    (changes : ∀ reader, before reader →
      after (change reader.program).1 { reader with program := (change reader.program).2 }) :
    Leads before (Reading.build change) after := by
  rintro reader _ _ start ⟨⟩
  exact changes reader start

end Leads

/-- Started from a reader that a first one is in the relation to, the step leaves another one of these. -/
def Along (relation : Reader → Reader → Prop) (step : Reading α) : Prop :=
  ∀ start, Leads (relation start) step fun _ => relation start

namespace Along

variable {relation : Reader → Reader → Prop} {step : Reading α} {next : α → Reading β}

theorem pure (value : α) : Along relation (Pure.pure value : Reading α) :=
  fun _ => .pure fun _ => id

theorem throw (error : Error) : Along relation (MonadExcept.throw error : Reading α) :=
  fun _ => .throw error

theorem get : Along relation (MonadState.get : Reading Reader) := by
  rintro start reader _ _ related ⟨⟩
  exact related

theorem bind (first : Along relation step) (second : ∀ value, Along relation (next value)) :
    Along relation (step >>= next) :=
  fun start => (first start).bind fun value => second value start

theorem ite {condition : Prop} {_ : Decidable condition} {other : Reading α} (onTrue : Along relation step)
    (onFalse : Along relation other) : Along relation (if condition then step else other) :=
  fun start => .ite (onTrue start) (onFalse start)

theorem map (along : Along relation step) (change : α → β) : Along relation (change <$> step) :=
  fun start => (along start).map change fun _ _ => id

/-- A step that asks about the reader. -/
theorem asks {next : Reader → Reading α} (along : ∀ reader, Along relation (next reader)) :
    Along relation (MonadState.get >>= next) :=
  get.bind along

theorem forIn {change : α → γ → Reading (ForInStep γ)} (each : ∀ item state, Along relation (change item state))
    (items : List α) (start : γ) : Along relation (ForIn.forIn items start change) := by
  induction items generalizing start with
  | nil => exact pure start
  | cons item items ih =>
    rw [List.forIn_cons]
    refine (each item start).bind fun next => ?_
    cases next with
    | done state => exact pure state
    | yield state => exact ih state

theorem mapM {change : α → Reading β} (each : ∀ item, Along relation (change item)) (items : List α) :
    Along relation (items.mapM change) :=
  fun start => .mapM items fun item _ => each item start

theorem commaList {more : Reading Bool} (asks : Along relation more) (each : Along relation step)
    (comma : Along relation (Reading.accept .comma)) : Along relation (Reading.commaList more step) :=
  fun start => .commaList (fun _ => (asks start).weaken fun _ _ related => ⟨related, fun _ => trivial⟩)
    (fun _ => (each start).strengthen fun _ => And.left) fun _ => comma start

end Along

/-! ### Looking at tokens -/

/-- The reader has moved on in the text, and nothing else about it has changed. -/
structure Reader.MovesTo (start left : Reader) : Prop where
  program : left.program = start.program
  scopes : left.scopes = start.scopes
  rest : left.rest <:+ start.rest

theorem Reader.MovesTo.refl (reader : Reader) : reader.MovesTo reader :=
  ⟨rfl, rfl, List.suffix_rfl⟩

theorem Reader.MovesTo.trans {start middle left : Reader} (first : start.MovesTo middle)
    (second : middle.MovesTo left) : start.MovesTo left :=
  ⟨second.program.trans first.program, second.scopes.trans first.scopes, second.rest.trans first.rest⟩

/-- A step that leaves the program and the visible names as they are if it succeeds, and reads the tokens
in their order. -/
abbrev Quiet (step : Reading α) : Prop :=
  Along Reader.MovesTo step

/-- What a quiet step has read. -/
theorem Along.movesTo {step : Reading α} {reader left : Reader} {value : α} (quiet : Quiet step)
    (run : step.run reader = .ok (value, left)) : reader.MovesTo left :=
  quiet reader reader value left (.refl reader) run

namespace Reading

variable {relation : Reader → Reader → Prop}

theorem along_peek : Along relation peek :=
  .asks fun _ => .pure _

theorem along_kindAfterNext : Along relation kindAfterNext :=
  .asks fun _ => .pure _

theorem along_atEnd : Along relation atEnd :=
  along_peek.bind fun _ => .pure _

theorem quiet_advance : Quiet advance := by
  intro start reader value after moved run
  unfold advance at run
  obtain ⟨_, _, ⟨⟩, run⟩ := run_bind_eq_ok run
  split at run
  case h_1 _ rest isRest =>
    split at run
    · cases run
      exact moved
    · obtain ⟨_, _, ⟨⟩, ⟨⟩⟩ := run_bind_eq_ok run
      exact moved.trans ⟨rfl, rfl, isRest ▸ List.suffix_cons _ rest⟩
  case h_2 =>
    cases run
    exact moved

theorem along_check (kind : TokenKind) : Along relation (check kind) :=
  along_peek.bind fun _ => .pure _

theorem along_checkKeyword (keyword : String) : Along relation (checkKeyword keyword) :=
  (along_check _).bind fun _ => along_peek.bind fun _ => .pure _

theorem quiet_accept (kind : TokenKind) : Quiet (accept kind) :=
  (along_check kind).bind fun _ => .ite (quiet_advance.bind fun _ => .pure _) (.pure _)

theorem along_failAt (token : Token) (cause : ParseCause) : Along relation (failAt token cause : Reading α) :=
  .asks fun _ => .throw _

theorem along_failHere (cause : ParseCause) : Along relation (failHere cause : Reading α) :=
  along_peek.bind fun _ => along_failAt _ _

theorem along_failBefore (cause : ParseCause) : Along relation (failBefore cause : Reading α) :=
  .asks fun _ => along_failAt _ _

theorem quiet_expect (kind : TokenKind) : Quiet (expect kind) :=
  (along_check kind).bind fun _ => .ite quiet_advance (along_peek.bind fun _ => along_failAt _ _)

theorem quiet_keyword (word : String) : Quiet (keyword word) :=
  (quiet_expect _).bind fun _ => .ite (along_failAt _ _) (.pure _)

theorem quiet_commaList {more : Reading Bool} {item : Reading α} (quietMore : Quiet more)
    (quietItem : Quiet item) : Quiet (commaList more item) :=
  .commaList quietMore quietItem (quiet_accept _)

/-- A list that a bracket closes. -/
theorem quiet_listUntil (kind : TokenKind) {item : Reading α} (quietItem : Quiet item) :
    Quiet (commaList (return !(← check kind)) item) :=
  quiet_commaList ((along_check kind).bind fun _ => .pure _) quietItem

theorem quiet_integer : Quiet integer := by
  refine (quiet_accept _).bind fun _ => (quiet_expect _).bind fun _ => ?_
  split
  · exact .pure _
  · exact along_failAt _ _

theorem quiet_float : Quiet float := by
  refine (quiet_accept _).bind fun _ => along_peek.bind fun _ => ?_
  split
  · exact quiet_advance.bind fun _ => .pure _
  · exact along_failAt _ _

theorem quiet_string : Quiet string :=
  (quiet_expect _).bind fun _ => .pure _

theorem quiet_symbol : Quiet symbol :=
  (quiet_expect _).bind fun _ => .pure _

theorem quiet_boolean : Quiet boolean :=
  (quiet_expect _).bind fun _ => .ite (.pure _) (.ite (.pure _) (along_failAt _ _))

theorem quiet_integerList : Quiet integerList :=
  (quiet_expect _).bind fun _ => (quiet_listUntil _ quiet_integer).bind fun _ =>
    (quiet_expect _).bind fun _ => .pure _

theorem quiet_denseNumber : Quiet denseNumber := by
  have number (isFloat : Bool) : Quiet (do return (← float, isFloat)) :=
    quiet_float.bind fun _ => .pure _
  refine along_peek.bind fun _ => .ite ?_ ((Along.pure _).bind number)
  exact along_kindAfterNext.bind fun _ => (Along.pure _).bind number

theorem quiet_dense : Quiet dense := by
  have closed (data : DenseData) : Quiet (do let _ ← expect .greater; return data) :=
    (quiet_expect _).bind fun _ => .pure _
  refine (quiet_keyword _).bind fun _ => (quiet_expect _).bind fun _ => (quiet_accept _).bind fun _ => ?_
  refine .ite ?_ (quiet_denseNumber.bind fun _ => (Along.pure _).bind closed)
  exact (quiet_listUntil _ quiet_denseNumber).bind fun _ => (quiet_expect _).bind fun _ =>
    (Along.pure _).bind closed

theorem quiet_attributeValue : Quiet attributeValue := by
  refine along_peek.bind fun token => ?_
  split
  · refine along_kindAfterNext.bind fun _ => .ite ?_ ?_
    · exact quiet_float.bind fun _ => .pure _
    · exact quiet_integer.bind fun _ => .pure _
  · exact quiet_integer.bind fun _ => .pure _
  · exact quiet_float.bind fun _ => .pure _
  · exact quiet_string.bind fun _ => .pure _
  · exact quiet_symbol.bind fun _ => .pure _
  · exact quiet_integerList.bind fun _ => .pure _
  · refine .ite (quiet_boolean.bind fun _ => .pure _) (.ite (quiet_dense.bind fun _ => .pure _) ?_)
    exact .ite (quiet_float.bind fun _ => .pure _) (along_failAt _ _)
  · exact along_failAt _ _

theorem quiet_attributeEntry : Quiet attributeEntry :=
  (quiet_expect _).bind fun _ => (quiet_expect _).bind fun _ =>
    quiet_attributeValue.bind fun _ => .pure _

theorem quiet_attributes : Quiet attributes :=
  (quiet_expect _).bind fun _ => (quiet_listUntil _ quiet_attributeEntry).bind fun _ =>
    (quiet_expect _).bind fun _ => .pure _

theorem quiet_bracketText (fuel : Nat) (depth : Int) : Quiet (bracketText fuel depth) := by
  induction fuel generalizing depth with
  | zero => exact along_failHere _
  | succ fuel ih =>
    refine along_atEnd.bind fun _ => .ite (along_failHere _) ?_
    refine quiet_advance.bind fun _ => .ite (.pure _) ?_
    exact (ih _).bind fun _ => .pure _

theorem quiet_typeText : Quiet typeText := by
  have named (mark : String) (name : Token) : Quiet (do
      if ← check .less then
        return mark ++ name.lexeme ++ (← bracketText (← get).rest.length 0)
      return mark ++ name.lexeme) :=
    (along_check _).bind fun _ => .ite (.asks fun _ => (quiet_bracketText _ _).bind fun _ => .pure _)
      (.pure _)
  refine (quiet_accept _).bind fun _ => (along_check _).bind fun _ => ?_
  exact .ite (quiet_advance.bind (named _)) ((quiet_expect _).bind (named _))

theorem quiet_type : Quiet type := by
  refine along_peek.bind fun _ => (along_check _).bind fun _ => .ite ?_ ?_
  · refine quiet_advance.bind fun _ => ?_
    split
    · exact .pure _
    · exact along_failAt _ _
  · refine quiet_typeText.bind fun _ => ?_
    split
    · exact .pure _
    · exact along_failAt _ _

theorem quiet_types : Quiet types :=
  quiet_commaList (.pure _) quiet_type

theorem quiet_typesInParens : Quiet typesInParens :=
  (quiet_expect _).bind fun _ => (quiet_accept _).bind fun _ => .ite (.pure _) <|
    quiet_types.bind fun _ => (quiet_expect _).bind fun _ => .pure _

theorem quiet_resultTypes : Quiet resultTypes :=
  (along_check _).bind fun _ => .ite quiet_typesInParens (quiet_type.bind fun _ => .pure _)

theorem along_ask (question : Program → α) : Along relation (ask question) :=
  .asks fun _ => .pure _

/-- What is computed on the side. -/
theorem along_liftExcept (outcome : Except Error α) : Along relation (liftM outcome : Reading α) := by
  intro start reader value after moved run
  cases outcome with
  | error => cases run
  | ok found =>
    cases run
    exact moved

theorem along_checkTypes (values : List ValueId) (types : List Ty) : Along relation (checkTypes values types) := by
  unfold checkTypes
  extract_lets each
  have each : Along relation (each ()) := by
    refine (Along.forIn (fun _ _ => .asks fun _ => ?_) _ _).bind fun _ => .pure _
    refine (along_liftExcept _).bind fun _ => .ite (.pure _) ?_
    exact (along_ask _).bind fun _ => (along_failBefore _).bind fun _ => .pure _
  exact .ite ((along_failBefore _).bind fun _ => each) each

theorem quiet_resultNames : Quiet resultNames := by
  refine (quiet_commaList (along_check _) (quiet_advance.map _)).bind fun _ => ?_
  exact .ite (.pure _) ((quiet_expect _).bind fun _ => .pure _)

theorem quiet_operationName : Quiet operationName :=
  along_peek.bind fun _ => (quiet_expect _).bind fun _ => .pure _

end Reading

end TensorIR
