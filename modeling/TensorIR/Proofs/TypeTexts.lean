import Mathlib
import TensorIR.Program.Print
import TensorIR.Proofs.Texts.Integers

/-!
# Types are told apart by their texts

No type is written like the beginning of another one: the end of a type can be seen from what follows,
a comma or a closing bracket. So a torch type is determined by its text, and a list of types by its
text up to the texts of its members. This holds as long as no class has a double quote in its name.

## Main definitions

* `TorchType.IsQuotable`, `Ty.IsQuotable` — no class that the type mentions has a quote in its name

## Main results

* `TorchType.eq_of_shortText_append`, `TorchType.eq_of_text` — torch types, inside of containers and alone
* `Ty.sameEach_of_typesText` — lists of types of any sort
-/

namespace TensorIR

/-! ### Texts that go on with a comma or a closing bracket -/

namespace Text

/-- The character closes brackets. -/
def isClosing (c : Char) : Bool :=
  c == '>' || c == ']'

/-- The character stands behind a member of a list, or behind the list. -/
def isStop (c : Char) : Bool :=
  c == ',' || isClosing c

/-- The character stands in a name: it opens no brackets and does not end a member of a list. -/
def isNameChar (c : Char) : Bool :=
  c != '<' && !isStop c

/-- A text that can stand behind a member of a list. -/
def Stops (text : List Char) : Prop :=
  ∀ c ∈ text.head?, isStop c = true

/-- A text that can stand behind a list. -/
def Closes (text : List Char) : Prop :=
  ∀ c ∈ text.head?, isClosing c = true

theorem isNameChar_of_isStop {c : Char} (stop : isStop c = true) : isNameChar c = false := by
  rw [isNameChar, stop, Bool.not_true, Bool.and_false]

theorem closes_cons {c : Char} (closing : isClosing c = true) (rest : List Char) :
    Closes (c :: rest) := by
  intro d member
  cases member
  exact closing

theorem Closes.stops {text : List Char} (closes : Closes text) : Stops text := by
  intro c member
  rw [isStop, closes c member, Bool.or_true]

theorem isStop_of_isNameChar {c : Char} (inName : isNameChar c = true) : isStop c = false := by
  simpa using (Bool.and_eq_true_iff.mp inName).2

/-- A text that begins with other characters does not stand behind a member of a list. -/
theorem not_stops_append {word : List Char} (some_word : word ≠ [])
    (inside : ∀ c ∈ word, isStop c = false) (rest : List Char) : ¬Stops (word ++ rest) := by
  obtain ⟨c, others, rfl⟩ := List.exists_cons_of_ne_nil some_word
  intro stops
  have stop := stops c rfl
  rw [inside c List.mem_cons_self] at stop
  cases stop

/-- Two words of certain characters that are followed by others are equal if the texts are. -/
theorem append_inj_of_word {p : Char → Bool} {first second rest others : List Char}
    (inFirst : ∀ c ∈ first, p c = true) (inSecond : ∀ c ∈ second, p c = true)
    (rest_ends : ∀ c ∈ rest.head?, p c = false) (others_end : ∀ c ∈ others.head?, p c = false)
    (same : first ++ rest = second ++ others) : first = second ∧ rest = others := by
  have word {word rest : List Char} (inside : ∀ c ∈ word, p c = true)
      (ends : ∀ c ∈ rest.head?, p c = false) : (word ++ rest).takeWhile p = word := by
    rw [List.takeWhile_append_of_pos inside]
    cases rest with
    | nil => rw [List.takeWhile_nil, List.append_nil]
    | cons c rest =>
      rw [List.takeWhile_cons_of_neg (by simp [ends c rfl]), List.append_nil]
  have equal : first = second := by
    rw [← word inFirst rest_ends, same, word inSecond others_end]
  subst equal
  exact ⟨rfl, List.append_cancel_left same⟩

end Text

section Members

variable {α : Type} {R : α → α → Prop} {code : α → List Char} {gap rest others : List Char}
  {first second : List α}

theorem forall₂_of_flatMap_append (gap : List Char)
    (told : ∀ a ∈ first, ∀ b ∈ second, ∀ rest others, Text.Stops rest → Text.Stops others →
      code a ++ rest = code b ++ others → R a b ∧ rest = others)
    (closes : Text.Closes rest) (others_close : Text.Closes others)
    (same : first.flatMap (fun a => ',' :: gap ++ code a) ++ rest =
      second.flatMap (fun a => ',' :: gap ++ code a) ++ others) :
    List.Forall₂ R first second ∧ rest = others := by
  -- Behind a member stands a comma or the end of the list, which tells whether another one follows.
  have stops {members : List α} {rest : List Char} (closes : Text.Closes rest) :
      Text.Stops (members.flatMap (fun a => ',' :: gap ++ code a) ++ rest) := by
    cases members with
    | nil => exact closes.stops
    | cons a members =>
      intro c member
      cases member
      rfl
  induction first generalizing second with
  | nil =>
    cases second with
    | nil => exact ⟨.nil, same⟩
    | cons b second =>
      refine absurd (closes ',' ?_) (by decide)
      rw [List.flatMap_nil, List.nil_append] at same
      rw [same]
      rfl
  | cons a first ih =>
    cases second with
    | nil =>
      refine absurd (others_close ',' ?_) (by decide)
      rw [List.flatMap_nil, List.nil_append] at same
      rw [← same]
      rfl
    | cons b second =>
      simp only [List.flatMap_cons, List.cons_append, List.append_assoc, List.cons.injEq,
        List.append_cancel_left_eq, true_and] at same
      obtain ⟨related, same⟩ :=
        told a List.mem_cons_self b List.mem_cons_self _ _ (stops closes) (stops others_close) same
      obtain ⟨all, same⟩ := ih (fun a inFirst b inSecond =>
        told a (List.mem_cons_of_mem _ inFirst) b (List.mem_cons_of_mem _ inSecond)) same
      exact ⟨.cons related all, same⟩

theorem intercalate_cons (gap : List Char) (a : α) (members : List α) :
    (',' :: gap).intercalate ((a :: members).map code) =
      code a ++ members.flatMap fun b => ',' :: gap ++ code b := by
  induction members generalizing a with
  | nil => simp
  | cons b members ih =>
    rw [List.map_cons, List.map_cons, List.intercalate_cons_cons, ← List.map_cons, ih]
    simp

/-- Lists are told apart by their texts if their members are and no member has an empty text. -/
theorem forall₂_of_intercalate_append
    (opens : ∀ a ∈ first ++ second, ∀ rest, ¬Text.Stops (code a ++ rest))
    (told : ∀ a ∈ first, ∀ b ∈ second, ∀ rest others, Text.Stops rest → Text.Stops others →
      code a ++ rest = code b ++ others → R a b ∧ rest = others)
    (closes : Text.Closes rest) (others_close : Text.Closes others)
    (same : (',' :: gap).intercalate (first.map code) ++ rest =
      (',' :: gap).intercalate (second.map code) ++ others) :
    List.Forall₂ R first second ∧ rest = others := by
  cases first with
  | nil =>
    cases second with
    | nil => exact ⟨.nil, by simpa using same⟩
    | cons b second =>
      rw [intercalate_cons, List.append_assoc] at same
      replace same : rest = _ := same
      exact absurd (same ▸ closes.stops) (opens b (by simp) _)
  | cons a first =>
    cases second with
    | nil =>
      rw [intercalate_cons, List.append_assoc] at same
      replace same : _ = others := same
      exact absurd (same ▸ others_close.stops) (opens a (by simp) _)
    | cons b second =>
      refine forall₂_of_flatMap_append gap told closes others_close ?_
      rw [intercalate_cons, intercalate_cons] at same
      simpa using same

end Members

/-! ### What is known about tensors -/

namespace TensorInfo

variable {rest others : List Char}

/-- The character stands in the text of a size. -/
def isSizeChar (c : Char) : Bool :=
  c.isDigit || c == '-' || c == '?'

theorem isDigit_or_eq_of_mem_toString {size : Int} {c : Char} (member : c ∈ (toString size).toList) :
    c.isDigit = true ∨ c = '-' := by
  rw [Int.toString_eq_repr, Int.repr_eq_if] at member
  split at member
  · exact .inl (Number.isDigit_of_mem_repr member)
  · rw [String.toList_append, List.mem_append] at member
    rcases member with minus | member
    · exact .inr (by simpa using minus)
    · exact .inl (Number.isDigit_of_mem_repr member)

theorem isSizeChar_of_mem {size : Option Int} {c : Char} (member : c ∈ (sizeText size).toList) :
    isSizeChar c = true := by
  cases size with
  | none =>
    obtain rfl : c = '?' := by simpa [sizeText] using member
    rfl
  | some size =>
    rcases isDigit_or_eq_of_mem_toString member with digit | rfl
    · simp [isSizeChar, digit]
    · rfl

theorem isSizeChar_of_isStop {c : Char} (stop : Text.isStop c = true) : isSizeChar c = false := by
  simp only [Text.isStop, Text.isClosing, Bool.or_eq_true, beq_iff_eq] at stop
  rcases stop with rfl | rfl | rfl <;> rfl

theorem toString_ne_unknown (size : Int) : toString size ≠ "?" := by
  intro unknown
  have member : '?' ∈ (toString size).toList := by simp [unknown]
  rcases isDigit_or_eq_of_mem_toString member with digit | minus
  · cases digit
  · cases minus

theorem sizeText_injective {first second : Option Int} (same : sizeText first = sizeText second) :
    first = second := by
  cases first with
  | none =>
    cases second with
    | none => rfl
    | some size => exact absurd same.symm (toString_ne_unknown size)
  | some size =>
    cases second with
    | none => exact absurd same (toString_ne_unknown size)
    | some other => rw [Int.repr_inj.mp same]

theorem sizeText_ne_nil (size : Option Int) : (sizeText size).toList ≠ [] := by
  cases size with
  | none => simp [sizeText]
  | some size => 
    rw [sizeText, Int.toString_eq_repr, Int.repr_eq_if]
    split <;> simp [Nat.toList_repr]

theorem not_stops_sizeText (size : Option Int) (rest : List Char) :
    ¬Text.Stops ((sizeText size).toList ++ rest) := by
  refine Text.not_stops_append (sizeText_ne_nil size) (fun c member => ?_) rest
  by_contra stop
  have outside := isSizeChar_of_isStop (Bool.eq_true_of_not_eq_false stop)
  rw [isSizeChar_of_mem member] at outside
  cases outside

/-- Lists of sizes are told apart by their texts. -/
theorem eq_of_sizesText_append {first second : List (Option Int)}
    (same : (sizesText first).toList ++ rest = (sizesText second).toList ++ others) :
    first = second ∧ rest = others := by
  have told (a b : Option Int) (rest others : List Char) (stops : Text.Stops rest)
      (others_stop : Text.Stops others)
      (same : (sizeText a).toList ++ rest = (sizeText b).toList ++ others) :
      a = b ∧ rest = others := by
    obtain ⟨word, same⟩ := Text.append_inj_of_word (fun c => isSizeChar_of_mem)
      (fun c => isSizeChar_of_mem) (fun c member => isSizeChar_of_isStop (stops c member))
      (fun c member => isSizeChar_of_isStop (others_stop c member)) same
    exact ⟨sizeText_injective (String.toList_inj.mp word), same⟩
  have closes (rest : List Char) : Text.Closes (']' :: rest) := by
    intro c member
    cases member
    rfl
  have inside : (',' :: []).intercalate (first.map fun size => (sizeText size).toList) ++ ']' :: rest =
      (',' :: []).intercalate (second.map fun size => (sizeText size).toList) ++ ']' :: others := by
    simpa [sizesText, Function.comp_def] using same
  obtain ⟨equal, same⟩ := forall₂_of_intercalate_append
    (fun size _ => not_stops_sizeText size) (fun a _ b _ => told a b) (closes rest) (closes others) inside
  exact ⟨List.forall₂_eq_eq_eq ▸ equal, (List.cons.inj same).2⟩

/-- The written form of an element type, which may be unknown. -/
def dtypeText (dtype : Option Dtype) : String :=
  dtype.elim "unk" Dtype.text

theorem eq_of_dtypeText_append {first second : Option Dtype}
    (same : (dtypeText first).toList ++ '>' :: rest = (dtypeText second).toList ++ '>' :: others) :
    first = second ∧ rest = others := by
  have inside (dtype : Option Dtype) : ∀ c ∈ (dtypeText dtype).toList, (c != '>') = true := by
    rcases dtype with _ | dtype
    · simp [dtypeText]
    · cases dtype <;> simp [dtypeText, Dtype.text]
  have injective : dtypeText first = dtypeText second → first = second := by
    rcases first with _ | first <;> rcases second with _ | second
    · exact fun _ => rfl
    · cases second <;> decide
    · cases first <;> decide
    · cases first <;> cases second <;> decide
  obtain ⟨word, same⟩ := Text.append_inj_of_word (inside first) (inside second)
    (fun c member => by cases member; rfl) (fun c member => by cases member; rfl) same
  exact ⟨injective (String.toList_inj.mp word), (List.cons.inj same).2⟩

theorem eq_of_isUnknown {info : TensorInfo} (unknown : info.isUnknown = true) : info = ⟨none, none⟩ := by
  obtain ⟨sizes, dtype⟩ := info
  simpa [isUnknown] using unknown

theorem toList_text (info : TensorInfo) : info.text.toList =
    (info.sizes.elim "*" sizesText).toList ++ ',' :: (dtypeText info.dtype).toList := by
  obtain ⟨sizes, dtype⟩ := info
  cases sizes <;> cases dtype <;> simp [text, dtypeText]

/-- What is known about tensors is told apart by its text. -/
theorem eq_of_text_append {first second : TensorInfo}
    (same : first.text.toList ++ '>' :: rest = second.text.toList ++ '>' :: others) :
    first = second ∧ rest = others := by
  obtain ⟨sizes, dtype⟩ := first
  obtain ⟨knownSizes, knownDtype⟩ := second
  rw [toList_text, toList_text, List.append_assoc, List.append_assoc] at same
  have parts : sizes = knownSizes ∧ (',' :: (dtypeText dtype).toList) ++ '>' :: rest =
      (',' :: (dtypeText knownDtype).toList) ++ '>' :: others := by
    cases sizes with
    | none =>
      cases knownSizes with
      | none => exact ⟨rfl, List.append_cancel_left same⟩
      | some known => simp [sizesText] at same
    | some sizes =>
      cases knownSizes with
      | none => simp [sizesText] at same
      | some known =>
        obtain ⟨equal, same⟩ := eq_of_sizesText_append same
        exact ⟨congrArg some equal, same⟩
  obtain ⟨rfl, after⟩ := parts
  obtain ⟨rfl, ends⟩ := eq_of_dtypeText_append (List.cons.inj after).2
  exact ⟨rfl, ends⟩

end TensorInfo

/-! ### Torch types -/

namespace TorchType

mutual

/-- The names of the classes that a type mentions. -/
def classNames : TorchType → List String
  | .list element | .optional element => classNames element
  | .dict key value => classNames key ++ classNames value
  | .tuple elements => classNamesEach elements
  | .nnModule className => [className]
  | _ => []

/-- The names of the classes that the types in a list mention. -/
def classNamesEach : List TorchType → List String
  | [] => []
  | a :: as => classNames a ++ classNamesEach as

end

/-- No class that the type mentions has a double quote in its name. -/
def IsQuotable (type : TorchType) : Prop :=
  ∀ name ∈ type.classNames, '"' ∉ name.toList

instance (type : TorchType) : Decidable type.IsQuotable :=
  inferInstanceAs (Decidable (∀ name ∈ type.classNames, '"' ∉ name.toList))

theorem mem_classNamesEach {name : String} {types : List TorchType} :
    name ∈ classNamesEach types ↔ ∃ type ∈ types, name ∈ type.classNames := by
  induction types with
  | nil => simp [classNamesEach]
  | cons type types ih => simp [classNamesEach, ih]

/-- The name that the written form of a type begins with. -/
def head : TorchType → String
  | .none => "none"
  | .bool => "bool"
  | .int => "int"
  | .float => "float"
  | .str => "str"
  | .device => "Device"
  | .generator => "Generator"
  | .linearParams => "LinearParams"
  | .any => "any"
  | .tensor _ => "tensor"
  | .vtensor _ => "vtensor"
  | .list _ => "list"
  | .optional _ => "optional"
  | .tuple _ => "tuple"
  | .dict _ _ => "dict"
  | .nnModule _ => "nn.Module"

/-- What the written form of a type has between angle brackets, if there are any. -/
def arguments? : TorchType → Option String
  | .tensor info | .vtensor info => if info.isUnknown then Option.none else some info.text
  | .list element | .optional element => some element.shortText
  | .tuple elements => some (String.intercalate ", " (elements.map shortText))
  | .dict key value => some (key.shortText ++ ", " ++ value.shortText)
  | .nnModule className => some ("\"" ++ className ++ "\"")
  | _ => Option.none

theorem shortTexts_eq_map (types : List TorchType) : shortTexts types = types.map shortText := by
  induction types with
  | nil => rfl
  | cons type types ih => rw [shortTexts, ih, List.map_cons]

/-- The text after the name: nothing, or the arguments in angle brackets. -/
def bracketed (arguments : Option String) : List Char :=
  arguments.elim [] fun inner => '<' :: inner.toList ++ ['>']

theorem toList_shortText (type : TorchType) :
    type.shortText.toList = type.head.toList ++ bracketed type.arguments? := by
  cases type with
  | tensor info | vtensor info =>
    rw [shortText, arguments?]
    split <;> simp [head, bracketed]
  | list | optional | dict | nnModule => simp [shortText, head, arguments?, bracketed]
  | tuple types => simp [shortText, head, arguments?, bracketed, shortTexts_eq_map]
  | none | bool | int | float | str | device | generator | linearParams | any =>
    simp [shortText, head, arguments?, bracketed]

theorem isNameChar_of_mem_head {type : TorchType} :
    ∀ c ∈ type.head.toList, Text.isNameChar c = true := by
  cases type <;> simp [head, Text.isNameChar, Text.isStop, Text.isClosing]

theorem not_stops_shortText (type : TorchType) (rest : List Char) :
    ¬Text.Stops (type.shortText.toList ++ rest) := by
  have some_head : type.head.toList ≠ [] := by cases type <;> simp [head]
  rw [toList_shortText, List.append_assoc]
  exact Text.not_stops_append some_head
    (fun c member => Text.isStop_of_isNameChar (isNameChar_of_mem_head c member)) _

/-- The names, in the order of the constructors. -/
def heads : List String :=
  ["none", "bool", "int", "float", "str", "Device", "Generator", "LinearParams", "any", "tensor",
    "vtensor", "list", "tuple", "dict", "optional", "nn.Module"]

/-- Types whose written forms begin with the same name are built by the same constructor. -/
theorem ctorIdx_eq_of_head {first second : TorchType} (same : first.head = second.head) :
    first.ctorIdx = second.ctorIdx := by
  have place (type : TorchType) : heads.idxOf type.head = type.ctorIdx := by
    cases type <;> simp [head, heads, TorchType.ctorIdx]
  rw [← place first, ← place second, same]

variable {rest others : List Char}

theorem not_isNameChar_bracketed {arguments : Option String} (stops : Text.Stops rest) :
    ∀ c ∈ (bracketed arguments ++ rest).head?, Text.isNameChar c = false := by
  intro c member
  cases arguments with
  | none => exact Text.isNameChar_of_isStop (stops c member)
  | some inner =>
    cases member
    rfl

theorem bracketed_some_append {inner other : String}
    (same : bracketed (some inner) ++ rest = bracketed (some other) ++ others) :
    inner.toList ++ '>' :: rest = other.toList ++ '>' :: others := by
  simpa [bracketed] using same

theorem info_eq_of_bracketed {info known : TensorInfo} (stops : Text.Stops rest)
    (others_stop : Text.Stops others)
    (same : bracketed (if info.isUnknown then Option.none else some info.text) ++ rest =
      bracketed (if known.isUnknown then Option.none else some known.text) ++ others) :
    info = known ∧ rest = others := by
  split at same <;> split at same
  case isTrue.isTrue unknown otherUnknown =>
    exact ⟨(TensorInfo.eq_of_isUnknown unknown).trans (TensorInfo.eq_of_isUnknown otherUnknown).symm, same⟩
  case isTrue.isFalse =>
    -- The text goes on with an angle bracket in one case, and with a comma or the end in the other.
    exact absurd (stops '<' (by rw [show rest = _ from same]; rfl)) (by decide)
  case isFalse.isTrue =>
    exact absurd (others_stop '<' (by rw [show others = _ from same.symm]; rfl)) (by decide)
  case isFalse.isFalse => exact TensorInfo.eq_of_text_append (bracketed_some_append same)

theorem className_eq_of_bracketed {className other : String} (quotable : '"' ∉ className.toList)
    (otherQuotable : '"' ∉ other.toList)
    (same : bracketed (some ("\"" ++ className ++ "\"")) ++ rest =
      bracketed (some ("\"" ++ other ++ "\"")) ++ others) :
    className = other ∧ rest = others := by
  have inside : className.toList ++ '"' :: '>' :: rest = other.toList ++ '"' :: '>' :: others := by
    simpa using bracketed_some_append same
  obtain ⟨word, after⟩ := Text.append_inj_of_word (p := (· != '"'))
    (fun c member => by simpa using ne_of_mem_of_not_mem member quotable)
    (fun c member => by simpa using ne_of_mem_of_not_mem member otherQuotable)
    (fun c member => by cases member; rfl) (fun c member => by cases member; rfl) inside
  exact ⟨String.toList_inj.mp word, (List.cons.inj (List.cons.inj after).2).2⟩

/-- Torch types are told apart by their texts, whatever follows them inside of a container. -/
theorem eq_of_shortText_append (first second : TorchType) {rest others : List Char}
    (quotable : first.IsQuotable) (otherQuotable : second.IsQuotable)
    (stops : Text.Stops rest) (others_stop : Text.Stops others)
    (same : first.shortText.toList ++ rest = second.shortText.toList ++ others) :
    first = second ∧ rest = others := by
  rw [toList_shortText, toList_shortText, List.append_assoc, List.append_assoc] at same
  obtain ⟨head_eq, after⟩ := Text.append_inj_of_word isNameChar_of_mem_head isNameChar_of_mem_head 
    (not_isNameChar_bracketed stops) (not_isNameChar_bracketed others_stop) same
  have alike := ctorIdx_eq_of_head (String.toList_inj.mp head_eq)
  have closing (rest : List Char) : Text.Closes ('>' :: rest) := Text.closes_cons rfl rest
  have comma (rest : List Char) : Text.Stops (',' :: rest) := by
    intro c member
    cases member
    rfl
  clear same head_eq
  -- The words in front tell the constructors apart. What is left are the texts in brackets.
  cases first <;> cases second <;> cases alike
  case tensor.tensor.refl info known | vtensor.vtensor.refl info known =>
    obtain ⟨rfl, same⟩ := info_eq_of_bracketed stops others_stop after
    exact ⟨rfl, same⟩
  case nnModule.nnModule.refl className other =>
    obtain ⟨rfl, same⟩ := className_eq_of_bracketed (quotable _ List.mem_cons_self)
      (otherQuotable _ List.mem_cons_self) after
    exact ⟨rfl, same⟩
  case list.list.refl element other | optional.optional.refl element other =>
    obtain ⟨rfl, behind⟩ := eq_of_shortText_append element other quotable otherQuotable
      (closing rest).stops (closing others).stops (bracketed_some_append after)
    exact ⟨rfl, (List.cons.inj behind).2⟩
  case dict.dict.refl key value otherKey otherValue =>
    have inside : key.shortText.toList ++ ',' :: ' ' :: (value.shortText.toList ++ '>' :: rest) =
        otherKey.shortText.toList ++ ',' :: ' ' :: (otherValue.shortText.toList ++ '>' :: others) := by
      simpa using bracketed_some_append after
    obtain ⟨rfl, behindKey⟩ := eq_of_shortText_append key otherKey
      (fun name member => quotable name (List.mem_append_left _ member))
      (fun name member => otherQuotable name (List.mem_append_left _ member))
      (comma _) (comma _) inside
    obtain ⟨rfl, behindValue⟩ := eq_of_shortText_append value otherValue
      (fun name member => quotable name (List.mem_append_right _ member))
      (fun name member => otherQuotable name (List.mem_append_right _ member))
      (closing rest).stops (closing others).stops (List.cons.inj (List.cons.inj behindKey).2).2
    exact ⟨rfl, (List.cons.inj behindValue).2⟩
  case tuple.tuple.refl elements known =>
    have inside : (',' :: [' ']).intercalate (elements.map fun type => type.shortText.toList) ++
          '>' :: rest =
        (',' :: [' ']).intercalate (known.map fun type => type.shortText.toList) ++ '>' :: others := by
      simpa [Function.comp_def] using bracketed_some_append after
    obtain ⟨all, behind⟩ := forall₂_of_intercalate_append (fun type _ => not_stops_shortText type)
      (fun element member other otherMember _ _ => eq_of_shortText_append element other
        (fun name mentioned => quotable name (mem_classNamesEach.mpr ⟨element, member, mentioned⟩))
        (fun name mentioned =>
          otherQuotable name (mem_classNamesEach.mpr ⟨other, otherMember, mentioned⟩)))
      (closing rest) (closing others) inside
    rw [List.forall₂_eq_eq_eq] at all
    exact ⟨congrArg tuple all, (List.cons.inj behind).2⟩
  all_goals exact ⟨rfl, after⟩

/-- Torch types that are written the same are the same. -/
theorem eq_of_text {first second : TorchType} (quotable : first.IsQuotable)
    (otherQuotable : second.IsQuotable) (same : first.text = second.text) : first = second := by
  have short : first.shortText.toList ++ [] = second.shortText.toList ++ [] := by
    simpa [text] using congrArg String.toList same
  have ends : Text.Stops [] := by simp [Text.Stops]
  exact (eq_of_shortText_append first second quotable otherQuotable ends ends short).1

end TorchType

/-! ### Types of any sort -/

namespace Ty

variable {rest others : List Char}

/-- No class that the type mentions has a double quote in its name. -/
def IsQuotable (type : Ty) : Prop :=
  ∀ torch ∈ type.torch?, torch.IsQuotable

instance (type : Ty) : Decidable type.IsQuotable :=
  inferInstanceAs (Decidable (∀ torch ∈ type.torch?, torch.IsQuotable))

/-- The name that the written form of a type begins with. -/
def head : Ty → String
  | .scalar type => type.text
  | .shaped type => type.kind.word
  | .torch type => "!torch." ++ type.head

theorem isNameChar_of_mem_head (type : Ty) :
    ∀ c ∈ type.head.toList, Text.isNameChar c = true := by
  cases type with
  | scalar type =>
    cases type <;> simp [head, ScalarType.text, Text.isNameChar, Text.isStop, Text.isClosing]
  | shaped type =>
    obtain ⟨kind, shape, element⟩ := type
    cases kind <;> simp [head, ShapedKind.word, Text.isNameChar, Text.isStop, Text.isClosing]
  | torch type =>
    intro c member
    rw [head, String.toList_append, List.mem_append] at member
    rcases member with dialect | member
    · revert c
      simp [Text.isNameChar, Text.isStop, Text.isClosing]
    · exact TorchType.isNameChar_of_mem_head c member

theorem ne_closing_of_isNameChar {c : Char} (inName : Text.isNameChar c = true) :
    (c != '>') = true :=
  bne_iff_ne.mpr fun closing => by rw [closing] at inName; cases inName

/-- The text of a tensor or a buffer ends with its only closing bracket. -/
theorem exists_toList_text_shaped (type : ShapedType) : ∃ inner : List Char,
    (∀ c ∈ type.kind.word.toList ++ '<' :: inner, (c != '>') = true) ∧
      type.text.toList = type.kind.word.toList ++ '<' :: (inner ++ ['>']) := by
  refine ⟨(type.shape.flatMap fun size => (ShapedType.sizeText size).toList) ++
    type.element.text.toList, ?_, ?_⟩
  · intro c member
    rcases List.mem_append.mp member with inWord | member
    · exact ne_closing_of_isNameChar (isNameChar_of_mem_head (.shaped type) c inWord)
    rcases List.mem_cons.mp member with rfl | member
    · rfl
    rcases List.mem_append.mp member with inSizes | inElement
    · obtain ⟨size, -, member⟩ := List.mem_flatMap.mp inSizes
      rw [ShapedType.sizeText, String.toList_append, List.mem_append] at member
      rcases member with member | separator
      · split at member
        · obtain rfl : c = '?' := by simpa using member
          rfl
        · rcases TensorInfo.isDigit_or_eq_of_mem_toString member with digit | rfl
          · exact bne_iff_ne.mpr fun closing => by rw [closing] at digit; cases digit
          · rfl
      · obtain rfl : c = 'x' := by simpa using separator
        rfl
    · exact ne_closing_of_isNameChar (isNameChar_of_mem_head (.scalar type.element) c inElement)
  · simp [ShapedType.text, String.toList_join, List.flatMap_map]

/-- After its name, the text of a type goes on with a bracket or ends. -/
theorem exists_toList_text (type : Ty) : ∃ tail : List Char,
    type.text.toList = type.head.toList ++ tail ∧
      ∀ rest, Text.Stops rest → ∀ c ∈ (tail ++ rest).head?, Text.isNameChar c = false := by
  have bracket (inner rest : List Char) :
      ∀ c ∈ ('<' :: inner ++ rest).head?, Text.isNameChar c = false := by
    intro c member
    cases member
    rfl
  cases type with
  | scalar type =>
    exact ⟨[], by simp [text, head], fun rest stops c member =>
      Text.isNameChar_of_isStop (stops c member)⟩
  | shaped type =>
    obtain ⟨inner, -, text_eq⟩ := exists_toList_text_shaped type
    exact ⟨_, text_eq, fun rest _ => bracket _ rest⟩
  | torch type =>
    refine ⟨TorchType.bracketed type.arguments?, ?_, fun rest stops => ?_⟩
    · simp [text, TorchType.text, TorchType.toList_shortText, head]
    · exact TorchType.not_isNameChar_bracketed stops

theorem not_stops_text (type : Ty) (rest : List Char) : ¬Text.Stops (type.text.toList ++ rest) := by
  have some_head : type.head.toList ≠ [] := by
    cases type with
    | scalar type => cases type <;> simp [head, ScalarType.text]
    | shaped type =>
      obtain ⟨kind, shape, element⟩ := type
      cases kind <;> simp [head, ShapedKind.word]
    | torch type => simp [head]
  obtain ⟨tail, text_eq, -⟩ := exists_toList_text type
  rw [text_eq, List.append_assoc]
  exact Text.not_stops_append some_head
    (fun c member => Text.isStop_of_isNameChar (type.isNameChar_of_mem_head c member)) _

/-- Types whose written forms begin with the same name are of the same sort. -/
theorem ctorIdx_eq_of_head {first second : Ty} (same : first.head = second.head) :
    first.ctorIdx = second.ctorIdx := by
  -- The first letter tells the sort.
  have sort (type : Ty) : type.ctorIdx =
      if type.head.toList.head? = some '!' then 2
      else if type.head.toList.head? ∈ [some 't', some 'm'] then 1
      else 0 := by
    cases type with
    | scalar type => cases type <;> simp [head, ScalarType.text, Ty.ctorIdx]
    | shaped type =>
      obtain ⟨kind, shape, element⟩ := type
      cases kind <;> simp [head, ShapedKind.word, Ty.ctorIdx]
    | torch type => simp [head, Ty.ctorIdx]
  rw [sort first, sort second, same]

/-- Types that are written the same, up to where their texts stop, are of the same sort. -/
theorem ctorIdx_eq_of_append {first second : Ty} (stops : Text.Stops rest) (others_stop : Text.Stops others)
    (same : first.text.toList ++ rest = second.text.toList ++ others) : first.ctorIdx = second.ctorIdx := by
  obtain ⟨tail, text_eq, ends⟩ := exists_toList_text first
  obtain ⟨otherTail, otherText, otherEnds⟩ := exists_toList_text second
  rw [text_eq, otherText, List.append_assoc, List.append_assoc] at same
  exact ctorIdx_eq_of_head (String.toList_inj.mp (Text.append_inj_of_word
    first.isNameChar_of_mem_head second.isNameChar_of_mem_head (ends rest stops)
    (otherEnds others others_stop) same).1)

/-- Types of any sort are told apart by their texts, whatever follows them in a list. -/
theorem text_eq_of_append {first second : Ty} (quotable : first.IsQuotable)
    (otherQuotable : second.IsQuotable) (stops : Text.Stops rest) (others_stop : Text.Stops others)
    (same : first.text.toList ++ rest = second.text.toList ++ others) :
    first.text = second.text ∧ rest = others := by
  have alike := ctorIdx_eq_of_append stops others_stop same
  cases first <;> cases second <;> cases alike
  case scalar.scalar.refl type other =>
    obtain ⟨word, same⟩ := Text.append_inj_of_word (Ty.scalar type).isNameChar_of_mem_head
      (Ty.scalar other).isNameChar_of_mem_head (fun c member => Text.isNameChar_of_isStop (stops c member))
      (fun c member => Text.isNameChar_of_isStop (others_stop c member)) same
    exact ⟨String.toList_inj.mp word, same⟩
  case shaped.shaped.refl type other =>
    obtain ⟨inner, inside, text_eq⟩ := exists_toList_text_shaped type
    obtain ⟨otherInner, otherInside, otherText⟩ := exists_toList_text_shaped other
    have words : (type.kind.word.toList ++ '<' :: inner) ++ '>' :: rest =
        (other.kind.word.toList ++ '<' :: otherInner) ++ '>' :: others := by
      simpa [text, text_eq, otherText] using same
    obtain ⟨word, after⟩ := Text.append_inj_of_word inside otherInside
      (fun c member => by cases member; rfl) (fun c member => by cases member; rfl) words
    refine ⟨String.toList_inj.mp ?_, (List.cons.inj after).2⟩
    rw [text, text, text_eq, otherText, ← List.cons_append, ← List.append_assoc, word]
    simp
  case torch.torch.refl type other =>
    have short : type.shortText.toList ++ rest = other.shortText.toList ++ others := by
      simpa [text, TorchType.text] using same
    obtain ⟨rfl, ends⟩ := TorchType.eq_of_shortText_append type other (quotable type rfl)
      (otherQuotable other rfl) stops others_stop short
    exact ⟨rfl, ends⟩

/-- Lists of types that are written the same hold the same types. -/
theorem sameEach_of_typesText {first second : List Ty} (quotable : ∀ type ∈ first, type.IsQuotable)
    (otherQuotable : ∀ type ∈ second, type.IsQuotable) (same : typesText first = typesText second) :
    sameEach first second = true := by
  have closes : Text.Closes [] := by simp [Text.Closes]
  have inside : (',' :: [' ']).intercalate (first.map fun type => type.text.toList) ++ [] =
      (',' :: [' ']).intercalate (second.map fun type => type.text.toList) ++ [] := by
    simpa [typesText, Function.comp_def] using congrArg String.toList same
  obtain ⟨all, -⟩ := forall₂_of_intercalate_append (fun type _ => not_stops_text type)
    (fun a member b otherMember _ _ => text_eq_of_append (quotable a member)
      (otherQuotable b otherMember)) closes closes inside
  have maps : List.Forall₂ (· = ·) (first.map text) (second.map text) :=
    List.forall₂_map_left_iff.mpr (List.forall₂_map_right_iff.mpr all)
  rw [List.forall₂_eq_eq_eq] at maps
  exact beq_iff_eq.mpr maps

end Ty

end TensorIR
