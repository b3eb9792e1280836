import TensorIR.Proofs.Texts.Integers
import TensorIR.Proofs.Texts.Splitting
import TensorIR.Proofs.TypeTexts

/-!
# The texts of torch types are read back

A torch type is read from its text without the white space in it. What is left is a name, and in angle brackets behind
it the arguments: what is known about a tensor, a quoted class name, or types that are written in the same way between
commas. Every type closes the brackets and quotes that it opens, so that a list of types is cut at the commas between
them, however deep they are nested and whatever stands in the names of classes.

## Main definitions

* `TorchType.knownSizes` — the sizes that are known of the tensors in a type
* `TorchType.IsReadable` — names of classes without white space and quotes, and known sizes of 64 bits
* `TorchType.bare` — the text of a type inside of a container, without white space

## Main results

* `TensorInfo.read_text` — what is known about a tensor is read back
* `TorchType.bare_eq`, `TorchType.passesFrom_bare` — the form of a text and that it is passed over as a whole
* `TorchType.readShort_eq_ok` — a type inside of a container is read back
* `TorchType.read_text_eq_ok` — a torch type is read back from its text
-/

namespace TensorIR

/-! ### What is known about tensors -/

theorem Dtype.read_text (dtype : Dtype) :
    Dtype.read dtype.text.toList = .ok dtype ∧ dtype.text.toList ≠ "unk".toList := by
  cases dtype <;> exact ⟨rfl, by simp [Dtype.text]⟩

namespace TensorInfo

/-- The sizes that are known. -/
def knownSizes (info : TensorInfo) : List Int :=
  (info.sizes.getD []).reduceOption

theorem isWord_sizeText (size : Option Int) : Text.IsWord (sizeText size).toList := by
  intro c member
  have inSize := isSizeChar_of_mem member
  simp only [isSizeChar, Bool.or_eq_true, beq_iff_eq] at inSize
  rcases inSize with (digit | rfl) | rfl
  · exact ⟨Text.isPlain_of_isDigit digit, Text.isBlank_of_isDigit digit⟩
  · exact ⟨rfl, rfl⟩
  · exact ⟨rfl, rfl⟩

theorem isWord_dtypeText (dtype : Option Dtype) : Text.IsWord (dtypeText dtype).toList := by
  rw [Text.IsWord]
  rcases dtype with _ | dtype
  · simp [dtypeText, Text.isPlain, Text.isBlank]
  · cases dtype <;> simp [dtypeText, Dtype.text, Text.isPlain, Text.isBlank]

theorem readSize_sizeText {size : Option Int}
    (inRange : ∀ value ∈ size, Number.minInt64 ≤ value ∧ value ≤ Number.maxInt64) :
    readSize (sizeText size).toList = .ok size := by
  cases size with
  | none => rfl
  | some value =>
    obtain ⟨least, most⟩ := inRange value rfl
    have known : (toString value).toList ≠ ['?'] :=
      fun unknown => toString_ne_unknown value (String.toList_inj.mp unknown)
    rw [sizeText, readSize, if_neg known, Number.readInteger_toString least most]

theorem toList_sizesText (sizes : List (Option Int)) :
    (sizesText sizes).toList = '[' :: [','].intercalate (sizes.map fun size => (sizeText size).toList) ++ [']'] := by
  simp [sizesText, Function.comp_def]

theorem readSizes_sizesText {sizes : List (Option Int)}
    (inRange : ∀ value ∈ sizes.reduceOption, Number.minInt64 ≤ value ∧ value ≤ Number.maxInt64) :
    readSizes (sizesText sizes).toList = .ok (some sizes) := by
  have each : ∀ size ∈ sizes, readSize (sizeText size).toList = .ok size := fun size member =>
    readSize_sizeText fun value isValue => inRange value (List.reduceOption_mem_iff.mpr (isValue ▸ member))
  have parts : (Text.splitOn ',' ([','].intercalate (sizes.map fun size => (sizeText size).toList))).filter
      (!·.isEmpty) = sizes.map fun size => (sizeText size).toList := by
    cases sizes with
    | nil => rfl
    | cons size sizes =>
      rw [Text.splitOn_intercalate (by simp)]
      · refine List.filter_eq_self.mpr fun code member => ?_
        obtain ⟨other, -, rfl⟩ := List.mem_map.mp member
        simpa using sizeText_ne_nil other
      · intro code member inside
        obtain ⟨other, -, rfl⟩ := List.mem_map.mp member
        cases isSizeChar_of_mem inside
  rw [readSizes, toList_sizesText, if_neg (by simp), List.cons_append]
  dsimp only [Text.afterPrefix?, if_true, Option.bind_some]
  rw [if_pos rfl, Option.bind_some, Text.beforeLast?_concat]
  dsimp only
  rw [parts, mapM_map_eq_ok each]
  rfl

theorem toList_text_eq_intercalate (info : TensorInfo) : info.text.toList =
    [','].intercalate [(info.sizes.elim "*" sizesText).toList, (dtypeText info.dtype).toList] := by
  rw [toList_text]
  simp

theorem isWord_star : Text.IsWord "*".toList := by
  simp [Text.IsWord, Text.isPlain, Text.isBlank]

theorem withoutBlanks_sizes (sizes : Option (List (Option Int))) :
    Text.withoutBlanks (sizes.elim "*" sizesText).toList = (sizes.elim "*" sizesText).toList := by
  cases sizes with
  | none => exact isWord_star.withoutBlanks_eq
  | some sizes =>
    have codes : (sizes.map fun size => (sizeText size).toList).map Text.withoutBlanks =
        sizes.map fun size => (sizeText size).toList := by
      rw [List.map_map]
      exact List.map_congr_left fun size _ => (isWord_sizeText size).withoutBlanks_eq
    have inside := Text.withoutBlanks_intercalate [','] (sizes.map fun size => (sizeText size).toList)
    rw [codes] at inside
    rw [Option.elim_some, toList_sizesText, Text.withoutBlanks_append, Text.withoutBlanks_cons rfl, inside]
    rfl

theorem withoutBlanks_text (info : TensorInfo) : Text.withoutBlanks info.text.toList = info.text.toList := by
  rw [toList_text, Text.withoutBlanks_append, withoutBlanks_sizes, Text.withoutBlanks_cons rfl,
    (isWord_dtypeText info.dtype).withoutBlanks_eq]

theorem passesFrom_sizes (sizes : Option (List (Option Int))) :
    Text.PassesFrom 0 (sizes.elim "*" sizesText).toList := by
  cases sizes with
  | none => exact .word isWord_star 0
  | some sizes =>
    rw [Option.elim_some, toList_sizesText]
    refine .bracketed (.inr rfl) (.inr rfl) (.intercalate fun code member => ?_)
    obtain ⟨size, -, rfl⟩ := List.mem_map.mp member
    exact .word (isWord_sizeText size) 0

/-- The text of what is known about a tensor belongs to one part inside of brackets. -/
theorem passesFrom_text (info : TensorInfo) : Text.PassesFrom 1 info.text.toList := by
  rw [toList_text_eq_intercalate]
  exact .intercalate (List.forall_mem_cons.2 ⟨passesFrom_sizes info.sizes,
    List.forall_mem_singleton.2 (.word (isWord_dtypeText info.dtype) 0)⟩)

theorem splitTopLevel_text (info : TensorInfo) : Text.splitTopLevel info.text.toList =
    [(info.sizes.elim "*" sizesText).toList, (dtypeText info.dtype).toList] := by
  have sizes : (info.sizes.elim "*" sizesText).toList ≠ [] := by
    cases info.sizes <;> simp [sizesText]
  have dtype : (dtypeText info.dtype).toList ≠ [] := by
    rcases info.dtype with _ | dtype
    · simp [dtypeText]
    · cases dtype <;> simp [dtypeText, Dtype.text]
  rw [toList_text_eq_intercalate]
  exact Text.splitTopLevel_intercalate (List.forall_mem_cons.2 ⟨⟨passesFrom_sizes info.sizes, sizes⟩,
    List.forall_mem_singleton.2 ⟨.word (isWord_dtypeText info.dtype) 0, dtype⟩⟩)

/-- What is known about a tensor is read back from its text. -/
theorem read_text {info : TensorInfo}
    (inRange : ∀ value ∈ info.knownSizes, Number.minInt64 ≤ value ∧ value ≤ Number.maxInt64) :
    read info.text.toList = .ok info := by
  have sizes : readSizes (info.sizes.elim "*" sizesText).toList = .ok info.sizes := by
    obtain ⟨sizes, dtype⟩ := info
    cases sizes with
    | none => simp [readSizes]
    | some sizes => exact readSizes_sizesText inRange
  simp only [read, splitTopLevel_text, sizes, bind, Except.bind]
  obtain ⟨sizes, dtype⟩ := info
  cases dtype with
  | none => simp [dtypeText, pure, Except.pure]
  | some dtype =>
    obtain ⟨isRead, known⟩ := dtype.read_text
    simp only [dtypeText, Option.elim_some, if_neg known, isRead]
    rfl

end TensorInfo

/-! ### Torch types -/

namespace TorchType

mutual

/-- The sizes that are known of the tensors in a type. -/
def knownSizes : TorchType → List Int
  | .tensor info | .vtensor info => info.knownSizes
  | .list element | .optional element => knownSizes element
  | .dict key value => knownSizes key ++ knownSizes value
  | .tuple elements => knownSizesEach elements
  | _ => []

/-- The sizes that are known of the tensors in a list of types. -/
def knownSizesEach : List TorchType → List Int
  | [] => []
  | type :: types => knownSizes type ++ knownSizesEach types

end

theorem mem_knownSizesEach {size : Int} {types : List TorchType} :
    size ∈ knownSizesEach types ↔ ∃ type ∈ types, size ∈ type.knownSizes := by
  induction types with
  | nil => simp [knownSizesEach]
  | cons type types ih => simp [knownSizesEach, ih]

/-- A type is written readably if its classes have neither white space nor quotes in their names, and its known sizes
are 64-bit integers. -/
structure IsReadable (type : TorchType) : Prop where
  classNames : ∀ name ∈ type.classNames, ∀ c ∈ name.toList, Text.isBlank c = false ∧ c ≠ '"'
  knownSizes : ∀ size ∈ type.knownSizes, Number.minInt64 ≤ size ∧ size ≤ Number.maxInt64

theorem IsReadable.element {elements : List TorchType} (readable : (tuple elements).IsReadable) {element : TorchType}
    (member : element ∈ elements) : element.IsReadable where
  classNames name inside := readable.classNames name (mem_classNamesEach.mpr ⟨element, member, inside⟩)
  knownSizes size inside := readable.knownSizes size (mem_knownSizesEach.mpr ⟨element, member, inside⟩)

theorem IsReadable.key {key value : TorchType} (readable : (dict key value).IsReadable) : key.IsReadable where
  classNames name inside := readable.classNames name (List.mem_append_left _ inside)
  knownSizes size inside := readable.knownSizes size (List.mem_append_left _ inside)

theorem IsReadable.value {key value : TorchType} (readable : (dict key value).IsReadable) : value.IsReadable where
  classNames name inside := readable.classNames name (List.mem_append_right _ inside)
  knownSizes size inside := readable.knownSizes size (List.mem_append_right _ inside)

theorem IsReadable.inList {element : TorchType} (readable : (list element).IsReadable) : element.IsReadable :=
  ⟨readable.classNames, readable.knownSizes⟩

theorem IsReadable.inOptional {element : TorchType} (readable : (optional element).IsReadable) : element.IsReadable :=
  ⟨readable.classNames, readable.knownSizes⟩

/-- The text of a type inside of a container, without the white space in it. -/
def bare (type : TorchType) : List Char :=
  Text.withoutBlanks type.shortText.toList

/-- What the bare text of a type has between angle brackets, if there are any. -/
def bareArguments? : TorchType → Option (List Char)
  | .tensor info | .vtensor info => if info.isUnknown then Option.none else some info.text.toList
  | .list element | .optional element => some element.bare
  | .tuple elements => some ([','].intercalate (elements.map bare))
  | .dict key value => some ([','].intercalate [key.bare, value.bare])
  | .nnModule className => some ('"' :: className.toList ++ ['"'])
  | _ => Option.none

/-- Nothing, or arguments in angle brackets. -/
def enclosed (arguments : Option (List Char)) : List Char :=
  arguments.elim [] fun inner => '<' :: inner ++ ['>']

theorem isWord_head (type : TorchType) : Text.IsWord type.head.toList := by
  rw [Text.IsWord]
  cases type <;> simp [head, Text.isPlain, Text.isBlank]

theorem bareArguments?_eq {type : TorchType} (readable : type.IsReadable) :
    type.arguments?.map (fun inner => Text.withoutBlanks inner.toList) = type.bareArguments? := by
  cases type with
  | tensor info | vtensor info =>
    rw [arguments?, bareArguments?]
    split
    · rfl
    · exact congrArg some info.withoutBlanks_text
  | list | optional => rfl
  | tuple elements =>
    simp only [arguments?, bareArguments?, Option.map_some, String.toList_intercalate, List.map_map,
      Text.withoutBlanks_intercalate]
    rw [show Text.withoutBlanks ", ".toList = [','] by decide]
    rfl
  | dict key value =>
    simp [arguments?, bareArguments?, Text.withoutBlanks_append]
    rfl
  | nnModule className =>
    have solid : Text.withoutBlanks className.toList = className.toList :=
      Text.withoutBlanks_eq_self fun c member => (readable.classNames className List.mem_cons_self c member).1
    have text_eq : ("\"" ++ className ++ "\"").toList = '"' :: className.toList ++ ['"'] := by simp
    rw [arguments?, bareArguments?, Option.map_some, text_eq, Text.withoutBlanks_append, Text.withoutBlanks_cons rfl,
      solid]
    rfl
  | _ => rfl

/-- The bare text of a type is its name with the bare arguments behind it. -/
theorem bare_eq {type : TorchType} (readable : type.IsReadable) :
    type.bare = type.head.toList ++ enclosed type.bareArguments? := by
  rw [bare, toList_shortText, Text.withoutBlanks_append,
    (isWord_head type).withoutBlanks_eq, ← bareArguments?_eq readable]
  cases type.arguments? with
  | none => rfl
  | some inner =>
    rw [bracketed, Option.elim_some, Text.withoutBlanks_append, Text.withoutBlanks_cons rfl]
    rfl

/-- Every type belongs to one part of a list of types, whatever is nested in it. -/
theorem passesFrom_bare (type : TorchType) (readable : type.IsReadable) : Text.PassesFrom 0 type.bare := by
  have inBrackets {inner : List Char} (passes : Text.PassesFrom 1 inner) :
      Text.PassesFrom 0 (enclosed (some inner)) := .bracketed (.inl rfl) (.inl rfl) passes
  rw [bare_eq readable]
  refine .append (.word (isWord_head type) 0) ?_
  cases type with
  | tensor info | vtensor info =>
    rw [bareArguments?]
    split
    · exact .nil 0
    · exact inBrackets info.passesFrom_text
  | list element => exact inBrackets ((passesFrom_bare element readable.inList).deeper (by decide))
  | optional element => exact inBrackets ((passesFrom_bare element readable.inOptional).deeper (by decide))
  | tuple elements =>
    refine inBrackets (.intercalate fun part member => ?_)
    obtain ⟨element, among, rfl⟩ := List.mem_map.mp member
    exact passesFrom_bare element (readable.element among)
  | dict key value =>
    exact inBrackets (.intercalate (List.forall_mem_cons.2 ⟨passesFrom_bare key readable.key,
      List.forall_mem_singleton.2 (passesFrom_bare value readable.value)⟩))
  | nnModule className =>
    refine inBrackets ((Text.PassesFrom.quoted fun member => ?_).deeper (by decide))
    exact (readable.classNames className List.mem_cons_self _ member).2 rfl
  | _ => exact .nil 0

/-- A text is told apart into the name and the arguments in front of the closing bracket. -/
theorem nameAndRest_bare {type : TorchType} (readable : type.IsReadable) :
    nameAndRest type.bare = (type.head.toList, type.bareArguments?.map (· ++ ['>'])) := by
  have word : ∀ c ∈ type.head.toList, (c ≠ '<' : Bool) = true := by
    intro c member
    have isPlain := (isWord_head type c member).1
    rw [decide_eq_true_iff]
    rintro rfl
    cases isPlain
  have name : (type.head.toList ++ enclosed type.bareArguments?).takeWhile (· ≠ '<') = type.head.toList := by
    rw [List.takeWhile_append_of_pos word]
    cases type.bareArguments? with
    | none => simp [enclosed]
    | some inner => simp [enclosed]
  rw [bare_eq readable, nameAndRest, name, List.drop_left]
  cases type.bareArguments? <;> rfl

theorem bare_ne_nil {type : TorchType} (readable : type.IsReadable) : type.bare ≠ [] := by
  rw [bare_eq readable]
  cases type <;> simp [head]

/-- The texts of types are told apart at the commas between them. -/
theorem splitTopLevel_bare {types : List TorchType} (readable : ∀ type ∈ types, type.IsReadable) :
    Text.splitTopLevel ([','].intercalate (types.map bare)) = types.map bare := by
  refine Text.splitTopLevel_intercalate fun part member => ?_
  obtain ⟨type, among, rfl⟩ := List.mem_map.mp member
  exact ⟨passesFrom_bare type (readable type among), bare_ne_nil (readable type among)⟩

/-- The dialect's name does not stand in front of a type inside of a container. -/
theorem afterPrefix?_bare {type : TorchType} (readable : type.IsReadable) :
    Text.afterPrefix? "!torch.".toList type.bare = Option.none := by
  rw [bare_eq readable]
  cases type <;> simp [head, Text.afterPrefix?]

/-- What a type holds has a shorter text. -/
theorem length_lt_of_bareArguments? {type : TorchType} (readable : type.IsReadable) {inner : List Char}
    (isInner : type.bareArguments? = some inner) : inner.length < type.bare.length := by
  rw [bare_eq readable, isInner]
  simp [enclosed]
  omega

theorem readClassName_quoted (className : String) (solid : ∀ c ∈ className.toList, Text.isBlank c = false) :
    readClassName ('"' :: className.toList ++ ['"']) = .ok (.nnModule className) := by
  have whole : Text.withoutBlanks ('"' :: className.toList ++ ['"']) = '"' :: className.toList ++ ['"'] := by
    rw [Text.withoutBlanks_append, Text.withoutBlanks_cons rfl, Text.withoutBlanks_eq_self solid]
    rfl
  have trimmed := Text.trimmed_withoutBlanks ('"' :: className.toList ++ ['"'])
  rw [whole] at trimmed
  rw [readClassName, trimmed]
  simp [Text.afterPrefix?]

/-- A type is read back from its bare text, whether or not the dialect's name stands in front of it. By induction on the
fuel: what a type holds has a shorter text, so that there is fuel enough for it. -/
theorem readShort_eq_ok {fuel : Nat} {type : TorchType} (readable : type.IsReadable) {whole : List Char}
    (solid : Text.trimmed whole = whole)
    (short : (Text.afterPrefix? "!torch.".toList whole).getD whole = type.bare)
    (enough : type.bare.length < fuel) : readShort fuel whole = .ok type := by
  induction fuel generalizing type whole with
  | zero => exact absurd enough (Nat.not_lt_zero _)
  | succ fuel ih =>
    -- Every type between the angle brackets is shorter than the whole, and the dialect's name is not in front of it.
    have inside {arguments : List Char} (areArguments : type.bareArguments? = some arguments) {element : TorchType}
        (elementReadable : element.IsReadable) (fits : element.bare.length ≤ arguments.length) :
        readShort fuel element.bare = .ok element := by
      have shorter := length_lt_of_bareArguments? readable areArguments
      have bareShort := congrArg (·.getD element.bare) (afterPrefix?_bare elementReadable)
      exact ih elementReadable (Text.trimmed_withoutBlanks _) bareShort (by omega)
    have cut := nameAndRest_bare readable
    rw [readShort]
    simp only [solid, short, cut]
    cases type with
    | tensor info | vtensor info =>
      cases known : info.isUnknown with
      | true =>
        obtain rfl := TensorInfo.eq_of_isUnknown known
        simp only [bareArguments?, known, if_true, Option.map_none, head, String.ofList_toList]
        rfl
      | false =>
        have isInfo := TensorInfo.read_text readable.knownSizes
        simp only [bareArguments?, known, Bool.false_eq_true, if_false, Option.map_some, head,
          Text.beforeLast?_concat, String.ofList_toList, isInfo]
        rfl
    | list element =>
      have isElement := inside rfl readable.inList le_rfl
      simp only [bareArguments?, Option.map_some, head, Text.beforeLast?_concat, String.ofList_toList, isElement]
      rfl
    | optional element =>
      have isElement := inside rfl readable.inOptional le_rfl
      simp only [bareArguments?, Option.map_some, head, Text.beforeLast?_concat, String.ofList_toList, isElement]
      rfl
    | tuple elements =>
      have parts := splitTopLevel_bare fun element among => readable.element among
      have areElements : (elements.map bare).mapM (readShort fuel) = .ok elements :=
        mapM_map_eq_ok fun element among => inside rfl (readable.element among)
          (Text.length_le_length_intercalate (List.mem_map_of_mem among))
      simp only [bareArguments?, Option.map_some, head, Text.beforeLast?_concat, String.ofList_toList, parts,
        areElements]
      rfl
    | dict key value =>
      have parts : Text.splitTopLevel ([','].intercalate [key.bare, value.bare]) = [key.bare, value.bare] :=
        splitTopLevel_bare (List.forall_mem_cons.2 ⟨readable.key, List.forall_mem_singleton.2 readable.value⟩)
      have isKey := inside rfl readable.key (Text.length_le_length_intercalate (by simp))
      have isValue := inside rfl readable.value (Text.length_le_length_intercalate (by simp))
      simp only [bareArguments?, Option.map_some, head, Text.beforeLast?_concat, String.ofList_toList, parts, isKey,
        isValue]
      rfl
    | nnModule className =>
      simp only [bareArguments?, Option.map_some, head, Text.beforeLast?_concat, String.ofList_toList]
      exact readClassName_quoted className fun c member =>
        (readable.classNames className List.mem_cons_self c member).1
    | _ =>
      simp only [bareArguments?, Option.map_none, head, String.ofList_toList]
      rfl

/-- A torch type is read back from its text. -/
theorem read_text_eq_ok {type : TorchType} (readable : type.IsReadable) : read type.text.toList = .ok type := by
  -- White space is only written inside of the type, not in the dialect's name.
  have opening : Text.withoutBlanks type.text.toList = "!torch.".toList ++ type.bare := by
    rw [text, String.toList_append, Text.withoutBlanks_append, Text.withoutBlanks_eq_self (by simp [Text.isBlank])]
    rfl
  have solid := Text.trimmed_withoutBlanks type.text.toList
  rw [opening] at solid
  rw [read]
  simp only [opening, Text.afterPrefix?_append]
  refine readShort_eq_ok readable solid (by rw [Text.afterPrefix?_append]; rfl) ?_
  rw [List.length_append]
  omega

/-- Brackets and commas in the name of a class, a quantized kind of element and an empty tuple, inside of containers. -/
def entangled : TorchType :=
  .dict .str (.tuple [.nnModule "a<b,[c", .list (.vtensor ⟨some [some (-3), Option.none], some .qint8⟩), .tuple []])

theorem read_text_eq_ok_entangled : entangled.IsReadable ∧ read entangled.text.toList = .ok entangled := by
  have readable : entangled.IsReadable :=
    ⟨by simp [entangled, classNames, classNamesEach, Text.isBlank],
      by simp [entangled, knownSizes, knownSizesEach, TensorInfo.knownSizes, Number.minInt64, Number.maxInt64,
        List.reduceOption]⟩
  exact ⟨readable, read_text_eq_ok readable⟩

end TorchType

end TensorIR
