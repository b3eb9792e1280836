import Mathlib.Data.List.Forall2
import TensorIR.Type.Torch

/-!
# The order of types

What is known about a tensor is ordered by how much it is, and with it the torch types are. The order
is reflexive and transitive, and the most precise type known from two of them lies below both. The order of
containers follows that of what they contain, position by position, and so does the question whether two of them can
be compared.

## Main definitions

* `TorchType.Apart` — neither of two types lies below the other

## Main results

* `TensorInfo.isSubtype_trans`, `TensorInfo.isSubtype_of_meet?` — what is known about tensors
* `TorchType.isSubtype_refl`, `TorchType.isSubtype_trans` — the order of torch types
* `TorchType.isSubtype_preorder` — the two laws together
* `TorchType.isSubtype_of_meet?` — the meet lies below both types
* `TorchType.isSubtype_tuple_iff_forall₂` — what lies below a tuple
* `TorchType.apart_tuples`, `TorchType.apart_unwrap` — types that are apart because of what they contain
-/

namespace TensorIR

/-! ### What is known about tensors -/

namespace TensorInfo

section Knowledge

variable {α : Type} [DecidableEq α]

@[simp]
theorem isSubtypeOption_none (known : Option α) : isSubtypeOption known none = true := by
  cases known <;> rfl

@[simp]
theorem isSubtypeOption_some (known : Option α) (value : α) :
    isSubtypeOption known (some value) = true ↔ known = some value := by
  cases known <;> simp [isSubtypeOption]

theorem isSubtypeOption_refl (known : Option α) : isSubtypeOption known known = true := by
  cases known <;> simp

theorem isSubtypeOption_trans {first second third : Option α}
    (below : isSubtypeOption first second = true) (above : isSubtypeOption second third = true) :
    isSubtypeOption first third = true := by
  cases third with
  | none => simp
  | some value =>
    rw [isSubtypeOption_some] at above
    rwa [above] at below

theorem isSubtypeOption_of_meetOption? {first second both : Option α}
    (met : meetOption? first second = some both) :
    isSubtypeOption both first = true ∧ isSubtypeOption both second = true := by
  cases first with
  | none =>
    cases met
    simp [isSubtypeOption_refl]
  | some value =>
    cases second with
    | none =>
      cases met
      simp
    | some other =>
      simp only [meetOption?, Option.ite_none_right_eq_some, Option.some.injEq] at met
      obtain ⟨rfl, rfl⟩ := met
      simp

end Knowledge

/-- One list of sizes knows at least as much as another, position by position. -/
theorem isSubtypeSizes_some_iff (known : Option (List (Option Int))) (sizes : List (Option Int)) :
    isSubtypeSizes known (some sizes) = true ↔
      ∃ more, known = some more ∧ List.Forall₂ (fun a b => isSubtypeOption a b = true) more sizes := by
  cases known with
  | none => simp [isSubtypeSizes]
  | some more =>
    simp only [isSubtypeSizes, Bool.and_eq_true, beq_iff_eq, List.all_eq_true, Option.some.injEq,
      exists_eq_left', List.forall₂_iff_zip, Prod.forall]

theorem isSubtypeSizes_none (known : Option (List (Option Int))) : isSubtypeSizes known none = true := by
  cases known <;> rfl

theorem isSubtypeSizes_refl (known : Option (List (Option Int))) : isSubtypeSizes known known = true := by
  cases known with
  | none => rfl
  | some sizes =>
    exact (isSubtypeSizes_some_iff _ _).mpr ⟨sizes, rfl, List.forall₂_same.mpr fun size _ =>
      isSubtypeOption_refl size⟩

theorem forall₂_isSubtypeOption_trans {first second third : List (Option Int)}
    (below : List.Forall₂ (fun a b => isSubtypeOption a b = true) first second)
    (above : List.Forall₂ (fun a b => isSubtypeOption a b = true) second third) :
    List.Forall₂ (fun a b => isSubtypeOption a b = true) first third := by
  induction below generalizing third with
  | nil =>
    cases above
    exact .nil
  | cons head _ ih =>
    cases above with
    | cons next later => exact .cons (isSubtypeOption_trans head next) (ih later)

theorem isSubtypeSizes_trans {first second third : Option (List (Option Int))}
    (below : isSubtypeSizes first second = true) (above : isSubtypeSizes second third = true) :
    isSubtypeSizes first third = true := by
  cases third with
  | none => exact isSubtypeSizes_none first
  | some sizes =>
    obtain ⟨more, rfl, later⟩ := (isSubtypeSizes_some_iff _ _).mp above
    obtain ⟨most, rfl, earlier⟩ := (isSubtypeSizes_some_iff _ _).mp below
    exact (isSubtypeSizes_some_iff _ _).mpr ⟨most, rfl, forall₂_isSubtypeOption_trans earlier later⟩

/-- Sizes that are put together position by position are at least those of both lists. -/
theorem forall₂_of_mapM_meetOption? {first second both : List (Option Int)}
    (length_eq : first.length = second.length)
    (met : ((first.zip second).mapM fun pair => meetOption? pair.1 pair.2) = some both) :
    List.Forall₂ (fun a b => isSubtypeOption a b = true) both first ∧
      List.Forall₂ (fun a b => isSubtypeOption a b = true) both second := by
  induction first generalizing second both with
  | nil =>
    cases List.eq_nil_of_length_eq_zero length_eq.symm
    cases met
    exact ⟨.nil, .nil⟩
  | cons size sizes ih =>
    cases second with
    | nil => cases length_eq
    | cons other others =>
      simp only [List.zip_cons_cons, List.mapM_cons, Option.bind_eq_bind, Option.bind_eq_some_iff,
        Option.pure_def, Option.some.injEq] at met
      obtain ⟨head, metHead, rest, metRest, rfl⟩ := met
      obtain ⟨headFirst, headSecond⟩ := isSubtypeOption_of_meetOption? metHead
      obtain ⟨restFirst, restSecond⟩ := ih (Nat.succ.inj length_eq) metRest
      exact ⟨.cons headFirst restFirst, .cons headSecond restSecond⟩

theorem isSubtypeSizes_of_meetSizes? {first second both : Option (List (Option Int))}
    (met : meetSizes? first second = some both) :
    isSubtypeSizes both first = true ∧ isSubtypeSizes both second = true := by
  cases first with
  | none =>
    cases met
    exact ⟨isSubtypeSizes_none _, isSubtypeSizes_refl _⟩
  | some sizes =>
    cases second with
    | none =>
      cases met
      exact ⟨isSubtypeSizes_refl _, isSubtypeSizes_none _⟩
    | some others =>
      simp only [meetSizes?, ne_eq, ite_not, Option.ite_none_right_eq_some, Option.map_eq_some_iff] at met
      obtain ⟨length_eq, met, isMet, rfl⟩ := met
      obtain ⟨first, second⟩ := forall₂_of_mapM_meetOption? length_eq isMet
      exact ⟨(isSubtypeSizes_some_iff _ _).mpr ⟨met, rfl, first⟩,
        (isSubtypeSizes_some_iff _ _).mpr ⟨met, rfl, second⟩⟩

theorem isSubtype_refl (info : TensorInfo) : info.isSubtype info = true := by
  simp [isSubtype, isSubtypeSizes_refl, isSubtypeOption_refl]

theorem isSubtype_trans {first second third : TensorInfo} (below : first.isSubtype second = true)
    (above : second.isSubtype third = true) : first.isSubtype third = true := by
  rw [isSubtype, Bool.and_eq_true] at below above ⊢
  exact ⟨isSubtypeSizes_trans below.1 above.1, isSubtypeOption_trans below.2 above.2⟩

/-- What both say together is at least what each of them says. -/
theorem isSubtype_of_meet? {first second both : TensorInfo} (met : first.meet? second = some both) :
    both.isSubtype first = true ∧ both.isSubtype second = true := by
  simp only [meet?, Option.bind_eq_bind, Option.bind_eq_some_iff, Option.pure_def, Option.some.injEq] at met
  obtain ⟨sizes, metSizes, dtype, metDtype, rfl⟩ := met
  obtain ⟨sizesFirst, sizesSecond⟩ := isSubtypeSizes_of_meetSizes? metSizes
  obtain ⟨dtypeFirst, dtypeSecond⟩ := isSubtypeOption_of_meetOption? metDtype
  simp [isSubtype, sizesFirst, sizesSecond, dtypeFirst, dtypeSecond]

end TensorInfo

/-! ### Torch types -/

namespace TorchType

attribute [simp] isSubtype isSubtypeEach

@[simp]
theorem same_self (type : TorchType) : same type type = true :=
  (same_iff type type).mpr rfl

theorem isSubtype_refl (type : TorchType) : type.isSubtype type = true := by
  cases type <;> simp [isSubtype]

theorem isSubtype_any (type : TorchType) : type.isSubtype .any = true := by
  rw [isSubtype]

theorem isSubtype_vtensor_iff {type : TorchType} {info : TensorInfo} :
    type.isSubtype (.vtensor info) = true ↔ ∃ known, type = .vtensor known ∧ known.isSubtype info = true := by
  cases type <;> simp [same_iff]
  rintro rfl
  exact TensorInfo.isSubtype_refl _

theorem isSubtype_tensor_iff {type : TorchType} {info : TensorInfo} :
    type.isSubtype (.tensor info) = true ↔ ∃ known, type = .tensor known ∧ known.isSubtype info = true := by
  cases type <;> simp [same_iff]
  rintro rfl
  exact TensorInfo.isSubtype_refl _

theorem isSubtype_list_iff {type element : TorchType} :
    type.isSubtype (.list element) = true ↔
      ∃ other, type = .list other ∧ other.isSubtype element = true := by
  cases type <;> simp [same_iff]
  rintro rfl
  exact isSubtype_refl _

theorem isSubtypeEach_refl (types : List TorchType) : isSubtypeEach types types = true := by
  induction types with
  | nil => rfl
  | cons type types ih => simp [isSubtypeEach, isSubtype_refl, ih]

theorem isSubtype_tuple_iff {type : TorchType} {elements : List TorchType} :
    type.isSubtype (.tuple elements) = true ↔ ∃ others, type = .tuple others ∧
      others.length = elements.length ∧ isSubtypeEach others elements = true := by
  cases type <;> simp [same_iff]
  rintro rfl
  exact ⟨rfl, isSubtypeEach_refl _⟩

theorem isSubtype_dict_iff {type key value : TorchType} :
    type.isSubtype (.dict key value) = true ↔ ∃ otherKey otherValue, type = .dict otherKey otherValue ∧
      otherKey.isSubtype key = true ∧ otherValue.isSubtype value = true := by
  cases type <;> simp [same_iff]
  rintro rfl rfl
  exact ⟨isSubtype_refl _, isSubtype_refl _⟩

/-- The type allows that there is no value. -/
def isOptional : TorchType → Bool
  | .none | .optional _ => true
  | _ => false

theorem isSubtype_optional_iff {type element : TorchType} :
    type.isSubtype (.optional element) = true ↔ type = .none ∨
      (∃ other, type = .optional other ∧ other.isSubtype element = true) ∨
      type.isOptional = false ∧ type.isSubtype element = true := by
  cases type <;> simp [same, isOptional, same_iff]
  rintro rfl
  exact isSubtype_refl _

theorem eq_any_of_optional {inner type : TorchType} (below : (optional inner).isSubtype type = true)
    (plain : type.isOptional = false) : type = .any := by
  cases type <;> simp [isSubtype, same, isOptional] at below plain ⊢

mutual

/-- By induction on the largest type. What lies below an optional type may itself be optional, so the
type in the middle can be unwrapped while the largest one stays. -/
theorem isSubtype_trans_of : (third : TorchType) → ∀ {first second : TorchType},
    first.isSubtype second = true → second.isSubtype third = true → first.isSubtype third = true
  | .any, first, _, _, _ => isSubtype_any first
  | .vtensor info, first, second, below, above => by
    obtain ⟨more, rfl, above⟩ := isSubtype_vtensor_iff.mp above
    obtain ⟨most, rfl, below⟩ := isSubtype_vtensor_iff.mp below
    exact isSubtype_vtensor_iff.mpr ⟨most, rfl, TensorInfo.isSubtype_trans ‹_› ‹_›⟩
  | .tensor info, first, second, below, above => by
    obtain ⟨more, rfl, above⟩ := isSubtype_tensor_iff.mp above
    obtain ⟨most, rfl, below⟩ := isSubtype_tensor_iff.mp below
    exact isSubtype_tensor_iff.mpr ⟨most, rfl, TensorInfo.isSubtype_trans ‹_› ‹_›⟩
  | .list element, first, second, below, above => by
    obtain ⟨more, rfl, above⟩ := isSubtype_list_iff.mp above
    obtain ⟨most, rfl, below⟩ := isSubtype_list_iff.mp below
    exact isSubtype_list_iff.mpr ⟨most, rfl, isSubtype_trans_of element ‹_› ‹_›⟩
  | .tuple elements, first, second, below, above => by
    obtain ⟨more, rfl, others, above⟩ := isSubtype_tuple_iff.mp above
    obtain ⟨most, rfl, lengths, below⟩ := isSubtype_tuple_iff.mp below
    exact isSubtype_tuple_iff.mpr ⟨most, rfl, lengths.trans others,
      isSubtypeEach_trans_of elements lengths others ‹_› ‹_›⟩
  | .dict key value, first, second, below, above => by
    obtain ⟨moreKey, moreValue, rfl, keys, values⟩ := isSubtype_dict_iff.mp above
    obtain ⟨mostKey, mostValue, rfl, firstKeys, firstValues⟩ := isSubtype_dict_iff.mp below
    exact isSubtype_dict_iff.mpr ⟨mostKey, mostValue, rfl, isSubtype_trans_of key firstKeys keys,
      isSubtype_trans_of value firstValues values⟩
  | .optional element, first, second, below, above => by
    rw [isSubtype_optional_iff] at above ⊢
    rcases above with rfl | ⟨other, rfl, above⟩ | ⟨plain, above⟩
    · simp only [isSubtype, same_iff] at below
      exact .inl below
    · refine (isSubtype_optional_iff.mp below).imp_right (Or.imp ?_ ?_)
      · rintro ⟨inner, rfl, inside⟩
        exact ⟨inner, rfl, isSubtype_trans_of element inside above⟩
      · rintro ⟨plain, inside⟩
        exact ⟨plain, isSubtype_trans_of element inside above⟩
    · cases first with
      | none => exact .inl rfl
      | optional inner =>
        -- Below a type that is not optional, an optional type is only found if that is any type.
        obtain rfl : second = .any := eq_any_of_optional below plain
        exact .inr (.inl ⟨inner, rfl, isSubtype_trans_of element (isSubtype_any inner) above⟩)
      | _ => exact .inr (.inr ⟨rfl, isSubtype_trans_of element below above⟩)
  | .none, first, second, below, above | .bool, first, second, below, above
  | .int, first, second, below, above | .float, first, second, below, above
  | .str, first, second, below, above | .device, first, second, below, above
  | .generator, first, second, below, above | .linearParams, first, second, below, above
  | .nnModule _, first, second, below, above => by
    simp only [isSubtype, same_iff] at above
    exact above ▸ below

theorem isSubtypeEach_trans_of : (third : List TorchType) → ∀ {first second : List TorchType},
    first.length = second.length → second.length = third.length →
    isSubtypeEach first second = true → isSubtypeEach second third = true →
    isSubtypeEach first third = true
  | [], _, _, _, _, _, _ => rfl
  | type :: types, first, second, lengths, others, below, above => by
    obtain ⟨two, twos, rfl⟩ := List.exists_cons_of_length_eq_add_one others
    obtain ⟨one, ones, rfl⟩ := List.exists_cons_of_length_eq_add_one lengths
    rw [isSubtypeEach, Bool.and_eq_true] at below above ⊢
    exact ⟨isSubtype_trans_of type below.1 above.1,
      isSubtypeEach_trans_of types (Nat.succ.inj lengths) (Nat.succ.inj others) below.2 above.2⟩

end

theorem isSubtype_trans {first second third : TorchType} (below : first.isSubtype second = true)
    (above : second.isSubtype third = true) : first.isSubtype third = true :=
  isSubtype_trans_of third below above

/-- An optional type lies above the type that it makes optional. -/
theorem isSubtype_optional_self : (type : TorchType) → type.isSubtype (.optional type) = true
  | .none => isSubtype_optional_iff.mpr (.inl rfl)
  | .optional element =>
    isSubtype_optional_iff.mpr (.inr (.inl ⟨element, rfl, isSubtype_optional_self element⟩))
  | .bool | .int | .float | .str | .device | .generator | .linearParams | .any | .tensor _ | .vtensor _
  | .list _ | .tuple _ | .dict _ _ | .nnModule _ =>
    isSubtype_optional_iff.mpr (.inr (.inr ⟨rfl, isSubtype_refl _⟩))

mutual

/-- The most precise type known from two types lies below both. -/
theorem isSubtype_of_meet? {first second both : TorchType} (met : first.meet? second = some both) :
    both.isSubtype first = true ∧ both.isSubtype second = true := by
  -- One case for each branch of the meet. Inside of other types it is the meet again.
  rw [meet?.eq_def] at met
  split at met
  case isTrue below =>
    cases met
    exact ⟨isSubtype_refl _, below⟩
  split at met
  case isTrue below =>
    cases met
    exact ⟨below, isSubtype_refl _⟩
  split at met
  case h_1 =>
    obtain ⟨info, known, rfl⟩ := Option.map_eq_some_iff.mp met
    obtain ⟨first, second⟩ := TensorInfo.isSubtype_of_meet? known
    exact ⟨isSubtype_vtensor_iff.mpr ⟨info, rfl, first⟩, isSubtype_vtensor_iff.mpr ⟨info, rfl, second⟩⟩
  case h_2 =>
    obtain ⟨info, known, rfl⟩ := Option.map_eq_some_iff.mp met
    obtain ⟨first, second⟩ := TensorInfo.isSubtype_of_meet? known
    exact ⟨isSubtype_tensor_iff.mpr ⟨info, rfl, first⟩, isSubtype_tensor_iff.mpr ⟨info, rfl, second⟩⟩
  case h_3 =>
    obtain ⟨inner, known, rfl⟩ := Option.map_eq_some_iff.mp met
    obtain ⟨first, second⟩ := isSubtype_of_meet? known
    exact ⟨isSubtype_optional_iff.mpr (.inr (.inl ⟨inner, rfl, first⟩)),
      isSubtype_optional_iff.mpr (.inr (.inl ⟨inner, rfl, second⟩))⟩
  case h_4 =>
    obtain ⟨first, second⟩ := isSubtype_of_meet? met
    exact ⟨isSubtype_trans first (isSubtype_optional_self _), second⟩
  case h_5 =>
    obtain ⟨second, first⟩ := isSubtype_of_meet? met
    exact ⟨first, isSubtype_trans second (isSubtype_optional_self _)⟩
  case h_6 =>
    obtain ⟨inner, known, rfl⟩ := Option.map_eq_some_iff.mp met
    obtain ⟨first, second⟩ := isSubtype_of_meet? known
    exact ⟨isSubtype_list_iff.mpr ⟨inner, rfl, first⟩, isSubtype_list_iff.mpr ⟨inner, rfl, second⟩⟩
  case h_7 =>
    split at met
    case isTrue length_eq =>
      obtain ⟨elements, known, rfl⟩ := Option.map_eq_some_iff.mp met
      obtain ⟨lengths, first, second⟩ := isSubtypeEach_of_meetEach? length_eq known
      exact ⟨isSubtype_tuple_iff.mpr ⟨elements, rfl, lengths, first⟩,
        isSubtype_tuple_iff.mpr ⟨elements, rfl, lengths.trans length_eq, second⟩⟩
    case isFalse => cases met
  case h_8 => cases met
termination_by sizeOf first + sizeOf second

theorem isSubtypeEach_of_meetEach? {first second both : List TorchType}
    (length_eq : first.length = second.length) (met : meetEach? first second = some both) :
    both.length = first.length ∧ isSubtypeEach both first = true ∧ isSubtypeEach both second = true := by
  rw [meetEach?.eq_def] at met
  split at met
  case h_1 one ones two twos =>
    split at met
    case h_1 head metHead =>
      obtain ⟨rest, metRest, rfl⟩ := Option.map_eq_some_iff.mp met
      obtain ⟨headFirst, headSecond⟩ := isSubtype_of_meet? metHead
      obtain ⟨lengths, restFirst, restSecond⟩ :=
        isSubtypeEach_of_meetEach? (Nat.succ.inj length_eq) metRest
      simp [isSubtypeEach, headFirst, headSecond, restFirst, restSecond, lengths]
    case h_2 => cases met
  case h_2 other =>
    cases met
    cases first with
    | nil =>
      cases List.eq_nil_of_length_eq_zero length_eq.symm
      exact ⟨rfl, rfl, rfl⟩
    | cons one ones =>
      obtain ⟨two, twos, rfl⟩ := List.exists_cons_of_length_eq_add_one length_eq.symm
      exact absurd rfl (other one ones two twos rfl)
termination_by sizeOf first + sizeOf second

end

/-! ### The preorder -/

/-- Every type lies below itself, and a type below another one lies below everything above that. -/
theorem isSubtype_preorder (first second third : TorchType) :
    first.isSubtype first = true ∧
      (first.isSubtype second = true → second.isSubtype third = true →
        first.isSubtype third = true) := by
  constructor
  · exact isSubtype_refl first
  · intro below above
    exact isSubtype_trans below above

/-- A list of optional tensors lies below any type, which lies below a twice optional one. -/
theorem isSubtype_preorder_through_any :
    (list (optional (vtensor ⟨some [some 2], some .f32⟩))).isSubtype any = true ∧
      any.isSubtype (optional (optional any)) = true ∧
      (list (optional (vtensor ⟨some [some 2], some .f32⟩))).isSubtype (optional (optional any)) =
        true := by
  have below : (list (optional (vtensor ⟨some [some 2], some .f32⟩))).isSubtype any = true := rfl
  have above : any.isSubtype (optional (optional any)) = true := by
    simp [isSubtype]
  exact ⟨below, above, (isSubtype_preorder _ any _).2 below above⟩

/-! ### The order of containers -/

theorem isSubtypeEach_iff {types others : List TorchType} (length_eq : types.length = others.length) :
    isSubtypeEach types others = true ↔
      List.Forall₂ (fun type other => type.isSubtype other = true) types others := by
  induction types generalizing others with
  | nil =>
    cases List.eq_nil_of_length_eq_zero length_eq.symm
    simp
  | cons type types ih =>
    obtain ⟨other, others, rfl⟩ := List.exists_cons_of_length_eq_add_one length_eq.symm
    rw [isSubtypeEach, Bool.and_eq_true, List.forall₂_cons, ih (Nat.succ.inj length_eq)]

theorem isSubtype_tuple_iff_forall₂ {type : TorchType} {elements : List TorchType} :
    type.isSubtype (.tuple elements) = true ↔ ∃ others, type = .tuple others ∧
      List.Forall₂ (fun other element => other.isSubtype element = true) others elements := by
  rw [isSubtype_tuple_iff]
  refine exists_congr fun others => and_congr_right fun _ => ⟨?_, ?_⟩
  · rintro ⟨length_eq, each⟩
    exact (isSubtypeEach_iff length_eq).mp each
  · intro each
    exact ⟨each.length_eq, (isSubtypeEach_iff each.length_eq).mpr each⟩

theorem isSubtype_optionals {first second : TorchType} :
    (optional first).isSubtype (.optional second) = first.isSubtype second := by
  rw [Bool.eq_iff_iff, isSubtype_optional_iff]
  simp [isOptional]

theorem isSubtype_lists {first second : TorchType} :
    (list first).isSubtype (.list second) = first.isSubtype second := by
  rw [Bool.eq_iff_iff, isSubtype_list_iff]
  simp

/-- Below an optional type, a plain type lies below the type inside. -/
theorem isSubtype_optional_of_plain {type element : TorchType} (plain : type.isOptional = false) :
    type.isSubtype (.optional element) = type.isSubtype element := by
  rw [Bool.eq_iff_iff, isSubtype_optional_iff]
  cases type <;> simp [isOptional] at plain ⊢

/-! ### Types that are not comparable -/

/-- Neither of two types lies below the other. -/
def Apart (first second : TorchType) : Prop :=
  first.isSubtype second = false ∧ second.isSubtype first = false

theorem Apart.symm {first second : TorchType} (apart : Apart first second) : Apart second first :=
  ⟨apart.2, apart.1⟩

theorem apart_optionals {first second : TorchType} :
    Apart (.optional first) (.optional second) ↔ Apart first second := by
  rw [Apart, Apart, isSubtype_optionals, isSubtype_optionals]

theorem apart_lists {first second : TorchType} : Apart (.list first) (.list second) ↔ Apart first second := by
  rw [Apart, Apart, isSubtype_lists, isSubtype_lists]

/-- Tuples are not comparable if they are not at some position. -/
theorem apart_tuples {firsts seconds : List TorchType} {first second : TorchType}
    (among : (first, second) ∈ firsts.zip seconds) (apart : Apart first second) :
    Apart (.tuple firsts) (.tuple seconds) := by
  constructor
  · refine Bool.of_not_eq_true fun below => ?_
    obtain ⟨_, same, each⟩ := isSubtype_tuple_iff_forall₂.mp below
    cases same
    exact absurd ((List.forall₂_iff_zip.mp each).2 among) (Bool.eq_false_iff.mp apart.1)
  · refine Bool.of_not_eq_true fun above => ?_
    obtain ⟨_, same, each⟩ := isSubtype_tuple_iff_forall₂.mp above
    cases same
    exact absurd ((List.forall₂_iff_zip.mp each.flip).2 among) (Bool.eq_false_iff.mp apart.2)

/-- An optional and a plain type are not comparable if the plain one is not with the type inside. -/
theorem apart_unwrap {first second : TorchType} (plain : second.isOptional = false)
    (apart : Apart first second) : Apart (.optional first) second := by
  refine ⟨Bool.of_not_eq_true fun below => ?_, ?_⟩
  · rw [eq_any_of_optional below plain, Apart, isSubtype_any] at apart
    cases apart.1
  · rw [isSubtype_optional_of_plain plain]
    exact apart.2

end TorchType

end TensorIR
