import TensorIR.Proofs.Subtyping

/-!
# Common subtypes

The most precise type known from two types lies above everything that lies below both: it is the
greatest common subtype. If nothing is known from two types together, mostly nothing lies below both.
The exceptions are two optional types, below which there is always the type of no value, and two
dictionaries, of which neither lies below the other; both may also face each other inside of lists,
tuples and optional types.

## Main definitions

* `TorchType.Compatible` — two types have a common subtype
* `TorchType.Overlooked` — two types have a common subtype, but none is known from them

## Main results

* `TensorInfo.exists_meet?` — what is known about tensors has greatest common parts
* `TorchType.meet?_isGreatest` — when the meet of two types is their greatest common subtype
-/

namespace TensorIR

/-! ### What is known about tensors -/

namespace TensorInfo

theorem exists_meetOption? {α : Type} [DecidableEq α] {known first second : Option α}
    (below : isSubtypeOption known first = true) (beside : isSubtypeOption known second = true) :
    ∃ both, meetOption? first second = some both ∧ isSubtypeOption known both = true := by
  cases first with
  | none => exact ⟨second, rfl, beside⟩
  | some value =>
    cases second with
    | none => exact ⟨some value, rfl, below⟩
    | some other =>
      rw [isSubtypeOption_some] at below beside
      obtain rfl : value = other := Option.some.inj (below.symm.trans beside)
      exact ⟨some value, if_pos rfl, (isSubtypeOption_some _ _).mpr below⟩

theorem exists_mapM_meetOption? {known first second : List (Option Int)}
    (below : List.Forall₂ (fun a b => isSubtypeOption a b = true) known first)
    (beside : List.Forall₂ (fun a b => isSubtypeOption a b = true) known second) :
    ∃ both, ((first.zip second).mapM fun pair => meetOption? pair.1 pair.2) = some both ∧
      List.Forall₂ (fun a b => isSubtypeOption a b = true) known both := by
  induction below generalizing second with
  | nil =>
    cases beside
    exact ⟨[], rfl, .nil⟩
  | cons head _ ih =>
    cases beside with
    | cons next later =>
      obtain ⟨size, met, sizeBelow⟩ := exists_meetOption? head next
      obtain ⟨sizes, metRest, restBelow⟩ := ih later
      exact ⟨size :: sizes, by simp [met, metRest], .cons sizeBelow restBelow⟩

theorem exists_meetSizes? {known first second : Option (List (Option Int))}
    (below : isSubtypeSizes known first = true) (beside : isSubtypeSizes known second = true) :
    ∃ both, meetSizes? first second = some both ∧ isSubtypeSizes known both = true := by
  cases first with
  | none => exact ⟨second, rfl, beside⟩
  | some sizes =>
    cases second with
    | none => exact ⟨some sizes, rfl, below⟩
    | some others =>
      obtain ⟨most, rfl, sizesBelow⟩ := (isSubtypeSizes_some_iff _ _).mp below
      obtain ⟨_, same, othersBelow⟩ := (isSubtypeSizes_some_iff _ _).mp beside
      cases same
      obtain ⟨both, met, bothBelow⟩ := exists_mapM_meetOption? sizesBelow othersBelow
      have length_eq : sizes.length = others.length :=
        sizesBelow.length_eq.symm.trans othersBelow.length_eq
      exact ⟨some both, by simp [meetSizes?, length_eq, met],
        (isSubtypeSizes_some_iff _ _).mpr ⟨most, rfl, bothBelow⟩⟩

/-- What is known by one who knows two things is known from these two things. -/
theorem exists_meet? {known first second : TensorInfo} (below : known.isSubtype first = true)
    (beside : known.isSubtype second = true) :
    ∃ both, first.meet? second = some both ∧ known.isSubtype both = true := by
  rw [isSubtype, Bool.and_eq_true] at below beside
  obtain ⟨sizes, metSizes, sizesBelow⟩ := exists_meetSizes? below.1 beside.1
  obtain ⟨dtype, metDtype, dtypeBelow⟩ := exists_meetOption? below.2 beside.2
  exact ⟨⟨sizes, dtype⟩, by simp [meet?, metSizes, metDtype], by simp [isSubtype, sizesBelow, dtypeBelow]⟩

end TensorInfo

/-! ### Torch types -/

namespace TorchType

/-- Some type lies below both types. -/
def Compatible (first second : TorchType) : Prop :=
  ∃ type : TorchType, type.isSubtype first = true ∧ type.isSubtype second = true

/-- Two types have a common subtype, but none is known from them. -/
inductive Overlooked : TorchType → TorchType → Prop
  /-- The type of no value lies below all optional types. -/
  | optionals {first second : TorchType} (contrary : first.meet? second = Option.none) :
    Overlooked (.optional first) (.optional second)
  /-- Dictionaries are not put together from their keys and values. -/
  | dicts {key value otherKey otherValue : TorchType} (keys : Compatible key otherKey)
    (values : Compatible value otherValue)
    (apart : Apart (.dict key value) (.dict otherKey otherValue)) :
    Overlooked (.dict key value) (.dict otherKey otherValue)
  | unwrapFirst {first second : TorchType} (plain : second.isOptional = false)
    (inside : Overlooked first second) : Overlooked (.optional first) second
  | unwrapSecond {first second : TorchType} (plain : first.isOptional = false)
    (inside : Overlooked second first) : Overlooked first (.optional second)
  | lists {first second : TorchType} (inside : Overlooked first second) :
    Overlooked (.list first) (.list second)
  | tuples {firsts seconds : List TorchType} {first second : TorchType}
    (each : List.Forall₂ Compatible firsts seconds) (among : (first, second) ∈ firsts.zip seconds)
    (inside : Overlooked first second) : Overlooked (.tuple firsts) (.tuple seconds)

/-- Below an optional and a plain type that are not comparable, everything lies below the type inside of
the optional one. -/
theorem isSubtype_inside {type element plain : TorchType} (isPlain : plain.isOptional = false)
    (notBelow : (optional element).isSubtype plain = false)
    (below : type.isSubtype (.optional element) = true) (beside : type.isSubtype plain = true) :
    type.isSubtype element = true := by
  rcases isSubtype_optional_iff.mp below with rfl | ⟨inner, rfl, _⟩ | ⟨_, inside⟩
  · cases plain <;> simp [isOptional, same] at isPlain beside notBelow
  · rw [eq_any_of_optional beside isPlain, isSubtype_any] at notBelow
    cases notBelow
  · exact inside

/-! #### What the meet is -/

section Meet

variable {first second : TorchType}

theorem meet?_of_isSubtype (below : first.isSubtype second = true) : first.meet? second = some first := by
  rw [meet?.eq_def, if_pos below]

theorem apart_of_meet?_eq_none (none : first.meet? second = Option.none) : Apart first second := by
  rw [meet?.eq_def] at none
  split at none
  · cases none
  split at none
  · cases none
  case _ below above => exact ⟨Bool.of_not_eq_true below, Bool.of_not_eq_true above⟩

theorem meet?_vtensors {info other : TensorInfo} (apart : Apart (vtensor info) (vtensor other)) :
    (vtensor info).meet? (.vtensor other) = (info.meet? other).map .vtensor := by
  rw [meet?.eq_def, apart.1, apart.2]
  rfl

theorem meet?_tensors {info other : TensorInfo} (apart : Apart (tensor info) (tensor other)) :
    (tensor info).meet? (.tensor other) = (info.meet? other).map .tensor := by
  rw [meet?.eq_def, apart.1, apart.2]
  rfl

theorem meet?_optionals (apart : Apart (optional first) (optional second)) :
    (optional first).meet? (.optional second) = (first.meet? second).map .optional := by
  rw [meet?.eq_def, apart.1, apart.2]
  rfl

theorem meet?_unwrapFirst (plain : second.isOptional = false) (apart : Apart (optional first) second) :
    (optional first).meet? second = first.meet? second := by
  rw [meet?.eq_def, apart.1, apart.2]
  cases second with
  | none | optional => cases plain
  | _ => rfl

theorem meet?_unwrapSecond (plain : first.isOptional = false) (apart : Apart first (optional second)) :
    first.meet? (.optional second) = second.meet? first := by
  rw [meet?.eq_def, apart.1, apart.2]
  cases first with
  | none | optional => cases plain
  | _ => rfl

theorem meet?_lists (apart : Apart (list first) (list second)) :
    (list first).meet? (.list second) = (first.meet? second).map .list := by
  rw [meet?.eq_def, apart.1, apart.2]
  rfl

theorem meet?_tuples {firsts seconds : List TorchType} (length_eq : firsts.length = seconds.length)
    (apart : Apart (tuple firsts) (tuple seconds)) :
    (tuple firsts).meet? (.tuple seconds) = (meetEach? firsts seconds).map .tuple := by
  rw [meet?.eq_def, apart.1, apart.2]
  exact if_pos length_eq

theorem meet?_dicts {key value otherKey otherValue : TorchType}
    (apart : Apart (dict key value) (dict otherKey otherValue)) :
    (dict key value).meet? (.dict otherKey otherValue) = Option.none := by
  rw [meet?.eq_def, apart.1, apart.2]
  rfl

theorem meetEach?_cons (firsts seconds : List TorchType) :
    meetEach? (first :: firsts) (second :: seconds) =
      (first.meet? second).bind fun both => (meetEach? firsts seconds).map (both :: ·) := by
  rw [meetEach?.eq_def]
  dsimp only
  cases first.meet? second <;> rfl

theorem meetEach?_eq_none {firsts seconds : List TorchType} (among : (first, second) ∈ firsts.zip seconds)
    (none : first.meet? second = Option.none) : meetEach? firsts seconds = Option.none := by
  induction firsts generalizing seconds with
  | nil => cases among
  | cons one ones ih =>
    cases seconds with
    | nil => cases among
    | cons two twos =>
      rw [meetEach?_cons, Option.bind_eq_none_iff]
      intro both met
      rcases List.mem_cons.mp among with same | later
      · cases same
        cases none.symm.trans met
      · rw [ih later]
        rfl

end Meet

/-! #### Common subtypes that are overlooked -/

theorem Overlooked.meet?_eq_none {first second : TorchType} (overlooked : Overlooked first second) :
    first.meet? second = Option.none := by
  induction overlooked with
  | optionals contrary =>
    rw [meet?_optionals (apart_optionals.mpr (apart_of_meet?_eq_none contrary)), contrary]
    rfl
  | dicts _ _ apart => exact meet?_dicts apart
  | unwrapFirst plain _ ih =>
    rw [meet?_unwrapFirst plain (apart_unwrap plain (apart_of_meet?_eq_none ih)), ih]
  | unwrapSecond plain _ ih =>
    rw [meet?_unwrapSecond plain (apart_unwrap plain (apart_of_meet?_eq_none ih)).symm, ih]
  | lists _ ih =>
    rw [meet?_lists (apart_lists.mpr (apart_of_meet?_eq_none ih)), ih]
    rfl
  | tuples each among _ ih =>
    rw [meet?_tuples each.length_eq (apart_tuples among (apart_of_meet?_eq_none ih)),
      meetEach?_eq_none among ih]
    rfl

/-- Common subtypes position by position. -/
theorem exists_forall₂_of_compatible {firsts seconds : List TorchType}
    (each : List.Forall₂ Compatible firsts seconds) : ∃ types : List TorchType,
      List.Forall₂ (fun type first => type.isSubtype first = true) types firsts ∧
      List.Forall₂ (fun type second => type.isSubtype second = true) types seconds := by
  induction each with
  | nil => exact ⟨[], .nil, .nil⟩
  | cons head _ ih =>
    obtain ⟨type, below, beside⟩ := head
    obtain ⟨types, eachBelow, eachBeside⟩ := ih
    exact ⟨type :: types, .cons below eachBelow, .cons beside eachBeside⟩

theorem Overlooked.compatible {first second : TorchType} (overlooked : Overlooked first second) :
    Compatible first second := by
  induction overlooked with
  | optionals =>
    exact ⟨.none, isSubtype_optional_iff.mpr (.inl rfl), isSubtype_optional_iff.mpr (.inl rfl)⟩
  | dicts keys values =>
    obtain ⟨key, keyFirst, keySecond⟩ := keys
    obtain ⟨value, valueFirst, valueSecond⟩ := values
    exact ⟨.dict key value, isSubtype_dict_iff.mpr ⟨key, value, rfl, keyFirst, valueFirst⟩,
      isSubtype_dict_iff.mpr ⟨key, value, rfl, keySecond, valueSecond⟩⟩
  | unwrapFirst _ _ ih =>
    obtain ⟨type, below, beside⟩ := ih
    exact ⟨type, isSubtype_trans below (isSubtype_optional_self _), beside⟩
  | unwrapSecond _ _ ih =>
    obtain ⟨type, beside, below⟩ := ih
    exact ⟨type, below, isSubtype_trans beside (isSubtype_optional_self _)⟩
  | lists _ ih =>
    obtain ⟨type, below, beside⟩ := ih
    exact ⟨.list type, by rwa [isSubtype_lists], by rwa [isSubtype_lists]⟩
  | tuples each =>
    obtain ⟨types, below, beside⟩ := exists_forall₂_of_compatible each
    exact ⟨.tuple types, isSubtype_tuple_iff_forall₂.mpr ⟨types, rfl, below⟩,
      isSubtype_tuple_iff_forall₂.mpr ⟨types, rfl, beside⟩⟩

/-! #### Greatest common subtypes -/

/-- A common subtype of two types lies below what is known from them, or they are overlooked. -/
def Reaches (type first second : TorchType) : Prop :=
  (∃ both, first.meet? second = some both ∧ type.isSubtype both = true) ∨ Overlooked first second

theorem reaches_optionals {type first second : TorchType}
    (inside : ∀ inner : TorchType, inner.isSubtype first = true → inner.isSubtype second = true →
      Reaches inner first second)
    (apart : Apart (optional first) (optional second))
    (below : type.isSubtype (.optional first) = true) (beside : type.isSubtype (.optional second) = true) :
    Reaches type (.optional first) (.optional second) := by
  cases met : first.meet? second with
  | none => exact .inr (.optionals met)
  | some both =>
    have within {inner : TorchType} (below : inner.isSubtype first = true)
        (beside : inner.isSubtype second = true) : inner.isSubtype both = true := by
      rcases inside inner below beside with ⟨_, same, below⟩ | overlooked
      · cases met.symm.trans same
        exact below
      · cases met.symm.trans overlooked.meet?_eq_none
    refine .inl ⟨.optional both, by rw [meet?_optionals apart, met]; rfl, ?_⟩
    rcases isSubtype_optional_iff.mp below with rfl | ⟨inner, rfl, inBelow⟩ | ⟨plain, inBelow⟩
    · exact isSubtype_optional_iff.mpr (.inl rfl)
    · rw [isSubtype_optionals] at beside ⊢
      exact within inBelow beside
    · rw [isSubtype_optional_of_plain plain] at beside ⊢
      exact within inBelow beside

theorem reaches_unwrapFirst {type first second : TorchType}
    (inside : type.isSubtype first = true → type.isSubtype second = true → Reaches type first second)
    (plain : second.isOptional = false) (apart : Apart (optional first) second)
    (below : type.isSubtype (.optional first) = true) (beside : type.isSubtype second = true) :
    Reaches type (.optional first) second := by
  rcases inside (isSubtype_inside plain apart.1 below beside) beside with ⟨both, met, within⟩ | overlooked
  · exact .inl ⟨both, (meet?_unwrapFirst plain apart).trans met, within⟩
  · exact .inr (.unwrapFirst plain overlooked)

theorem reaches_unwrapSecond {type first second : TorchType}
    (inside : type.isSubtype second = true → type.isSubtype first = true → Reaches type second first)
    (plain : first.isOptional = false) (apart : Apart first (optional second))
    (below : type.isSubtype first = true) (beside : type.isSubtype (.optional second) = true) :
    Reaches type first (.optional second) := by
  rcases inside (isSubtype_inside plain apart.2 beside below) below with ⟨both, met, within⟩ | overlooked
  · exact .inl ⟨both, (meet?_unwrapSecond plain apart).trans met, within⟩
  · exact .inr (.unwrapSecond plain overlooked)

theorem compatible_each {types firsts seconds : List TorchType}
    (below : List.Forall₂ (fun type first => type.isSubtype first = true) types firsts)
    (beside : List.Forall₂ (fun type second => type.isSubtype second = true) types seconds) :
    List.Forall₂ Compatible firsts seconds := by
  induction below generalizing seconds with
  | nil =>
    cases beside
    exact .nil
  | cons head _ ih =>
    cases beside with
    | cons next later => exact .cons ⟨_, head, next⟩ (ih later)

theorem reaches_vtensors {type : TorchType} {info other : TensorInfo}
    (apart : Apart (vtensor info) (vtensor other)) (below : type.isSubtype (.vtensor info) = true)
    (beside : type.isSubtype (.vtensor other) = true) : Reaches type (.vtensor info) (.vtensor other) := by
  obtain ⟨known, rfl, more⟩ := isSubtype_vtensor_iff.mp below
  obtain ⟨_, same, most⟩ := isSubtype_vtensor_iff.mp beside
  cases same
  obtain ⟨both, met, within⟩ := TensorInfo.exists_meet? more most
  exact .inl ⟨.vtensor both, by rw [meet?_vtensors apart, met]; rfl,
    isSubtype_vtensor_iff.mpr ⟨known, rfl, within⟩⟩

theorem reaches_tensors {type : TorchType} {info other : TensorInfo}
    (apart : Apart (tensor info) (tensor other)) (below : type.isSubtype (.tensor info) = true)
    (beside : type.isSubtype (.tensor other) = true) : Reaches type (.tensor info) (.tensor other) := by
  obtain ⟨known, rfl, more⟩ := isSubtype_tensor_iff.mp below
  obtain ⟨_, same, most⟩ := isSubtype_tensor_iff.mp beside
  cases same
  obtain ⟨both, met, within⟩ := TensorInfo.exists_meet? more most
  exact .inl ⟨.tensor both, by rw [meet?_tensors apart, met]; rfl,
    isSubtype_tensor_iff.mpr ⟨known, rfl, within⟩⟩

theorem reaches_lists {type first second : TorchType}
    (inside : ∀ inner : TorchType, inner.isSubtype first = true → inner.isSubtype second = true →
      Reaches inner first second)
    (apart : Apart (list first) (list second)) (below : type.isSubtype (.list first) = true)
    (beside : type.isSubtype (.list second) = true) : Reaches type (.list first) (.list second) := by
  obtain ⟨inner, rfl, inFirst⟩ := isSubtype_list_iff.mp below
  rw [isSubtype_lists] at beside
  rcases inside inner inFirst beside with ⟨both, met, within⟩ | overlooked
  · exact .inl ⟨.list both, by rw [meet?_lists apart, met]; rfl, by rwa [isSubtype_lists]⟩
  · exact .inr (.lists overlooked)

/-- The common subtypes of two lists of types, position by position, lie below what is known from these
lists, or at some position two types are overlooked. -/
def ReachesEach (types firsts seconds : List TorchType) : Prop :=
  (∃ boths, meetEach? firsts seconds = some boths ∧
      List.Forall₂ (fun type both => type.isSubtype both = true) types boths) ∨
    ∃ first second, (first, second) ∈ firsts.zip seconds ∧ Overlooked first second

theorem reaches_tuples {type : TorchType} {firsts seconds : List TorchType}
    (inside : ∀ types : List TorchType,
      List.Forall₂ (fun type first => type.isSubtype first = true) types firsts →
      List.Forall₂ (fun type second => type.isSubtype second = true) types seconds →
      ReachesEach types firsts seconds)
    (apart : Apart (tuple firsts) (tuple seconds)) (below : type.isSubtype (.tuple firsts) = true)
    (beside : type.isSubtype (.tuple seconds) = true) : Reaches type (.tuple firsts) (.tuple seconds) := by
  obtain ⟨types, rfl, inFirst⟩ := isSubtype_tuple_iff_forall₂.mp below
  obtain ⟨_, same, inSecond⟩ := isSubtype_tuple_iff_forall₂.mp beside
  cases same
  have length_eq := inFirst.length_eq.symm.trans inSecond.length_eq
  rcases inside types inFirst inSecond with ⟨boths, met, within⟩ | ⟨one, two, among, overlooked⟩
  · exact .inl ⟨.tuple boths, by rw [meet?_tuples length_eq apart, met]; rfl,
      isSubtype_tuple_iff_forall₂.mpr ⟨types, rfl, within⟩⟩
  · exact .inr (.tuples (compatible_each inFirst inSecond) among overlooked)

theorem reaches_dicts {type key value otherKey otherValue : TorchType}
    (apart : Apart (dict key value) (dict otherKey otherValue))
    (below : type.isSubtype (.dict key value) = true)
    (beside : type.isSubtype (.dict otherKey otherValue) = true) :
    Reaches type (.dict key value) (.dict otherKey otherValue) := by
  obtain ⟨inKey, inValue, rfl, keyFirst, valueFirst⟩ := isSubtype_dict_iff.mp below
  obtain ⟨_, _, same, keySecond, valueSecond⟩ := isSubtype_dict_iff.mp beside
  cases same
  exact .inr (.dicts ⟨inKey, keyFirst, keySecond⟩ ⟨inValue, valueFirst, valueSecond⟩ apart)

/-- Only of types that are not comparable the meet is a new type. -/
theorem reaches_of_apart {type first second : TorchType} (below : type.isSubtype first = true)
    (beside : type.isSubtype second = true) (reaches : Apart first second → Reaches type first second) :
    Reaches type first second := by
  by_cases lower : first.isSubtype second = true
  · exact .inl ⟨first, meet?_of_isSubtype lower, below⟩
  by_cases upper : second.isSubtype first = true
  · exact .inl ⟨second, by rw [meet?.eq_def, if_neg lower, if_pos upper], beside⟩
  exact reaches ⟨Bool.of_not_eq_true lower, Bool.of_not_eq_true upper⟩

mutual

/-- By induction on both types, which are taken apart together. -/
theorem reaches_of_isSubtype {type first second : TorchType} (below : type.isSubtype first = true)
    (beside : type.isSubtype second = true) : Reaches type first second := by
  refine reaches_of_apart below beside fun apart => ?_
  have notLower := Bool.eq_false_iff.mp apart.1
  have notUpper := Bool.eq_false_iff.mp apart.2
  have notAny : second ≠ .any := fun isAny => notLower (isAny ▸ isSubtype_any first)
  cases plainSecond : second.isOptional with
  | true =>
    cases second with
    | none =>
      simp only [isSubtype, same_iff] at beside
      exact absurd (beside ▸ below) notUpper
    | optional other =>
      cases plainFirst : first.isOptional with
      | false =>
        exact reaches_unwrapSecond (fun beside => reaches_of_isSubtype beside) plainFirst apart below beside
      | true =>
        cases first with
        | none => exact absurd (isSubtype_optional_iff.mpr (.inl rfl)) notLower
        | optional inner =>
          exact reaches_optionals (fun type below => reaches_of_isSubtype below) apart below beside
        | _ => cases plainFirst
    | _ => cases plainSecond
  | false =>
    -- What lies below a plain second type has the shape of the first one, and so has the second.
    cases first with
    | any => exact absurd (isSubtype_any second) notUpper
    | none | bool | int | float | str | device | generator | linearParams | nnModule =>
      simp only [isSubtype, same_iff] at below
      exact absurd (below ▸ beside) notLower
    | optional inner =>
      exact reaches_unwrapFirst (fun below => reaches_of_isSubtype below) plainSecond apart below beside
    | vtensor info =>
      obtain ⟨known, rfl, -⟩ := isSubtype_vtensor_iff.mp below
      cases second with
      | vtensor other => exact reaches_vtensors apart below beside
      | _ => simp [same, isOptional] at beside plainSecond notAny
    | tensor info =>
      obtain ⟨known, rfl, -⟩ := isSubtype_tensor_iff.mp below
      cases second with
      | tensor other => exact reaches_tensors apart below beside
      | _ => simp [same, isOptional] at beside plainSecond notAny
    | list element =>
      obtain ⟨inner, rfl, -⟩ := isSubtype_list_iff.mp below
      cases second with
      | list other => exact reaches_lists (fun type below => reaches_of_isSubtype below) apart below beside
      | _ => simp [same, isOptional] at beside plainSecond notAny
    | tuple elements =>
      obtain ⟨types, rfl, -⟩ := isSubtype_tuple_iff_forall₂.mp below
      cases second with
      | tuple others => exact reaches_tuples (fun types below => reaches_each below) apart below beside
      | _ => simp [same, isOptional] at beside plainSecond notAny
    | dict key value =>
      obtain ⟨inKey, inValue, rfl, -⟩ := isSubtype_dict_iff.mp below
      cases second with
      | dict otherKey otherValue => exact reaches_dicts apart below beside
      | _ => simp [same, isOptional] at beside plainSecond notAny
termination_by sizeOf first + sizeOf second

theorem reaches_each {types firsts seconds : List TorchType}
    (below : List.Forall₂ (fun type first => type.isSubtype first = true) types firsts)
    (beside : List.Forall₂ (fun type second => type.isSubtype second = true) types seconds) :
    ReachesEach types firsts seconds := by
  cases firsts with
  | nil =>
    cases below
    cases beside
    exact .inl ⟨[], by rw [meetEach?.eq_def], .nil⟩
  | cons first firsts =>
    cases seconds with
    | nil =>
      cases beside
      cases below
    | cons second seconds =>
      cases below with
      | cons head later =>
        cases beside with
        | cons next rest =>
          rcases reaches_of_isSubtype head next with ⟨both, met, within⟩ | overlooked
          · rcases reaches_each later rest with ⟨boths, metRest, restWithin⟩ | ⟨one, two, among, overlooked⟩
            · exact .inl ⟨both :: boths, by rw [meetEach?_cons, met, metRest]; rfl, .cons within restWithin⟩
            · exact .inr ⟨one, two, List.mem_cons_of_mem _ among, overlooked⟩
          · exact .inr ⟨first, second, List.mem_cons_self, overlooked⟩
termination_by sizeOf firsts + sizeOf seconds

end

/-- What is known from two types is their greatest common subtype, and if nothing is, they have a common
subtype exactly if two optional types or two dictionaries are overlooked. -/
theorem meet?_isGreatest (first second : TorchType) :
    (∀ both, first.meet? second = some both →
      both.isSubtype first = true ∧ both.isSubtype second = true ∧
        ∀ type : TorchType, type.isSubtype first = true → type.isSubtype second = true →
          type.isSubtype both = true) ∧
    (first.meet? second = Option.none ∧ Compatible first second ↔ Overlooked first second) := by
  refine ⟨fun both met => ?_, ?_, fun overlooked => ⟨overlooked.meet?_eq_none, overlooked.compatible⟩⟩
  · obtain ⟨below, beside⟩ := isSubtype_of_meet? met
    refine ⟨below, beside, fun type below beside => ?_⟩
    rcases reaches_of_isSubtype below beside with ⟨_, same, within⟩ | overlooked
    · cases met.symm.trans same
      exact within
    · cases met.symm.trans overlooked.meet?_eq_none
  · rintro ⟨none, type, below, beside⟩
    rcases reaches_of_isSubtype below beside with ⟨both, met, -⟩ | overlooked
    · cases none.symm.trans met
    · exact overlooked

/-- What is known about tensors with two dimensions, each of a known or an unknown size. -/
def matrix (rows columns : Option Int) : TorchType :=
  .vtensor ⟨some [rows, columns], some .f32⟩

/-- Lists of matrices with three rows and lists of matrices with four columns have a greatest common
subtype. Dictionaries of such matrices have a common subtype as well, but none is known from them. -/
theorem meet?_isGreatest_matrices :
    (∀ type : TorchType, type.isSubtype (.list (matrix (some 3) Option.none)) = true →
        type.isSubtype (.list (matrix Option.none (some 4))) = true →
        type.isSubtype (.list (matrix (some 3) (some 4))) = true) ∧
      (dict .int (matrix (some 3) Option.none)).meet? (.dict .int (matrix Option.none (some 4))) =
        Option.none ∧
      Compatible (.dict .int (matrix (some 3) Option.none)) (.dict .int (matrix Option.none (some 4))) := by
  have met : (list (matrix (some 3) Option.none)).meet? (.list (matrix Option.none (some 4))) =
      some (.list (matrix (some 3) (some 4))) := by
    decide +kernel
  have overlooked :
      Overlooked (.dict .int (matrix (some 3) Option.none)) (.dict .int (matrix Option.none (some 4))) :=
    .dicts ⟨.int, rfl, rfl⟩ ⟨matrix (some 3) (some 4), by decide, by decide⟩ ⟨by decide, by decide⟩
  exact ⟨((meet?_isGreatest _ _).1 _ met).2.2, (meet?_isGreatest _ _).2.mpr overlooked⟩

end TorchType

end TensorIR
