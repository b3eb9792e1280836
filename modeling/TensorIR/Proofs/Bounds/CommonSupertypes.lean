import TensorIR.Proofs.Subtyping

/-!
# Common supertypes

The join of two types lies above both. It is the least common supertype unless, somewhere inside of the
two types, two dictionaries or two optional types face each other of which neither lies below the other:
dictionaries are joined to any type, and optional types are made optional twice.

## Main definitions

* `TorchType.Overshot` — the join of two types does not lie below every common supertype

## Main results

* `TensorInfo.isSubtype_join`, `TensorInfo.join_isSubtype` — what is known about tensors has least common
  generalizations
* `TorchType.isSubtype_join` — the join lies above both types
* `TorchType.join_isLeast_iff` — when the join of two types is their least common supertype
-/

namespace TensorIR

/-! ### What is known about tensors -/

namespace TensorInfo

theorem isSubtypeOption_joinOption {α : Type} [DecidableEq α] (first second : Option α) :
    isSubtypeOption first (joinOption first second) = true ∧
      isSubtypeOption second (joinOption first second) = true := by
  cases first <;> cases second <;> simp [joinOption]
  split <;> simp_all

theorem joinOption_isSubtypeOption {α : Type} [DecidableEq α] {first second upper : Option α}
    (below : isSubtypeOption first upper = true) (beside : isSubtypeOption second upper = true) :
    isSubtypeOption (joinOption first second) upper = true := by
  cases upper with
  | none => exact isSubtypeOption_none _
  | some value =>
    rw [isSubtypeOption_some] at below beside ⊢
    simp [below, beside, joinOption]

theorem forall₂_joinOption {first second : List (Option Int)} (length_eq : first.length = second.length) :
    List.Forall₂ (fun a b => isSubtypeOption a b = true) first
        ((first.zip second).map fun pair => joinOption pair.1 pair.2) ∧
      List.Forall₂ (fun a b => isSubtypeOption a b = true) second
        ((first.zip second).map fun pair => joinOption pair.1 pair.2) := by
  induction first generalizing second with
  | nil =>
    cases List.eq_nil_of_length_eq_zero length_eq.symm
    exact ⟨.nil, .nil⟩
  | cons size sizes ih =>
    obtain ⟨other, others, rfl⟩ := List.exists_cons_of_length_eq_add_one length_eq.symm
    obtain ⟨below, beside⟩ := isSubtypeOption_joinOption size other
    obtain ⟨restBelow, restBeside⟩ := ih (Nat.succ.inj length_eq)
    exact ⟨.cons below restBelow, .cons beside restBeside⟩

theorem joinOption_forall₂ {first second upper : List (Option Int)}
    (below : List.Forall₂ (fun a b => isSubtypeOption a b = true) first upper)
    (beside : List.Forall₂ (fun a b => isSubtypeOption a b = true) second upper) :
    List.Forall₂ (fun a b => isSubtypeOption a b = true)
      ((first.zip second).map fun pair => joinOption pair.1 pair.2) upper := by
  induction below generalizing second with
  | nil => exact .nil
  | cons head _ ih =>
    cases beside with
    | cons next later => exact .cons (joinOption_isSubtypeOption head next) (ih later)

theorem isSubtypeSizes_joinSizes (first second : Option (List (Option Int))) :
    isSubtypeSizes first (joinSizes first second) = true ∧
      isSubtypeSizes second (joinSizes first second) = true := by
  unfold joinSizes
  split
  case h_1 sizes others =>
    split
    case isTrue length_eq =>
      obtain ⟨below, beside⟩ := forall₂_joinOption length_eq
      exact ⟨(isSubtypeSizes_some_iff _ _).mpr ⟨sizes, rfl, below⟩,
        (isSubtypeSizes_some_iff _ _).mpr ⟨others, rfl, beside⟩⟩
    case isFalse => exact ⟨isSubtypeSizes_none _, isSubtypeSizes_none _⟩
  case h_2 => exact ⟨isSubtypeSizes_none _, isSubtypeSizes_none _⟩

theorem joinSizes_isSubtypeSizes {first second upper : Option (List (Option Int))}
    (below : isSubtypeSizes first upper = true) (beside : isSubtypeSizes second upper = true) :
    isSubtypeSizes (joinSizes first second) upper = true := by
  cases upper with
  | none => exact isSubtypeSizes_none _
  | some most =>
    obtain ⟨sizes, rfl, sizesBelow⟩ := (isSubtypeSizes_some_iff _ _).mp below
    obtain ⟨others, rfl, othersBelow⟩ := (isSubtypeSizes_some_iff _ _).mp beside
    have length_eq : sizes.length = others.length :=
      sizesBelow.length_eq.trans othersBelow.length_eq.symm
    rw [joinSizes, if_pos length_eq]
    exact (isSubtypeSizes_some_iff _ _).mpr ⟨_, rfl, joinOption_forall₂ sizesBelow othersBelow⟩

/-- What two agree on is known by both. -/
theorem isSubtype_join (first second : TensorInfo) :
    first.isSubtype (first.join second) = true ∧ second.isSubtype (first.join second) = true := by
  obtain ⟨sizesFirst, sizesSecond⟩ := isSubtypeSizes_joinSizes first.sizes second.sizes
  obtain ⟨dtypeFirst, dtypeSecond⟩ := isSubtypeOption_joinOption first.dtype second.dtype
  simp [isSubtype, join, sizesFirst, sizesSecond, dtypeFirst, dtypeSecond]

/-- What is known by two is known from what they agree on. -/
theorem join_isSubtype {first second upper : TensorInfo} (below : first.isSubtype upper = true)
    (beside : second.isSubtype upper = true) : (first.join second).isSubtype upper = true := by
  rw [isSubtype, Bool.and_eq_true] at below beside ⊢
  exact ⟨joinSizes_isSubtypeSizes below.1 beside.1, joinOption_isSubtypeOption below.2 beside.2⟩

end TensorInfo

/-! ### Torch types -/

namespace TorchType

section Join

variable {first second : TorchType}

theorem join_of_isSubtype (below : first.isSubtype second = true) : first.join second = second := by
  rw [join.eq_def, if_pos below]

theorem join_vtensors {info other : TensorInfo} (apart : Apart (vtensor info) (vtensor other)) :
    (vtensor info).join (.vtensor other) = .vtensor (info.join other) := by
  rw [join.eq_def, apart.1, apart.2]
  rfl

theorem join_tensors {info other : TensorInfo} (apart : Apart (tensor info) (tensor other)) :
    (tensor info).join (.tensor other) = .tensor (info.join other) := by
  rw [join.eq_def, apart.1, apart.2]
  rfl

theorem join_none_left (apart : Apart .none second) : TorchType.none.join second = .optional second := by
  rw [join.eq_def, apart.1, apart.2]
  cases second <;> rfl

theorem join_none_right (apart : Apart first .none) : first.join .none = .optional first := by
  rw [join.eq_def, apart.1, apart.2]
  cases first <;> rfl

theorem join_unwrapFirst (apart : Apart (.optional first) second) :
    (optional first).join second = .optional (first.join second) := by
  rw [join.eq_def, apart.1, apart.2]
  cases second with
  | none => exact absurd apart.2 (by simp)
  | _ => rfl

theorem join_unwrapSecond (plain : first.isOptional = false) (apart : Apart first (.optional second)) :
    first.join (.optional second) = .optional (second.join first) := by
  rw [join.eq_def, apart.1, apart.2]
  cases first with
  | none | optional => cases plain
  | _ => rfl

theorem join_lists (apart : Apart (list first) (list second)) :
    (list first).join (.list second) = .list (first.join second) := by
  rw [join.eq_def, apart.1, apart.2]
  rfl

theorem join_tuples {firsts seconds : List TorchType} (length_eq : firsts.length = seconds.length)
    (apart : Apart (tuple firsts) (tuple seconds)) :
    (tuple firsts).join (.tuple seconds) = .tuple (joinEach firsts seconds) := by
  rw [join.eq_def, apart.1, apart.2]
  exact if_pos length_eq

theorem join_dicts {key value otherKey otherValue : TorchType}
    (apart : Apart (dict key value) (dict otherKey otherValue)) :
    (dict key value).join (.dict otherKey otherValue) = .any := by
  rw [join.eq_def, apart.1, apart.2]
  rfl

theorem joinEach_cons (firsts seconds : List TorchType) :
    joinEach (first :: firsts) (second :: seconds) = first.join second :: joinEach firsts seconds := by
  rw [joinEach.eq_def]

end Join

/-- The join of two types does not lie below every common supertype. -/
inductive Overshot : TorchType → TorchType → Prop
  /-- Two optional types are made optional twice, which some common supertype of the types inside is not. -/
  | optionals {first second upper : TorchType} (apart : Apart first second)
    (below : first.isSubtype upper = true) (beside : second.isSubtype upper = true)
    (exceeds : (first.join (.optional second)).isSubtype upper = false) :
    Overshot (.optional first) (.optional second)
  /-- Dictionaries are not joined from their keys and values. -/
  | dicts {key value otherKey otherValue : TorchType}
    (apart : Apart (.dict key value) (.dict otherKey otherValue)) :
    Overshot (.dict key value) (.dict otherKey otherValue)
  | unwrapFirst {first second : TorchType} (plain : second.isOptional = false)
    (inside : Overshot first second) : Overshot (.optional first) second
  | unwrapSecond {first second : TorchType} (plain : first.isOptional = false)
    (inside : Overshot second first) : Overshot first (.optional second)
  | lists {first second : TorchType} (inside : Overshot first second) :
    Overshot (.list first) (.list second)
  | tuples {firsts seconds : List TorchType} {first second : TorchType}
    (length_eq : firsts.length = seconds.length) (among : (first, second) ∈ firsts.zip seconds)
    (inside : Overshot first second) : Overshot (.tuple firsts) (.tuple seconds)

/-! #### The join lies above both types -/

mutual

/-- Both types lie below their join. -/
theorem isSubtype_join (first second : TorchType) :
    first.isSubtype (first.join second) = true ∧ second.isSubtype (first.join second) = true := by
  -- One case for each branch of the join. Where it gives up, the type of everything is above both.
  rw [join.eq_def]
  split
  case isTrue below => exact ⟨below, isSubtype_refl _⟩
  split
  case isTrue above => exact ⟨isSubtype_refl _, above⟩
  split
  case h_1 info other _ _ =>
    obtain ⟨below, beside⟩ := TensorInfo.isSubtype_join info other
    exact ⟨isSubtype_vtensor_iff.mpr ⟨info, rfl, below⟩, isSubtype_vtensor_iff.mpr ⟨other, rfl, beside⟩⟩
  case h_2 info other _ _ =>
    obtain ⟨below, beside⟩ := TensorInfo.isSubtype_join info other
    exact ⟨isSubtype_tensor_iff.mpr ⟨info, rfl, below⟩, isSubtype_tensor_iff.mpr ⟨other, rfl, beside⟩⟩
  case h_3 => exact ⟨isSubtype_optional_iff.mpr (.inl rfl), isSubtype_optional_self _⟩
  case h_4 => exact ⟨isSubtype_optional_self _, isSubtype_optional_iff.mpr (.inl rfl)⟩
  case h_5 inner _ _ _ =>
    obtain ⟨below, beside⟩ := isSubtype_join inner second
    exact ⟨isSubtype_optionals.trans below, isSubtype_trans beside (isSubtype_optional_self _)⟩
  case h_6 inner _ _ _ _ =>
    obtain ⟨beside, below⟩ := isSubtype_join inner first
    exact ⟨isSubtype_trans below (isSubtype_optional_self _), isSubtype_optionals.trans beside⟩
  case h_7 inner other _ _ =>
    obtain ⟨below, beside⟩ := isSubtype_join inner other
    exact ⟨isSubtype_lists.trans below, isSubtype_lists.trans beside⟩
  case h_8 firsts seconds _ _ =>
    split
    case isTrue length_eq =>
      obtain ⟨below, beside⟩ := forall₂_joinEach length_eq
      exact ⟨isSubtype_tuple_iff_forall₂.mpr ⟨firsts, rfl, below⟩,
        isSubtype_tuple_iff_forall₂.mpr ⟨seconds, rfl, beside⟩⟩
    case isFalse => exact ⟨isSubtype_any _, isSubtype_any _⟩
  case h_9 => exact ⟨isSubtype_any _, isSubtype_any _⟩
termination_by sizeOf first + sizeOf second

theorem forall₂_joinEach {firsts seconds : List TorchType} (length_eq : firsts.length = seconds.length) :
    List.Forall₂ (fun type upper => type.isSubtype upper = true) firsts (joinEach firsts seconds) ∧
      List.Forall₂ (fun type upper => type.isSubtype upper = true) seconds (joinEach firsts seconds) := by
  cases firsts with
  | nil =>
    cases seconds with
    | nil =>
      rw [joinEach.eq_def]
      exact ⟨.nil, .nil⟩
    | cons => cases length_eq
  | cons first firsts =>
    cases seconds with
    | nil => cases length_eq
    | cons second seconds =>
      obtain ⟨below, beside⟩ := isSubtype_join first second
      obtain ⟨restBelow, restBeside⟩ := forall₂_joinEach (Nat.succ.inj length_eq)
      rw [joinEach_cons]
      exact ⟨.cons below restBelow, .cons beside restBeside⟩
termination_by sizeOf firsts + sizeOf seconds

end

/-! #### The join lies below what lies above both types -/

/-- Only of types that are not comparable the join is a new type. -/
theorem join_isSubtype_of_apart {first second upper : TorchType}
    (below : first.isSubtype upper = true) (beside : second.isSubtype upper = true)
    (joined : Apart first second → (first.join second).isSubtype upper = true) :
    (first.join second).isSubtype upper = true := by
  by_cases lower : first.isSubtype second = true
  · rwa [join_of_isSubtype lower]
  by_cases higher : second.isSubtype first = true
  · rwa [join.eq_def, if_neg lower, if_pos higher]
  exact joined ⟨Bool.of_not_eq_true lower, Bool.of_not_eq_true higher⟩

theorem not_apart_self (type : TorchType) : ¬Apart type type :=
  fun apart => Bool.eq_false_iff.mp apart.1 (isSubtype_refl type)

/-- Below an optional type, joins of types that are optional themselves are joins of the types inside. -/
theorem join_isSubtype_optional {first second upper : TorchType} (clear : ¬Overshot first second)
    (apart : Apart first second) (below : first.isSubtype (.optional upper) = true)
    (beside : second.isSubtype (.optional upper) = true)
    (inside : ∀ {first second : TorchType}, ¬Overshot first second → first.isSubtype upper = true →
      second.isSubtype upper = true → (first.join second).isSubtype upper = true) :
    (first.join second).isSubtype (.optional upper) = true := by
  rcases isSubtype_optional_iff.mp below with rfl | ⟨inner, rfl, inBelow⟩ | ⟨plainFirst, inBelow⟩
  -- Beside the type of no value, the join is the other type made optional.
  · rw [join_none_left apart, isSubtype_optionals]
    rcases isSubtype_optional_iff.mp beside with rfl | ⟨other, rfl, -⟩ | ⟨-, inBeside⟩
    · exact absurd apart (not_apart_self _)
    · exact absurd (isSubtype_optional_iff.mpr (.inl rfl)) (Bool.eq_false_iff.mp apart.1)
    · exact inBeside
  · rw [join_unwrapFirst apart, isSubtype_optionals]
    rcases isSubtype_optional_iff.mp beside with rfl | ⟨other, rfl, inBeside⟩ | ⟨plain, inBeside⟩
    · exact absurd (isSubtype_optional_iff.mpr (.inl rfl)) (Bool.eq_false_iff.mp apart.2)
    -- The join of two optional types is optional twice, which is the case that was left out.
    · by_contra exceeds
      exact clear (.optionals (apart_optionals.mp apart) inBelow inBeside (Bool.of_not_eq_true exceeds))
    · exact inside (fun overshot => clear (.unwrapFirst plain overshot)) inBelow inBeside
  · rcases isSubtype_optional_iff.mp beside with rfl | ⟨other, rfl, inBeside⟩ | ⟨-, inBeside⟩
    · rwa [join_none_right apart, isSubtype_optionals]
    · rw [join_unwrapSecond plainFirst apart, isSubtype_optionals]
      exact inside (fun overshot => clear (.unwrapSecond plainFirst overshot)) inBeside inBelow
    · exact isSubtype_trans (inside clear inBelow inBeside) (isSubtype_optional_self upper)

mutual

/-- By induction on the type above both. -/
theorem join_isSubtype : (upper : TorchType) → ∀ {first second : TorchType}, ¬Overshot first second →
    first.isSubtype upper = true → second.isSubtype upper = true →
    (first.join second).isSubtype upper = true
  | .any, _, _, _, _, _ => isSubtype_any _
  | .optional upper, first, second, clear, below, beside =>
    join_isSubtype_of_apart below beside fun apart =>
      join_isSubtype_optional clear apart below beside (join_isSubtype upper)
  | .vtensor info, first, second, _, below, beside => by
    refine join_isSubtype_of_apart below beside fun apart => ?_
    obtain ⟨known, rfl, inBelow⟩ := isSubtype_vtensor_iff.mp below
    obtain ⟨other, rfl, inBeside⟩ := isSubtype_vtensor_iff.mp beside
    rw [join_vtensors apart]
    exact isSubtype_vtensor_iff.mpr ⟨_, rfl, TensorInfo.join_isSubtype inBelow inBeside⟩
  | .tensor info, first, second, _, below, beside => by
    refine join_isSubtype_of_apart below beside fun apart => ?_
    obtain ⟨known, rfl, inBelow⟩ := isSubtype_tensor_iff.mp below
    obtain ⟨other, rfl, inBeside⟩ := isSubtype_tensor_iff.mp beside
    rw [join_tensors apart]
    exact isSubtype_tensor_iff.mpr ⟨_, rfl, TensorInfo.join_isSubtype inBelow inBeside⟩
  | .list element, first, second, clear, below, beside => by
    refine join_isSubtype_of_apart below beside fun apart => ?_
    obtain ⟨inner, rfl, inBelow⟩ := isSubtype_list_iff.mp below
    obtain ⟨other, rfl, inBeside⟩ := isSubtype_list_iff.mp beside
    rw [join_lists apart, isSubtype_lists]
    exact join_isSubtype element (fun overshot => clear (.lists overshot)) inBelow inBeside
  | .tuple elements, first, second, clear, below, beside => by
    refine join_isSubtype_of_apart below beside fun apart => ?_
    obtain ⟨firsts, rfl, inBelow⟩ := isSubtype_tuple_iff_forall₂.mp below
    obtain ⟨seconds, rfl, inBeside⟩ := isSubtype_tuple_iff_forall₂.mp beside
    have length_eq : firsts.length = seconds.length := inBelow.length_eq.trans inBeside.length_eq.symm
    rw [join_tuples length_eq apart]
    refine isSubtype_tuple_iff_forall₂.mpr ⟨_, rfl, joinEach_forall₂ elements ?_ inBelow inBeside⟩
    exact fun one two among overshot => clear (.tuples length_eq among overshot)
  -- The join of two distinct dictionaries is the type of everything, and no dictionary is above it.
  | .dict key value, first, second, clear, below, beside => by
    refine join_isSubtype_of_apart below beside fun apart => ?_
    obtain ⟨_, _, rfl, -⟩ := isSubtype_dict_iff.mp below
    obtain ⟨_, _, rfl, -⟩ := isSubtype_dict_iff.mp beside
    exact absurd (.dicts apart) clear
  -- Only the type itself is below one of these, so two types below it are one.
  | .none, first, second, _, below, beside | .bool, first, second, _, below, beside
  | .int, first, second, _, below, beside | .float, first, second, _, below, beside
  | .str, first, second, _, below, beside | .device, first, second, _, below, beside
  | .generator, first, second, _, below, beside | .linearParams, first, second, _, below, beside
  | .nnModule _, first, second, _, below, beside => by
    refine join_isSubtype_of_apart below beside fun apart => ?_
    simp only [isSubtype, same_iff] at below beside
    exact absurd (below ▸ beside ▸ apart) (not_apart_self _)

theorem joinEach_forall₂ : (uppers : List TorchType) → ∀ {firsts seconds : List TorchType},
    (∀ first second, (first, second) ∈ firsts.zip seconds → ¬Overshot first second) →
    List.Forall₂ (fun type upper => type.isSubtype upper = true) firsts uppers →
    List.Forall₂ (fun type upper => type.isSubtype upper = true) seconds uppers →
    List.Forall₂ (fun type upper => type.isSubtype upper = true) (joinEach firsts seconds) uppers
  | [], _, _, _, .nil, .nil => by
    rw [joinEach.eq_def]
    exact .nil
  | upper :: uppers, first :: firsts, second :: seconds, clear, .cons below rest, .cons beside later => by
    rw [joinEach_cons]
    exact .cons (join_isSubtype upper (clear first second List.mem_cons_self) below beside)
      (joinEach_forall₂ uppers (fun one two among => clear one two (List.mem_cons_of_mem _ among)) rest later)

end

/-! #### Common supertypes that the join does not reach -/

/-- The join of two types does not lie below one of their common supertypes. -/
def Exceeds (first second : TorchType) : Prop :=
  ∃ upper : TorchType, first.isSubtype upper = true ∧ second.isSubtype upper = true ∧
    (first.join second).isSubtype upper = false

theorem Exceeds.apart {first second : TorchType} (exceeds : Exceeds first second) : Apart first second := by
  obtain ⟨upper, below, beside, exceeds⟩ := exceeds
  by_contra comparable
  refine Bool.eq_false_iff.mp exceeds (join_isSubtype_of_apart below beside fun apart => ?_)
  exact absurd apart comparable

/-- At one position, the join of two lists of types can be exchanged for another type above both. -/
theorem exists_forall₂_of_mem_zip_joinEach {firsts seconds : List TorchType} {first second upper : TorchType}
    (length_eq : firsts.length = seconds.length) (among : (first, second) ∈ firsts.zip seconds)
    (below : first.isSubtype upper = true) (beside : second.isSubtype upper = true) :
    ∃ uppers, List.Forall₂ (fun type upper => type.isSubtype upper = true) firsts uppers ∧
      List.Forall₂ (fun type upper => type.isSubtype upper = true) seconds uppers ∧
      (first.join second, upper) ∈ (joinEach firsts seconds).zip uppers := by
  induction firsts generalizing seconds with
  | nil => cases among
  | cons one ones ih =>
    obtain ⟨two, twos, rfl⟩ := List.exists_cons_of_length_eq_add_one length_eq.symm
    rw [joinEach_cons]
    rcases List.mem_cons.mp among with same | later
    · cases same
      obtain ⟨eachBelow, eachBeside⟩ := forall₂_joinEach (Nat.succ.inj length_eq)
      exact ⟨upper :: joinEach ones twos, .cons below eachBelow, .cons beside eachBeside,
        List.mem_cons_self⟩
    · obtain ⟨uppers, eachBelow, eachBeside, member⟩ := ih (Nat.succ.inj length_eq) later
      obtain ⟨headBelow, headBeside⟩ := isSubtype_join one two
      exact ⟨one.join two :: uppers, .cons headBelow eachBelow, .cons headBeside eachBeside,
        List.mem_cons_of_mem _ member⟩

theorem Overshot.exceeds {first second : TorchType} (overshot : Overshot first second) :
    Exceeds first second := by
  induction overshot with
  | @optionals first second upper apart below beside exceeds =>
    refine ⟨.optional upper, isSubtype_optionals.trans below, isSubtype_optionals.trans beside, ?_⟩
    rwa [join_unwrapFirst (apart_optionals.mpr apart), isSubtype_optionals]
  | dicts apart =>
    refine ⟨.dict .any .any, isSubtype_dict_iff.mpr ⟨_, _, rfl, isSubtype_any _, isSubtype_any _⟩,
      isSubtype_dict_iff.mpr ⟨_, _, rfl, isSubtype_any _, isSubtype_any _⟩, ?_⟩
    rw [join_dicts apart]
    rfl
  -- An optional type is unwrapped before the join. The bound that the inner join exceeds is wrapped again.
  | unwrapFirst plain _ ih =>
    have apart := apart_unwrap plain ih.apart
    obtain ⟨upper, below, beside, exceeds⟩ := ih
    refine ⟨.optional upper, isSubtype_optionals.trans below,
      isSubtype_trans beside (isSubtype_optional_self _), ?_⟩
    rwa [join_unwrapFirst apart, isSubtype_optionals]
  | unwrapSecond plain _ ih =>
    have apart := (apart_unwrap plain ih.apart).symm
    obtain ⟨upper, beside, below, exceeds⟩ := ih
    refine ⟨.optional upper, isSubtype_trans below (isSubtype_optional_self _),
      isSubtype_optionals.trans beside, ?_⟩
    rwa [join_unwrapSecond plain apart, isSubtype_optionals]
  | lists _ ih =>
    have apart := apart_lists.mpr ih.apart
    obtain ⟨upper, below, beside, exceeds⟩ := ih
    refine ⟨.list upper, isSubtype_lists.trans below, isSubtype_lists.trans beside, ?_⟩
    rwa [join_lists apart, isSubtype_lists]
  | tuples length_eq among _ ih =>
    have apart := apart_tuples among ih.apart
    obtain ⟨upper, below, beside, exceeds⟩ := ih
    obtain ⟨uppers, eachBelow, eachBeside, member⟩ :=
      exists_forall₂_of_mem_zip_joinEach length_eq among below beside
    refine ⟨.tuple uppers, isSubtype_tuple_iff_forall₂.mpr ⟨_, rfl, eachBelow⟩,
      isSubtype_tuple_iff_forall₂.mpr ⟨_, rfl, eachBeside⟩, Bool.of_not_eq_true fun within => ?_⟩
    rw [join_tuples length_eq apart] at within
    obtain ⟨_, same, each⟩ := isSubtype_tuple_iff_forall₂.mp within
    cases same
    exact Bool.eq_false_iff.mp exceeds ((List.forall₂_iff_zip.mp each).2 member)

/-- Both types lie below their join, and the join lies below all common supertypes exactly if it is not
too large because of two dictionaries or two optional types. -/
theorem join_isLeast_iff (first second : TorchType) :
    first.isSubtype (first.join second) = true ∧ second.isSubtype (first.join second) = true ∧
      ((∀ upper : TorchType, first.isSubtype upper = true → second.isSubtype upper = true →
        (first.join second).isSubtype upper = true) ↔ ¬Overshot first second) := by
  obtain ⟨below, beside⟩ := isSubtype_join first second
  refine ⟨below, beside, fun least overshot => ?_, fun clear upper => join_isSubtype upper clear⟩
  obtain ⟨upper, below, beside, exceeds⟩ := overshot.exceeds
  exact Bool.eq_false_iff.mp exceeds (least upper below beside)

/-- What is known about tensors with one dimension, of a known or an unknown size. -/
def vector (size : Option Int) : TorchType :=
  .vtensor ⟨some [size], some .f32⟩

/-- Optional vectors of two and of three numbers are optional vectors of some size, but their join is
optional twice. -/
theorem join_isLeast_iff_vectors :
    (optional (vector (some 2))).join (.optional (vector (some 3))) =
        .optional (.optional (vector Option.none)) ∧
      ¬∀ upper : TorchType, (optional (vector (some 2))).isSubtype upper = true →
        (optional (vector (some 3))).isSubtype upper = true →
        ((optional (vector (some 2))).join (.optional (vector (some 3)))).isSubtype upper = true := by
  have overshot : Overshot (.optional (vector (some 2))) (.optional (vector (some 3))) :=
    @Overshot.optionals _ _ (vector Option.none) ⟨by decide, by decide⟩ (by decide) (by decide)
      (by decide +kernel)
  refine ⟨by decide +kernel, fun least => ?_⟩
  exact (join_isLeast_iff _ _).2.2.mp least overshot

end TorchType

end TensorIR
