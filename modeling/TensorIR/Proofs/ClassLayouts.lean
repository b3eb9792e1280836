import Mathlib.Data.List.Induction
import TensorIR.Program.Symbols
import TensorIR.Proofs.Verified

/-!
# Layouts of classes

A class declares attributes and methods. Each sort has names of its own, and of several declarations under one name
the first one counts: the others fail and leave the layout as it is. A layout keeps a list for each sort, in the order
of the declarations, and beside it an index from names to positions. However declarations follow each other, an index
has a name exactly at the position where it stands in the list.

## Main definitions

* `Indexes` — an index has the positions of names
* `firsts` — the first item under each name
* `Catalogs` — a list and an index hold the declarations of one sort
* `ClassLayout.declareAll` — the layout after a run of declarations
* `ClassLayout.Records` — what a layout keeps of a run of declarations

## Main results

* `ClassLayout.Records.declare`, `ClassLayout.records_declareAll` — lists and indices stay in step
* `ClassLayout.Records.declare_eq_error_iff` — which declarations fail
* `ClassLayout.indexed_declareAll` — what is found in a layout after any run of declarations
* `Program.exists_records_of_classLayout` — the layout of a class comes from a run of declarations
-/

namespace TensorIR

theorem getElem?_concat_eq_some_iff {α : Type} {items : List α} {last item : α} {position : Nat} :
    (items ++ [last])[position]? = some item ↔
      items[position]? = some item ∨ position = items.length ∧ item = last := by
  grind

/-! ### Indices -/

/-- An index has the positions of names: it has a name at a position exactly if the name stands there. -/
def Indexes (index : List (String × Nat)) (names : List String) : Prop :=
  ∀ name position, index.lookup name = some position ↔ names[position]? = some name

namespace Indexes

variable {index : List (String × Nat)} {names : List String} {name : String}

theorem nil : Indexes [] [] := by
  intro name position
  simp

/-- What the index does not have stands nowhere. -/
theorem lookup_eq_none_iff (indexes : Indexes index names) : index.lookup name = none ↔ name ∉ names := by
  rw [Option.eq_none_iff_forall_ne_some, List.mem_iff_getElem?, not_exists]
  exact forall_congr' fun position => not_congr (indexes name position)

/-- No name stands at two positions, since the index has one of them. -/
theorem nodup (indexes : Indexes index names) : names.Nodup := by
  refine List.nodup_iff_getElem?_ne_getElem?.mpr fun first second before below same => ?_
  have isSecond := (indexes names[second] second).mpr (List.getElem?_eq_getElem below)
  have isFirst := (indexes names[second] first).mpr (same.trans (List.getElem?_eq_getElem below))
  cases isFirst.symm.trans isSecond
  exact Nat.lt_irrefl _ before

/-- A new name gets the position behind all others. -/
theorem push (indexes : Indexes index names) (isNew : index.lookup name = none) :
    Indexes ((name, names.length) :: index) (names ++ [name]) := by
  intro other position
  rw [getElem?_concat_eq_some_iff, ← indexes, List.lookup_cons]
  by_cases same : other = name
  · -- The name stands at no position before, so that the new entry hides nothing.
    subst same
    simp [isNew, eq_comm]
  · have differs : (other == name) = false := beq_false_of_ne same
    simp [differs, same]

end Indexes

/-! ### Members of one sort -/

section Catalogs

variable {α : Type} {key : α → String} {index : List (String × Nat)} {kept declared items : List α} {item : α}
  {name : String}

/-- The first item under each name, in order. -/
def firsts (key : α → String) (items : List α) : List α :=
  items.eraseDupsBy fun item earlier => key item == key earlier

/-- What has been seen on the way through a list is where the way through the rest begins. -/
theorem eraseDupsBy_loop_append (same : α → α → Bool) (items others seen : List α) :
    List.eraseDupsBy.loop same (items ++ others) seen =
      List.eraseDupsBy.loop same others (List.eraseDupsBy.loop same items seen).reverse := by
  induction items generalizing seen with
  | nil => simp [List.eraseDupsBy.loop]
  | cons first items ih =>
    rw [List.cons_append, List.eraseDupsBy.loop, List.eraseDupsBy.loop]
    split <;> exact ih _

/-- An item at the end counts if its name is new. -/
theorem firsts_concat (items : List α) (item : α) :
    firsts key (items ++ [item]) =
      if key item ∈ (firsts key items).map key then firsts key items else firsts key items ++ [item] := by
  rw [firsts, List.eraseDupsBy, eraseDupsBy_loop_append, ← List.eraseDupsBy, ← firsts, List.eraseDupsBy.loop,
    List.any_reverse]
  split
  case h_1 taken =>
    have member : key item ∈ (firsts key items).map key := by
      simpa only [List.any_eq_true, List.mem_map, beq_iff_eq, @eq_comm _ (key item)] using taken
    rw [if_pos member, List.eraseDupsBy.loop, List.reverse_reverse]
  case h_2 free =>
    have absent : key item ∉ (firsts key items).map key := by
      simpa only [List.any_eq_false, List.mem_map, beq_iff_eq, @eq_comm _ (key item), not_exists, not_and] using free
    rw [if_neg absent, List.eraseDupsBy.loop, List.reverse_cons, List.reverse_reverse]

/-- Every name has a first item. -/
theorem mem_map_firsts : name ∈ (firsts key items).map key ↔ name ∈ items.map key := by
  induction items using List.reverseRecOn generalizing name with
  | nil => rfl
  | append_singleton items item ih =>
    rw [firsts_concat, List.map_append, List.mem_append, ← ih, List.map_singleton, List.mem_singleton]
    by_cases taken : key item ∈ (firsts key items).map key
    · -- The last item is left out, but not its name.
      rw [if_pos taken]
      constructor
      · exact .inl
      · rintro (before | rfl)
        · exact before
        · exact taken
    · rw [if_neg taken, List.map_append, List.mem_append, List.map_singleton, List.mem_singleton]

/-- A list holds the first item under each name that has been declared, and an index has the positions of the names. -/
structure Catalogs (key : α → String) (index : List (String × Nat)) (kept declared : List α) : Prop where
  eq_firsts : kept = firsts key declared
  indexes : Indexes index (kept.map key)

namespace Catalogs

theorem nil : Catalogs key [] [] [] :=
  ⟨rfl, .nil⟩

/-- A name that the index does not have has not been declared. -/
theorem lookup_eq_none_iff (catalogs : Catalogs key index kept declared) :
    index.lookup name = none ↔ name ∉ declared.map key := by
  rw [catalogs.indexes.lookup_eq_none_iff, catalogs.eq_firsts, mem_map_firsts]

/-- An item under a new name is kept behind all others. -/
theorem push (catalogs : Catalogs key index kept declared) (item : α) (isNew : index.lookup (key item) = none) :
    Catalogs key ((key item, kept.length) :: index) (kept ++ [item]) (declared ++ [item]) := by
  constructor
  · have absent := catalogs.indexes.lookup_eq_none_iff.mp isNew
    rw [catalogs.eq_firsts] at absent
    rw [firsts_concat, if_neg absent, catalogs.eq_firsts]
  · rw [List.map_append, List.map_singleton, ← List.length_map (f := key)]
    exact catalogs.indexes.push isNew

/-- An item under a name that is taken is not kept. -/
theorem skip (catalogs : Catalogs key index kept declared) (item : α) (taken : index.lookup (key item) ≠ none) :
    Catalogs key index kept (declared ++ [item]) := by
  refine ⟨?_, catalogs.indexes⟩
  have member := not_not.mp (mt catalogs.indexes.lookup_eq_none_iff.mpr taken)
  rw [catalogs.eq_firsts] at member
  rw [firsts_concat, if_pos member, catalogs.eq_firsts]

/-- By its position in the index, an item is found under its name. -/
theorem bind_lookup_eq_some_iff (catalogs : Catalogs key index kept declared) :
    ((index.lookup name).bind fun position => kept[position]?) = some item ↔ item ∈ kept ∧ key item = name := by
  simp only [Option.bind_eq_some_iff, catalogs.indexes name, List.getElem?_map, Option.map_eq_some_iff,
    List.mem_iff_getElem?]
  constructor
  · rintro ⟨position, ⟨other, isOther, isNamed⟩, stands⟩
    cases isOther.symm.trans stands
    exact ⟨⟨position, stands⟩, isNamed⟩
  · rintro ⟨⟨position, stands⟩, isNamed⟩
    exact ⟨position, ⟨item, stands, isNamed⟩, stands⟩

end Catalogs

end Catalogs

/-! ### Declarations -/

namespace MemberDeclaration

/-- The name under which a member is declared, among those of its sort. -/
def key : MemberDeclaration → String ⊕ String
  | .attr declared => .inl declared.name
  | .method name _ => .inr name

/-- The complaint about a member under a name that is taken. -/
def duplicate (className : String) : MemberDeclaration → LayoutFault
  | .attr declared => .duplicateAttribute declared.name className
  | .method name _ => .duplicateMethod name className

/-- The attributes among the members. -/
def attributesOf (members : List MemberDeclaration) : List AttributeDeclaration :=
  members.filterMap fun
    | .attr declared => some declared
    | .method _ _ => none

/-- The methods among the members, each with its name. -/
def methodsOf (members : List MemberDeclaration) : List (String × MethodDeclaration) :=
  members.filterMap fun
    | .attr _ => none
    | .method name declared => some (name, declared)

variable {members : List MemberDeclaration} {name : String}

theorem attributesOf_append (members others : List MemberDeclaration) :
    attributesOf (members ++ others) = attributesOf members ++ attributesOf others :=
  List.filterMap_append

theorem methodsOf_append (members others : List MemberDeclaration) :
    methodsOf (members ++ others) = methodsOf members ++ methodsOf others :=
  List.filterMap_append

theorem mem_map_attributesOf :
    name ∈ (attributesOf members).map (·.name) ↔ ∃ earlier ∈ members, earlier.key = .inl name := by
  simp only [attributesOf, List.mem_map, List.mem_filterMap]
  constructor
  · rintro ⟨declared, ⟨_ | _, member, ⟨⟩⟩, rfl⟩
    exact ⟨_, member, rfl⟩
  · rintro ⟨declared | _, member, ⟨⟩⟩
    exact ⟨declared, ⟨_, member, rfl⟩, rfl⟩

theorem mem_map_methodsOf :
    name ∈ (methodsOf members).map (·.1) ↔ ∃ earlier ∈ members, earlier.key = .inr name := by
  simp only [methodsOf, List.mem_map, List.mem_filterMap]
  constructor
  · rintro ⟨_, ⟨_ | _, member, ⟨⟩⟩, rfl⟩
    exact ⟨_, member, rfl⟩
  · rintro ⟨_ | ⟨_, declared⟩, member, ⟨⟩⟩
    exact ⟨(name, declared), ⟨_, member, rfl⟩, rfl⟩

end MemberDeclaration

namespace ClassLayout

open MemberDeclaration (attributesOf methodsOf attributesOf_append methodsOf_append mem_map_attributesOf
  mem_map_methodsOf)

variable {className name : String} {members : List MemberDeclaration} {layout after : ClassLayout}
  {fault : LayoutFault}

/-- The layout after a run of declarations, of which some may fail. -/
def declareAll (layout : ClassLayout) (members : List MemberDeclaration) : ClassLayout :=
  members.foldl (fun layout member => (layout.declare member).2) layout

/-- An attribute gets the next position, or fails if there is one for its name. -/
theorem declare_attr (layout : ClassLayout) (declared : AttributeDeclaration) :
    layout.declare (.attr declared) =
      if layout.slots.lookup declared.name = none then
        (.ok (), { layout with
          attributes := layout.attributes ++ [declared]
          slots := (declared.name, layout.attributes.length) :: layout.slots })
      else (.error (.duplicateAttribute declared.name layout.name), layout) := by
  change ExceptT.run (ite ((layout.slots.lookup declared.name).isSome = true) _ _ : Declaring Unit) layout = _
  cases layout.slots.lookup declared.name <;> rfl

/-- A method gets the next position, or fails if there is one for its name. -/
theorem declare_method (layout : ClassLayout) (name : String) (declared : MethodDeclaration) :
    layout.declare (.method name declared) =
      if layout.methodIndex.lookup name = none then
        (.ok (), { layout with
          methods := layout.methods ++ [(name, declared)]
          methodIndex := (name, layout.methods.length) :: layout.methodIndex })
      else (.error (.duplicateMethod name layout.name), layout) := by
  change ExceptT.run (ite ((layout.methodIndex.lookup name).isSome = true) _ _ : Declaring Unit) layout = _
  cases layout.methodIndex.lookup name <;> rfl

/-- What a layout keeps of a run of declarations: of each sort of members the first one under each name. -/
structure Records (layout : ClassLayout) (className : String) (members : List MemberDeclaration) : Prop where
  name_eq : layout.name = className
  attributes : Catalogs (·.name) layout.slots layout.attributes (attributesOf members)
  methods : Catalogs (·.1) layout.methodIndex layout.methods (methodsOf members)

/-- What fails because its name is not new leaves the layout as it is. -/
theorem ite_ok_eq_error_iff {isNew taken : Prop} [Decidable isNew] (isNew_iff : isNew ↔ ¬taken)
    {changed : ClassLayout} {complaint : LayoutFault} :
    (if isNew then (Except.ok (), changed) else (.error complaint, layout)) = (.error fault, after) ↔
      taken ∧ fault = complaint ∧ after = layout := by
  split
  case isTrue new => simp [isNew_iff.mp new]
  case isFalse old => simp [not_not.mp (mt isNew_iff.mpr old), eq_comm]

namespace Records

theorem nil (className : String) : Records { name := className } className [] :=
  ⟨rfl, .nil, .nil⟩

/-- Lists and indices stay in step by a declaration, whether it fails or not. -/
theorem declare (records : layout.Records className members) (member : MemberDeclaration) :
    (layout.declare member).2.Records className (members ++ [member]) := by
  obtain ⟨sameName, attributes, methods⟩ := records
  -- Each case is about one sort of members, of which the other one takes no notice.
  cases member with
  | attr declared =>
    have untouched : methodsOf (members ++ [.attr declared]) = methodsOf members := by
      rw [methodsOf_append]
      exact List.append_nil _
    rw [declare_attr]
    split
    case isTrue isNew =>
      refine ⟨sameName, ?_, untouched ▸ methods⟩
      rw [attributesOf_append]
      exact attributes.push declared isNew
    case isFalse taken =>
      refine ⟨sameName, ?_, untouched ▸ methods⟩
      rw [attributesOf_append]
      exact attributes.skip declared taken
  | method name declared =>
    have untouched : attributesOf (members ++ [.method name declared]) = attributesOf members := by
      rw [attributesOf_append]
      exact List.append_nil _
    rw [declare_method]
    split
    case isTrue isNew =>
      refine ⟨sameName, untouched ▸ attributes, ?_⟩
      rw [methodsOf_append]
      exact methods.push (name, declared) isNew
    case isFalse taken =>
      refine ⟨sameName, untouched ▸ attributes, ?_⟩
      rw [methodsOf_append]
      exact methods.skip (name, declared) taken

/-- A declaration that succeeds is recorded with those before. -/
theorem extend (records : layout.Records className members) {member : MemberDeclaration}
    (extended : layout.extend member = .ok after) : after.Records className (members ++ [member]) := by
  have recorded := records.declare member
  unfold ClassLayout.extend at extended
  split at extended
  case h_1 declared =>
    cases extended
    rwa [declared] at recorded
  case h_2 => cases extended

/-- A declaration fails exactly if its name has been declared before among those of its sort, and then the layout
stays as it is. -/
theorem declare_eq_error_iff (records : layout.Records className members) (member : MemberDeclaration) :
    layout.declare member = (.error fault, after) ↔
      (∃ earlier ∈ members, earlier.key = member.key) ∧ fault = member.duplicate className ∧ after = layout := by
  obtain ⟨rfl, attributes, methods⟩ := records
  cases member with
  | attr declared =>
    rw [declare_attr]
    exact ite_ok_eq_error_iff (attributes.lookup_eq_none_iff.trans (not_congr mem_map_attributesOf))
  | method name declared =>
    rw [declare_method]
    exact ite_ok_eq_error_iff (methods.lookup_eq_none_iff.trans (not_congr mem_map_methodsOf))

/-- The slot of a name is the position at which the attribute of this name stands. -/
theorem slotIndex?_eq_some_iff (records : layout.Records className members) {position : Nat} :
    layout.slotIndex? name = some position ↔
      ∃ declared, layout.attributes[position]? = some declared ∧ declared.name = name := by
  rw [slotIndex?, records.attributes.indexes, List.getElem?_map, Option.map_eq_some_iff]

/-- The index of the methods knows the position at which the method of a name stands. -/
theorem lookup_methodIndex_eq_some_iff (records : layout.Records className members) {position : Nat} :
    layout.methodIndex.lookup name = some position ↔ ∃ declared, layout.methods[position]? = some (name, declared) := by
  rw [records.methods.indexes, List.getElem?_map, Option.map_eq_some_iff]
  constructor
  · rintro ⟨⟨_, declared⟩, stands, rfl⟩
    exact ⟨declared, stands⟩
  · rintro ⟨declared, stands⟩
    exact ⟨(name, declared), stands, rfl⟩

/-- An attribute is found under its name. -/
theorem attribute?_eq_some_iff (records : layout.Records className members) {declared : AttributeDeclaration} :
    layout.attribute? name = some declared ↔ declared ∈ layout.attributes ∧ declared.name = name :=
  records.attributes.bind_lookup_eq_some_iff

/-- A method is found under its name. -/
theorem method?_eq_some_iff (records : layout.Records className members) {declared : MethodDeclaration} :
    layout.method? name = some declared ↔ (name, declared) ∈ layout.methods := by
  rw [method?, Option.map_eq_some_iff]
  constructor
  · rintro ⟨⟨_, _⟩, found, rfl⟩
    obtain ⟨member, rfl⟩ := records.methods.bind_lookup_eq_some_iff.mp found
    exact member
  · intro member
    exact ⟨(name, declared), records.methods.bind_lookup_eq_some_iff.mpr ⟨member, rfl⟩, rfl⟩

end Records

/-- Lists and indices stay in step by any run of declarations. -/
theorem records_declareAll (className : String) (members : List MemberDeclaration) :
    (declareAll { name := className } members).Records className members := by
  induction members using List.reverseRecOn with
  | nil => exact .nil className
  | append_singleton members member ih =>
    rw [declareAll, List.foldl_append]
    exact ih.declare member

/-- After any run of declarations on a new layout, of which some may fail, both sorts of members have unique names and
stand in the order of their declaration, where the first one under a name counts; the indices have the positions of the
attributes and methods, which are found by their names; and a further declaration fails exactly if its name has been
declared before among those of its sort, which leaves the layout as it is. -/
theorem indexed_declareAll (className : String) (members : List MemberDeclaration) :
    let layout := declareAll { name := className } members
    layout.name = className ∧
      (layout.attributes.map (·.name)).Nodup ∧ (layout.methods.map (·.1)).Nodup ∧
      layout.attributes = firsts (·.name) (attributesOf members) ∧
      layout.methods = firsts (·.1) (methodsOf members) ∧
      (∀ name position, layout.slotIndex? name = some position ↔
        ∃ declared, layout.attributes[position]? = some declared ∧ declared.name = name) ∧
      (∀ name declared, layout.attribute? name = some declared ↔
        declared ∈ layout.attributes ∧ declared.name = name) ∧
      (∀ name position, layout.methodIndex.lookup name = some position ↔
        ∃ declared, layout.methods[position]? = some (name, declared)) ∧
      (∀ name declared, layout.method? name = some declared ↔ (name, declared) ∈ layout.methods) ∧
      ∀ member fault after, layout.declare member = (.error fault, after) ↔
        (∃ earlier ∈ members, earlier.key = member.key) ∧ fault = member.duplicate className ∧ after = layout := by
  have records := records_declareAll className members
  exact ⟨records.name_eq, records.attributes.indexes.nodup, records.methods.indexes.nodup,
    records.attributes.eq_firsts, records.methods.eq_firsts, fun _ _ => records.slotIndex?_eq_some_iff,
    fun _ _ => records.attribute?_eq_some_iff, fun _ _ => records.lookup_methodIndex_eq_some_iff,
    fun _ _ => records.method?_eq_some_iff, fun member _ _ => records.declare_eq_error_iff member⟩

/-- The second attribute of a name is refused, and a method may have the name of an attribute. -/
example :
    let members : List MemberDeclaration :=
      [.attr ⟨"w", .int, false⟩, .attr ⟨"b", .int, false⟩, .attr ⟨"w", .bool, true⟩, .method "w" ⟨"f", false⟩]
    let layout := declareAll { name := "c" } members
    layout.attributes = [⟨"w", .int, false⟩, ⟨"b", .int, false⟩] ∧ layout.methods = [("w", ⟨"f", false⟩)] ∧
      layout.slotIndex? "b" = some 1 ∧ layout.attribute? "c" = none := by
  decide +kernel

end ClassLayout

/-! ### Classes of a program -/

namespace Program

variable {program : Program} {op : OpId} {className : String} {members : List MemberDeclaration}
  {layout after : ClassLayout}

/-- An operation inside of a class declares a member, or nothing. -/
theorem exists_records_of_addMember (records : layout.Records className members)
    (added : program.addMember layout op = .ok after) : ∃ members, after.Records className members := by
  unfold addMember at added
  split at added
  case h_1 =>
    obtain ⟨type, -, extended⟩ := of_bind_eq_ok added
    exact ⟨_, records.extend extended⟩
  case h_2 => exact ⟨_, records.extend added⟩
  case h_3 =>
    cases added
    exact ⟨members, records⟩

/-- The layout of a class comes from a run of declarations. -/
theorem exists_records_of_classLayout (isLayout : program.classLayout op = .ok layout) :
    ∃ members, layout.Records (program.symbolOf op "sym_name") members := by
  let className := program.symbolOf op "sym_name"
  refine holds_of_foldlM_eq_ok (fun layout => ∃ members, layout.Records className members) isLayout
    ⟨[], .nil className⟩ fun before _ _ after added ⟨members, records⟩ => ?_
  exact exists_records_of_addMember records added

end Program

end TensorIR
