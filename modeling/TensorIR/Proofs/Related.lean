import Mathlib.Data.List.Forall2

/-!
# Lists that are related item by item

Two lists are related if their items are, position by position. This module has what the library does not
say about such lists, and about lists of answers that may fail.

## Main results

* `forall₂_getElem?`, `forall₂_mem_right` — the items of related lists
* `forall₂_comp`, `forall₂_zip_zip`, `forall₂_zipIdx_zip` — lists that are related in two steps, or beside others
* `forall₂_of_mapM_eq_ok`, `mapM_eq_ok_of_forall₂`, `exists_mapM_eq_ok`, `exists_foldlM_eq_ok` — answers about the items
  of a list
-/

namespace TensorIR

section Items

variable {α β γ δ : Type} {related : α → β → Prop} {items : List α} {others : List β}

/-- Values at the same position are related if all are. -/
theorem forall₂_getElem? (each : List.Forall₂ related items others) {index : Nat} {item : α}
    (isItem : items[index]? = some item) : ∃ other, others[index]? = some other ∧ related item other := by
  induction each generalizing index with
  | nil => cases isItem
  | cons first _ ih =>
    cases index with
    | zero =>
      cases isItem
      exact ⟨_, rfl, first⟩
    | succ index => exact ih isItem

/-- What is on the right of related lists is related to something on the left. -/
theorem forall₂_mem_right (same : List.Forall₂ related items others) {other : β} (member : other ∈ others) :
    ∃ item ∈ items, related item other := by
  induction same with
  | nil => cases member
  | cons first _ ih =>
    rcases List.mem_cons.mp member with rfl | later
    · exact ⟨_, List.mem_cons_self, first⟩
    · obtain ⟨item, among, related⟩ := ih later
      exact ⟨item, List.mem_cons_of_mem _ among, related⟩

theorem forall₂_mem_left (same : List.Forall₂ related items others) {item : α} (member : item ∈ items) :
    ∃ other ∈ others, related item other :=
  forall₂_mem_right same.flip member

theorem forall₂_comp {later : β → γ → Prop} {final : List γ} (before : List.Forall₂ related items others)
    (behind : List.Forall₂ later others final) :
    List.Forall₂ (fun item value => ∃ between, related item between ∧ later between value) items final := by
  induction before generalizing final with
  | nil =>
    cases behind
    exact .nil
  | cons holds _ ih =>
    cases behind with
    | cons also others => exact .cons ⟨_, holds, also⟩ (ih others)

theorem forall₂_zip_zip {second : γ → δ → Prop} {partners : List γ} {counterparts : List δ}
    (each : List.Forall₂ related items others) (along : List.Forall₂ second partners counterparts) :
    List.Forall₂ (fun pair other => related pair.1 other.1 ∧ second pair.2 other.2) (items.zip partners)
      (others.zip counterparts) := by
  induction each generalizing partners counterparts with
  | nil => exact .nil
  | cons head _ ih =>
    cases along with
    | nil => exact .nil
    | cons next later => exact .cons ⟨head, next⟩ (ih later)

/-- Two lists have the same images if their items have, position by position. -/
theorem map_eq_map_iff_forall₂ {first : α → γ} {second : β → γ} :
    items.map first = others.map second ↔
      List.Forall₂ (fun item other => first item = second other) items others := by
  have same : items.map first = others.map second ↔
      List.Forall₂ (· = ·) (items.map first) (others.map second) := by
    rw [List.forall₂_eq_eq_eq]
  rw [same, List.forall₂_map_left_iff, List.forall₂_map_right_iff]

theorem forall₂_zipIdx_zip (same : List.Forall₂ related items others) (partners : List γ) (index : Nat) :
    List.Forall₂ (fun item other => related item.1.1 other.1.1 ∧ item.1.2 = other.1.2 ∧ item.2 = other.2)
      ((items.zip partners).zipIdx index) ((others.zip partners).zipIdx index) := by
  induction same generalizing partners index with
  | nil => exact .nil
  | cons here _ ih =>
    cases partners with
    | nil => exact .nil
    | cons partner partners => exact .cons ⟨here, rfl, rfl⟩ (ih partners (index + 1))

end Items

section Answers

variable {α β ε : Type} {find : α → Except ε β} {items : List α}

theorem forall₂_of_mapM_eq_ok {found : List β} (run : items.mapM find = .ok found) :
    List.Forall₂ (fun item value => find item = .ok value) items found := by
  induction items generalizing found with
  | nil =>
    cases run
    exact .nil
  | cons item items ih =>
    rw [List.mapM_cons] at run
    cases isFirst : find item with
    | error fault =>
      rw [isFirst] at run
      cases run
    | ok first =>
      rw [isFirst] at run
      cases areLater : items.mapM find with
      | error fault =>
        rw [areLater] at run
        cases run
      | ok later =>
        rw [areLater] at run
        cases run
        exact .cons isFirst (ih areLater)

theorem mapM_eq_ok_of_forall₂ {found : List β}
    (each : List.Forall₂ (fun item value => find item = .ok value) items found) : items.mapM find = .ok found := by
  induction each with
  | nil => rfl
  | cons isValue _ ih =>
    rw [List.mapM_cons, isValue, ih]
    rfl

/-- If there is an answer for each item, then there are answers for all of them. -/
theorem exists_mapM_eq_ok (each : ∀ item ∈ items, ∃ value, find item = .ok value) :
    ∃ values, items.mapM find = .ok values ∧ values.length = items.length := by
  induction items with
  | nil => exact ⟨[], rfl, rfl⟩
  | cons item items ih =>
    obtain ⟨value, isValue⟩ := each item List.mem_cons_self
    obtain ⟨values, areValues, length_eq⟩ := ih fun other member => each other (List.mem_cons_of_mem _ member)
    refine ⟨value :: values, ?_, by rw [List.length_cons, List.length_cons, length_eq]⟩
    rw [List.mapM_cons, isValue, areValues]
    rfl

/-- If every step has an answer, then all steps have one together. -/
theorem exists_foldlM_eq_ok {step : β → α → Except ε β}
    (each : ∀ state, ∀ item ∈ items, ∃ next, step state item = .ok next) (start : β) :
    ∃ result, items.foldlM step start = .ok result := by
  induction items generalizing start with
  | nil => exact ⟨start, rfl⟩
  | cons item items ih =>
    obtain ⟨next, isNext⟩ := each start item List.mem_cons_self
    obtain ⟨result, isResult⟩ := ih (fun state other member => each state other (List.mem_cons_of_mem _ member))
      next
    exact ⟨result, by rw [List.foldlM_cons, isNext]; exact isResult⟩

end Answers

end TensorIR
