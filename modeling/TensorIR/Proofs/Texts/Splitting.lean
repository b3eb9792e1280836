import Mathlib
import TensorIR.Proofs.Related
import TensorIR.Text.Blank
import TensorIR.Text.Split

/-!
# Joined texts are split again

Parts that are joined with a separator are found again by cutting at each separator, if none of them has one in it.
The commas that stand outside all brackets and quotes cut a text into the parts that were joined with them, if each part
closes the brackets and quotes that it opens: such a part is passed over as a whole, at whatever depth it stands.

## Main definitions

* `Text.IsWord` — a text without commas, brackets, quotes and white space
* `Text.PassesFrom` — a text that is passed over as a whole, from a certain depth of brackets on

## Main results

* `Text.splitOn_intercalate`, `Text.splitOn_flatMap_append` — parts without the separator
* `Text.PassesFrom.bracketed`, `Text.PassesFrom.quoted` — what stands in brackets or quotes is passed over
* `Text.splitTopLevel_intercalate` — parts that are passed over
-/

namespace TensorIR

/-- Values are read from their codes if each of them is. -/
theorem mapM_map_eq_ok {α β ε : Type} {find : α → Except ε β} {code : β → α} {values : List β}
    (each : ∀ value ∈ values, find (code value) = .ok value) : (values.map code).mapM find = .ok values :=
  mapM_eq_ok_of_forall₂ (List.forall₂_map_left_iff.mpr (List.forall₂_same.mpr each))

namespace Text

/-! ### White space -/

theorem withoutBlanks_append (first second : List Char) :
    withoutBlanks (first ++ second) = withoutBlanks first ++ withoutBlanks second :=
  List.filter_append ..

theorem withoutBlanks_cons {c : Char} (solid : isBlank c = false) (text : List Char) :
    withoutBlanks (c :: text) = c :: withoutBlanks text :=
  List.filter_cons_of_pos (by rw [solid, Bool.not_false])

theorem withoutBlanks_intercalate (separator : List Char) (parts : List (List Char)) :
    withoutBlanks (separator.intercalate parts) = (withoutBlanks separator).intercalate (parts.map withoutBlanks) := by
  induction parts with
  | nil => rfl
  | cons part parts ih =>
    cases parts with
    | nil => simp
    | cons next parts =>
      rw [List.intercalate_cons_cons, withoutBlanks_append, withoutBlanks_append, ih]
      simp only [List.map_cons, List.intercalate_cons_cons]

variable {text : List Char}

theorem withoutBlanks_eq_self (solid : ∀ c ∈ text, isBlank c = false) : withoutBlanks text = text := by
  rw [withoutBlanks, List.filter_eq_self]
  intro c member
  rw [solid c member, Bool.not_false]

theorem trimmed_withoutBlanks (text : List Char) : trimmed (withoutBlanks text) = withoutBlanks text := by
  have kept {text : List Char} (solid : ∀ c ∈ text, isBlank c = false) : text.dropWhile isBlank = text := by
    cases text with
    | nil => rfl
    | cons c rest => rw [List.dropWhile_cons_of_neg (by simp [solid c List.mem_cons_self])]
  have solid : ∀ c ∈ withoutBlanks text, isBlank c = false := fun c => isBlank_of_mem_withoutBlanks
  rw [trimmed, kept solid, kept (by simpa using solid), List.reverse_reverse]

/-! ### Cutting at each separator -/

theorem length_le_length_intercalate {part separator : List Char} {parts : List (List Char)} (member : part ∈ parts) :
    part.length ≤ (separator.intercalate parts).length := by
  induction parts with
  | nil => cases member
  | cons first parts ih =>
    cases parts with
    | nil =>
      obtain rfl := List.mem_singleton.mp member
      rw [List.intercalate_singleton]
    | cons next parts =>
      rw [List.intercalate_cons_cons, List.length_append, List.length_append]
      rcases List.mem_cons.mp member with rfl | later
      · omega
      · have := ih later
        omega

theorem splitOn_eq (separator : Char) (text : List Char) : splitOn separator text = text.splitOn separator := by
  induction text with
  | nil => rfl
  | cons c rest ih =>
    have some_parts := splitOn_ne_nil separator rest
    rw [splitOn, List.splitOn_cons_eq_if_modifyHead, ← ih]
    simp only [beq_iff_eq]
    split
    · rfl
    · cases parts : splitOn separator rest with
      | nil => exact absurd parts some_parts
      | cons part parts => rfl

theorem splitOn_intercalate {separator : Char} {parts : List (List Char)} (some_parts : parts ≠ [])
    (clear : ∀ part ∈ parts, separator ∉ part) : splitOn separator ([separator].intercalate parts) = parts := by
  rw [splitOn_eq, List.splitOn_intercalate separator clear some_parts]

/-- Parts with a separator behind each are found again in front of the parts of what follows them. -/
theorem splitOn_flatMap_append {separator : Char} {parts : List (List Char)} (clear : ∀ part ∈ parts, separator ∉ part)
    (last : List Char) : splitOn separator ((parts.flatMap fun part => part ++ [separator]) ++ last) =
      parts ++ splitOn separator last := by
  rw [splitOn_eq, splitOn_eq]
  induction parts with
  | nil => rfl
  | cons part parts ih =>
    rw [List.flatMap_cons, List.append_assoc, List.append_assoc, List.singleton_append,
      List.splitOn_append_cons_self_of_not_mem (clear part List.mem_cons_self),
      ih fun other member => clear other (List.mem_cons_of_mem part member), List.cons_append]

/-! ### Cutting outside of brackets and quotes -/

/-- The character neither opens nor closes brackets or quotes, and is no comma. -/
def isPlain (c : Char) : Bool :=
  c != ',' && c != '"' && c != '<' && c != '[' && c != '>' && c != ']'

theorem isPlain_of_isDigit {c : Char} (digit : c.isDigit = true) : isPlain c = true := by
  rw [isPlain]
  by_contra special
  simp only [Bool.and_eq_true, bne_iff_ne, ne_eq, not_and_or, not_not] at special
  rcases special with ((((rfl | rfl) | rfl) | rfl) | rfl) | rfl <;> cases digit

theorem isBlank_of_isDigit {c : Char} (digit : c.isDigit = true) : isBlank c = false := by
  have bounds : 48 ≤ c.toNat ∧ c.toNat ≤ 57 := by
    simpa [Char.isDigit, UInt32.le_iff_toNat_le] using digit
  simp only [isBlank, Bool.or_eq_false_iff, Bool.and_eq_false_iff, beq_eq_false_iff_ne, decide_eq_false_iff_not]
  omega

/-- Characters that are plain, and no white space. -/
def IsWord (text : List Char) : Prop :=
  ∀ c ∈ text, isPlain c = true ∧ isBlank c = false

theorem IsWord.withoutBlanks_eq (word : IsWord text) : withoutBlanks text = text :=
  withoutBlanks_eq_self fun c member => (word c member).2

/-- The text belongs to one part as a whole, if it stands at this depth of brackets or a greater one, and leaves the
depth as it is. -/
def PassesFrom (least : Int) (text : List Char) : Prop :=
  ∀ depth, least ≤ depth → ∀ current rest,
    splitTopLevelFrom depth false current (text ++ rest) =
      splitTopLevelFrom depth false (text.reverse ++ current) rest

namespace PassesFrom

variable {least : Int} {first second inner : List Char} {parts : List (List Char)}

theorem nil (least : Int) : PassesFrom least [] :=
  fun _ _ _ _ => rfl

theorem append (before : PassesFrom least first) (behind : PassesFrom least second) :
    PassesFrom least (first ++ second) := by
  intro depth deep current rest
  rw [List.append_assoc, before depth deep, behind depth deep, List.reverse_append, List.append_assoc]

theorem deeper {more : Int} (passes : PassesFrom least text) (le : least ≤ more) : PassesFrom more text :=
  fun depth deep => passes depth (le.trans deep)

theorem word (word : IsWord text) (least : Int) : PassesFrom least text := by
  induction text with
  | nil => exact nil least
  | cons c text ih =>
    have single : PassesFrom least [c] := by
      intro depth _ current rest
      have isPlain_c := (word c List.mem_cons_self).1
      simp only [isPlain, Bool.and_eq_true, bne_iff_ne, ne_eq] at isPlain_c
      simp [splitTopLevelFrom, isPlain_c]
    exact single.append (ih fun d member => word d (List.mem_cons_of_mem c member))

/-- Inside of brackets, a comma does not end a part. -/
theorem comma : PassesFrom 1 [','] := by
  intro depth deep current rest
  have inside : depth ≠ 0 := by omega
  simp [splitTopLevelFrom, inside]

/-- Brackets are passed over at any depth if what they hold is passed over inside of brackets. -/
theorem bracketed {opening closing : Char} (opens : opening = '<' ∨ opening = '[')
    (closes : closing = '>' ∨ closing = ']') (passes : PassesFrom 1 inner) :
    PassesFrom 0 (opening :: inner ++ [closing]) := by
  intro depth deep current rest
  have enter : splitTopLevelFrom depth false current (opening :: (inner ++ closing :: rest)) =
      splitTopLevelFrom (depth + 1) false (opening :: current) (inner ++ closing :: rest) := by
    rcases opens with rfl | rfl <;> simp [splitTopLevelFrom]
  have leave (current : List Char) : splitTopLevelFrom (depth + 1) false current (closing :: rest) =
      splitTopLevelFrom depth false (closing :: current) rest := by
    rcases closes with rfl | rfl <;> simp [splitTopLevelFrom]
  calc splitTopLevelFrom depth false current (opening :: inner ++ [closing] ++ rest)
    _ = splitTopLevelFrom depth false current (opening :: (inner ++ closing :: rest)) := by simp
    _ = splitTopLevelFrom (depth + 1) false (inner.reverse ++ opening :: current) (closing :: rest) := by
      rw [enter, passes (depth + 1) (by omega)]
    _ = splitTopLevelFrom depth false (closing :: (inner.reverse ++ opening :: current)) rest := leave _
    _ = splitTopLevelFrom depth false ((opening :: inner ++ [closing]).reverse ++ current) rest := by simp

/-- Quotes are passed over with all that they hold. -/
theorem quoted (clear : '"' ∉ inner) : PassesFrom 0 ('"' :: inner ++ ['"']) := by
  intro depth _ current rest
  -- Up to the closing quote, neither brackets nor commas count.
  have inside (current : List Char) : splitTopLevelFrom depth true current (inner ++ '"' :: rest) =
      splitTopLevelFrom depth true (inner.reverse ++ current) ('"' :: rest) := by
    induction inner generalizing current with
    | nil => rfl
    | cons c inner ih =>
      rw [List.mem_cons, not_or] at clear
      rw [List.cons_append, splitTopLevelFrom]
      simp only [Bool.not_true, Bool.false_eq_true, and_false, if_false, if_true, if_neg (Ne.symm clear.1)]
      rw [ih clear.2]
      simp
  calc splitTopLevelFrom depth false current ('"' :: inner ++ ['"'] ++ rest)
    _ = splitTopLevelFrom depth true ('"' :: current) (inner ++ '"' :: rest) := by simp [splitTopLevelFrom]
    _ = splitTopLevelFrom depth true (inner.reverse ++ '"' :: current) ('"' :: rest) := inside _
    _ = splitTopLevelFrom depth false (('"' :: inner ++ ['"']).reverse ++ current) rest := by
      simp [splitTopLevelFrom]

theorem intercalate (each : ∀ part ∈ parts, PassesFrom 0 part) : PassesFrom 1 ([','].intercalate parts) := by
  induction parts with
  | nil => exact nil 1
  | cons part parts ih =>
    have here : PassesFrom 1 part := (each part List.mem_cons_self).deeper (by decide)
    have later := ih fun other member => each other (List.mem_cons_of_mem part member)
    cases parts with
    | nil => simpa using here
    | cons next parts =>
      -- The comma is passed over because all of this stands inside of brackets.
      rw [List.intercalate_cons_cons]
      exact (here.append comma).append later

end PassesFrom

/-- Parts that are passed over as a whole are found again. -/
theorem splitTopLevel_intercalate {parts : List (List Char)}
    (each : ∀ part ∈ parts, PassesFrom 0 part ∧ part ≠ []) : splitTopLevel ([','].intercalate parts) = parts := by
  rw [splitTopLevel]
  induction parts with
  | nil => rfl
  | cons part parts ih =>
    obtain ⟨passes, some_part⟩ := each part List.mem_cons_self
    have later := ih fun other member => each other (List.mem_cons_of_mem part member)
    -- The last part ends with the text, every other one at the comma behind it.
    cases parts with
    | nil =>
      have whole := passes 0 le_rfl [] []
      rw [List.append_nil, List.append_nil] at whole
      rw [List.intercalate_singleton, whole]
      simp [splitTopLevelFrom, some_part]
    | cons next parts =>
      rw [List.intercalate_cons_cons, List.append_assoc, passes 0 le_rfl, List.singleton_append, splitTopLevelFrom,
        later]
      simp

end Text

end TensorIR
