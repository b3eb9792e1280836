import TensorIR.Proofs.Texts.Integers
import TensorIR.Proofs.Texts.Splitting
import TensorIR.Proofs.TypeTexts

/-!
# The texts of tensors and buffers are read back

The type of a tensor or a buffer is written with its sizes in front of its type of element, with the letter `x` behind
each size. It is read by cutting the text at this letter, which stands in no size, and in the names of all types of
element but one: a tensor or a buffer of indices is written with a text that cannot be read.

## Main definitions

* `ShapedType.sizeCode` — what is written for a size, without the letter behind it

## Main results

* `ShapedType.splitOn_body` — the parts between the letters `x`
* `ShapedType.read_text_eq` — which types are read back from their texts
-/

namespace TensorIR

namespace ShapedType

/-- What is written for a size in front of the letter `x`. -/
def sizeCode (size : Int) : List Char :=
  if size < 0 then ['?'] else (toString size).toList

theorem toList_sizeText (size : Int) : (sizeText size).toList = sizeCode size ++ ['x'] := by
  rw [sizeText, sizeCode, String.toList_append]
  split <;> rfl

theorem not_mem_sizeCode (size : Int) : 'x' ∉ sizeCode size := by
  intro member
  rw [sizeCode] at member
  split at member
  · cases List.mem_singleton.mp member
  · rcases TensorInfo.isDigit_or_eq_of_mem_toString member with digit | minus
    · cases digit
    · cases minus

/-- A size that is known, or written as unknown, is read from what is written for it. -/
theorem readSize_sizeCode {size : Int} (least : -1 ≤ size) (most : size ≤ Number.maxInt64) (whole : List Char) :
    readSize whole (sizeCode size) = .ok size := by
  rw [readSize, sizeCode]
  split
  case isTrue unknown =>
    obtain rfl : size = -1 := by omega
    rfl
  case isFalse nonneg =>
    have inRange : Number.minInt64 ≤ size := by
      rw [Number.minInt64]
      omega
    have known : (toString size).toList ≠ ['?'] :=
      fun unknown => TensorInfo.toString_ne_unknown size (String.toList_inj.mp unknown)
    rw [if_neg known, Number.readInteger_toString inRange most]

/-- What is written between the angle brackets. -/
def body (type : ShapedType) : List Char :=
  ((type.shape.map sizeCode).flatMap fun code => code ++ ['x']) ++ type.element.text.toList

theorem toList_text (type : ShapedType) :
    type.text.toList = type.kind.word.toList ++ '<' :: (type.body ++ ['>']) := by
  simp [text, body, String.toList_join, List.flatMap_map, toList_sizeText]

theorem read_eq_readBody (type : ShapedType) :
    read type.text.toList = readBody type.kind type.text.toList (type.body ++ ['>']) := by
  have opening : type.text.toList = (type.kind.word ++ "<").toList ++ (type.body ++ ['>']) := by
    simp [toList_text]
  rw [read, opening]
  cases type.kind with
  | tensor => rw [show (ShapedKind.tensor.word ++ "<") = "tensor<" from rfl, Text.afterPrefix?_append]
  | memref =>
    rw [show (ShapedKind.memref.word ++ "<") = "memref<" from rfl, Text.afterPrefix?_append]
    simp [Text.afterPrefix?]

/-- The name of the type of an index is cut apart, all others are not. -/
theorem splitOn_element (element : ScalarType) : Text.splitOn 'x' element.text.toList =
    if element = .index then ["inde".toList, []] else [element.text.toList] := by
  cases element <;> rfl

theorem splitOn_body (type : ShapedType) : Text.splitOn 'x' type.body = type.shape.map sizeCode ++
    if type.element = .index then ["inde".toList, []] else [type.element.text.toList] := by
  have clear : ∀ code ∈ type.shape.map sizeCode, 'x' ∉ code := by
    intro code member
    obtain ⟨size, -, rfl⟩ := List.mem_map.mp member
    exact not_mem_sizeCode size
  rw [body, Text.splitOn_flatMap_append clear, splitOn_element]

/-- The type of a tensor or a buffer is read back from its text, unless its elements are indices: then the text is
refused, with an empty text in the place of the name of the type of element. -/
theorem read_text_eq (type : ShapedType) (sizes : ∀ size ∈ type.shape, -1 ≤ size ∧ size ≤ Number.maxInt64) :
    read type.text.toList = if type.element = .index then .error (.unknownScalar "") else .ok type := by
  rw [read_eq_readBody, readBody, Text.beforeLast?_concat]
  dsimp only
  rw [splitOn_body]
  split
  case isTrue =>
    rw [List.getLast?_append_of_ne_nil _ (List.cons_ne_nil _ _)]
    rfl
  case isFalse =>
    have areSizes : (type.shape.map sizeCode).mapM (readSize type.text.toList) = .ok type.shape :=
      mapM_map_eq_ok fun size member => readSize_sizeCode (sizes size member).1 (sizes size member).2 _
    rw [List.getLast?_concat, List.dropLast_concat, areSizes, Option.getD_some, String.ofList_toList,
      ScalarType.read_text]
    rfl

/-- A tensor with a size that is not known is read back, and a buffer of three indices is not. -/
theorem read_text_eq_indices :
    read (tensor [3, -1] .f32).text.toList = .ok (tensor [3, -1] .f32) ∧
      read (memref [3] .index).text.toList = .error (.unknownScalar "") := by
  have known : ∀ size ∈ (tensor [3, -1] .f32).shape, -1 ≤ size ∧ size ≤ Number.maxInt64 := by decide
  have three : ∀ size ∈ (memref [3] .index).shape, -1 ≤ size ∧ size ≤ Number.maxInt64 := by decide
  exact ⟨read_text_eq _ known, read_text_eq _ three⟩

end ShapedType

end TensorIR
