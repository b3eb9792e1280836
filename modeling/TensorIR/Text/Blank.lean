/-!
# White space

The twenty-five characters that Unicode calls white space, and the three operations on text that
look at them: deleting them all, and trimming them from both ends.
-/

namespace TensorIR

namespace Text

/-- The character has the property White_Space. -/
def isBlank (c : Char) : Bool :=
  let point := c.toNat
  (9 ≤ point && point ≤ 13) || point == 0x20 || point == 0x85 || point == 0xa0 ||
    point == 0x1680 || (0x2000 ≤ point && point ≤ 0x200a) || point == 0x2028 ||
    point == 0x2029 || point == 0x202f || point == 0x205f || point == 0x3000

/-- The text without any white space. -/
def withoutBlanks (text : List Char) : List Char :=
  text.filter fun c => !isBlank c

/-- The text without the white space at either end. -/
def trimmed (text : List Char) : List Char :=
  ((text.dropWhile isBlank).reverse.dropWhile isBlank).reverse

/-- Every character of the small ASCII class is white space here too. -/
theorem isBlank_of_isWhitespace {c : Char} (h : c.isWhitespace = true) : isBlank c = true := by
  simp only [Char.isWhitespace, Bool.or_eq_true, decide_eq_true_eq] at h
  rcases h with ((h | h) | h) | h <;> subst h <;> decide

@[simp]
theorem isBlank_of_mem_withoutBlanks {text : List Char} {c : Char} (h : c ∈ withoutBlanks text) :
    isBlank c = false := by
  simpa [withoutBlanks] using (List.mem_filter.mp h).2

end Text

end TensorIR
