import TensorIR.Number.Integer

/-!
# What can be wrong with the text of a type

One constructor per cause, with the part of the text that shows it, and the sentence that reports
the cause.
-/

namespace TensorIR

/-- The reason why a text is not the text of a type. -/
inductive TypeFault where
  | unknownScalar (text : String)
  | notShaped (text : String)
  | unterminatedShaped (text : String)
  | invalidDimension (part text : String)
  | unknownDtype (text : String)
  | notSizesAndDtype (arguments : String)
  | notSizes (text : String)
  | integer (fault : Number.IntegerFault)
  | notKeyAndValue (arguments : String)
  | notQuoted (arguments : String)
  | unterminatedTorch (text : String)
  | unknownTorch (text : String)
  | notTorch (text : String)
  deriving DecidableEq, Repr

/-- The sentence that reports why a text is not the text of a type. -/
def TypeFault.message : TypeFault → String
  | unknownScalar text => s!"unknown scalar type: {text}"
  | notShaped text => s!"expected tensor or memref type, got {text}"
  | unterminatedShaped text => s!"unterminated shaped type: {text}"
  | invalidDimension part text => s!"invalid dimension {part} in {text}"
  | unknownDtype text => s!"unknown dtype: {text}"
  | notSizesAndDtype arguments => s!"expected tensor sizes and dtype, got <{arguments}>"
  | notSizes text => s!"expected sizes like [3,?], got {text}"
  | integer fault => fault.message
  | notKeyAndValue arguments => s!"expected key and value type in dict<{arguments}>"
  | notQuoted arguments => s!"expected quoted class name, got {arguments}"
  | unterminatedTorch text => s!"unterminated type: {text}"
  | unknownTorch text => s!"unknown torch type: !torch.{text}"
  | notTorch text => s!"expected a torch type, got {text}"

end TensorIR
