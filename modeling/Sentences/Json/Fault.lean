/-!
# Faults of JSON text

What can be wrong with a JSON text that is read as a value of a given shape. Reading goes from
left to right and reports the first fault it meets.
-/

namespace Sentences.Json

/-- Why a text was not read. -/
inductive Fault where
  /-- The text does not follow the rules of JSON here. -/
  | malformed
  /-- There is a value here, but not of the shape that is wanted. -/
  | mismatch
  /-- The text ends too early. -/
  | truncated
  deriving DecidableEq

end Sentences.Json
