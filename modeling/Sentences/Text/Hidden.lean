import Sentences.Text.Extending
import Sentences.Text.Ignorable
import Sentences.Text.Unprintable

/-!
# Characters that are not shown as they are

A character is hidden when it is unprintable, when it extends the character before it, or when it
may be ignored: standing alone it could not be told, or not be seen.
-/

namespace Sentences.Text

/-- Whether a character is shown by its number. -/
def isHidden (c : Char) : Bool :=
  inRanges unprintable c.toNat || inRanges extending c.toNat || inRanges ignorable c.toNat

end Sentences.Text
