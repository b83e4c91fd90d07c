import Mathlib.Data.List.DropRight
import Mathlib.Tactic

/-!
# Java strings

A string is the list of its characters, as far as the app looks at them.
-/

namespace ACGlass
namespace Android

abbrev Text := List Char

/-- What `String.trim` takes off both ends. -/
def isTrimmed (c : Char) : Bool := c ≤ ' '

def trim (s : Text) : Text := (s.dropWhile isTrimmed).rdropWhile isTrimmed

/-- The string is not `null` and not blank. -/
def present (s : Option Text) : Bool := s.any fun t => !(trim t).isEmpty

end Android
end ACGlass
