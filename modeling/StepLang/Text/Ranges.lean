/-!
# Sets of characters as ranges of code points
-/

namespace StepLang

/-- Ascending, separate ranges of code points, both ends included. -/
abbrev Ranges := List (Nat × Nat)

namespace Ranges

def has : Ranges → Nat → Bool
  | [], _ => false
  | (lo, hi) :: rest, n => if n < lo then false else if n ≤ hi then true else has rest n

end Ranges

end StepLang
