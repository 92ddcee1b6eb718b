/-! # Sets of code points

A set of code points is a list of closed ranges in increasing order, so that membership is a walk
that stops at the first range beyond the point.
-/

namespace TypedScript.Text.Unicode

abbrev CodeRanges := List (Nat × Nat)

def CodeRanges.mem : CodeRanges → Nat → Bool
  | [], _ => false
  | (first, last) :: more, n => first ≤ n && (n ≤ last || CodeRanges.mem more n)

end TypedScript.Text.Unicode
