/-!
Sets of code points given as ascending lists of closed ranges, or by the lengths of their runs.
-/

namespace ScriptTree.Text

/-- Membership in an ascending list of closed ranges. The search stops at the first range that
starts above the code point. -/
def inRanges (c : Nat) : List (Nat × Nat) → Bool
  | [] => false
  | (low, high) :: rest => if c < low then false else c ≤ high || inRanges c rest

/-- Membership in a set that is given by lengths: from a code point on, so many are not in it, so many after
them are, and so on in turn. -/
def inRuns (c start : Nat) : List Nat → Bool
  | gap :: run :: rest =>
    let next := start + gap
    if c < next then false else c < next + run || inRuns c (next + run) rest
  | _ => false

end ScriptTree.Text
