namespace ScriptLang.Text

/-- Code points as ranges, both ends included.  The ranges of a table increase, so that a search
may stop at the first range that begins too late. -/
abbrev CodePoints := List (Nat × Nat)

/-- Whether a code point lies in one of the ranges. -/
def CodePoints.contains : CodePoints → Nat → Bool
  | [], _ => false
  | (first, last) :: ranges, n =>
      decide (first ≤ n) && (decide (n ≤ last) || CodePoints.contains ranges n)

end ScriptLang.Text
