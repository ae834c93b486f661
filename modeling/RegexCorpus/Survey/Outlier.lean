import RegexCorpus.Fault

/-!
# Outliers

Files with unusually many distinct patterns distort a corpus. They are those at or above a percentile
of the counts. Which count that is, is left to a rule for percentiles.
-/

namespace RegexCorpus.Survey

/-- A rule for percentiles: the count that a percentage picks from sorted counts. The percentage may be
given in parts of a percent. -/
abbrev Percentile := List Nat → Int → Nat → Outcome Nat

/-- The percentage of the last position of a list, rounded down after the arithmetic of doubles. -/
def lowerPosition (n : Nat) (percent : Int) (parts : Nat) : Nat :=
  let share := Double.ofRatio (decide (percent < 0)) percent.natAbs (100 * parts)
  (((Double.ofInt (n - 1)).mul share).floor?.getD 0).toNat

/-- The rule that takes the count at that position. -/
def lowerPercentile : Percentile := fun sorted percent parts =>
  match sorted[lowerPosition sorted.length percent parts]? with
  | some n => .ok n
  | none => .error .outOfRange

variable {κ β : Type}

/-- The entries sorted by their sizes, entries of one size staying in order. -/
def bySize (size : β → Nat) (table : List (κ × β)) : List (κ × β) :=
  table.mergeSort fun a b => decide (size a.2 ≤ size b.2)

/-- The percentages at which counts are shown. -/
def shownPercentages : List Int := [10, 25, 50, 75, 90]

/-- The entries whose size is below the given percentile of all sizes, by size. Percentages that are
not between 0 and 100 keep every entry. -/
def withoutOutliers (percentile : Percentile) (size : β → Nat) (percent : Int)
    (table : List (κ × β)) (parts : Nat := 1) : Outcome (List (κ × β)) :=
  if percent ≤ 0 ∨ 100 * parts ≤ percent then .ok table
  else do
    let sorted := bySize size table
    let counts := sorted.map fun e => size e.2
    let _ ← shownPercentages.mapM (percentile counts · 1)
    let cutoff ← percentile counts percent parts
    if counts.contains cutoff then return sorted.takeWhile fun e => size e.2 != cutoff
    else throw (.badValue "")

end RegexCorpus.Survey
