/-!
# Sets of code points

A class of characters is given by the sorted list of its boundaries: a code point is in the class
when an odd number of boundaries lies at or below it. `[0x30, 0x3a]` is the ten ASCII digits. Large
classes are written down as the lengths of the runs outside and inside the class, in turn. A letter
stands for a length, `a` for 1 and so on to `Z` for 52, and other lengths are numbers that end in a
point: `Vj` is the digits again, and `65.zfz` the letters of ASCII.
-/

namespace RegexCorpus.Text

/-- A set of code points, as the sorted list of the points where membership changes. -/
structure CodeSet where
  boundaries : List Nat

/-- The lengths in a text, when the digits read before it make up a number. -/
def runLengths (number : Nat) : List Char → List Nat
  | [] => []
  | '.' :: cs => number :: runLengths 0 cs
  | c :: cs =>
    if c.isDigit then runLengths (10 * number + (c.toNat - '0'.toNat)) cs
    else (if c.isLower then c.toNat - 96 else c.toNat - 38) :: runLengths 0 cs

/-- The ends of runs of these lengths, the first of which begins at a point. -/
def runEnds (start : Nat) : List Nat → List Nat
  | [] => []
  | n :: ns => (start + n) :: runEnds (start + n) ns

/-- The set with runs of the lengths in a text of some lines, the first of which lies outside. -/
def CodeSet.ofRuns (lines : List String) : CodeSet :=
  ⟨runEnds 0 (runLengths 0 (lines.flatMap String.toList))⟩

def CodeSet.contains (s : CodeSet) (c : Char) : Bool :=
  (s.boundaries.takeWhile (· ≤ c.toNat)).length % 2 == 1

end RegexCorpus.Text
