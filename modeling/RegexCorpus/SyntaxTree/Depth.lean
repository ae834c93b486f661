import RegexCorpus.Json.Limit
import RegexCorpus.SyntaxTree.Tree

/-!
# Calls inside one another

Trees are walked through and written out by functions that call themselves. The interpreter lets only
so many calls be under way inside one another, and gives no text to a number of too many digits. A
measure of a tree says what it asks of the interpreter; how many calls there is room for depends on
where a walk begins, so it is given to each walk.
-/

namespace RegexCorpus.Tree

mutual

/-- A measure of a tree: `step` takes the tree and the largest measure of its parts. -/
def measure (step : Tree → Nat → Nat) : Tree → Nat
  | node kind fs => step (node kind fs) (fieldMeasure step fs)
  | list ts => step (list ts) (itemMeasure step ts)
  | leaf v => step (leaf v) 0

def fieldMeasure (step : Tree → Nat → Nat) : List (String × Tree) → Nat
  | [] => 0
  | (_, t) :: fs => max (measure step t) (fieldMeasure step fs)

def itemMeasure (step : Tree → Nat → Nat) : List Tree → Nat
  | [] => 0
  | t :: ts => max (measure step t) (itemMeasure step ts)

end

/-- The calls inside one another that the text of a tree takes. -/
def textCalls (t : Tree) : Nat := 1 + t.measure fun
  | node _ _, inner => 1 + max 1 inner
  | list [], _ => 2
  | list _, inner => 3 + inner
  | leaf _, _ => 3

/-- The most digits of a whole number in a tree. -/
def digits : Tree → Nat := measure fun
  | leaf (.int n), _ => (Nat.toDigits 10 n.natAbs).length
  | _, inner => inner

/-- The text of a tree can be written down. -/
def hasText (room : Nat) (t : Tree) : Bool :=
  decide (t.textCalls ≤ room) && decide (t.digits ≤ Json.digitLimit)

end RegexCorpus.Tree
