import RegexCorpus.Value.Access

/-!
# Limits of JSON texts

Whole numbers have at most `digitLimit` digits, and lists and objects stand inside one another as far
as there is room. A text beyond these limits is not read, and a value beyond them is not written. How
much room there is depends on how deep the reader or the writer is called, so it is a parameter;
`nestingLimit` is what a program has near its start.
-/

namespace RegexCorpus.Json

/-- The most digits of a whole number. -/
def digitLimit : Nat := 4300

/-- The most lists and objects that may stand inside one another in a program near its start. -/
def nestingLimit : Nat := 989

/-- The atom is no whole number of too many digits. -/
def checkAtom : Atom → Outcome Unit
  | .int n =>
    if (Nat.toDigits 10 n.natAbs).length > digitLimit then .error (.badValue "") else .ok ()
  | _ => .ok ()

mutual

/-- The value is within the limits; each list or dictionary that is entered spends one unit of
`room`. -/
def checkLimits : Nat → Value → Outcome Unit
  | _, .atom a => checkAtom a
  | 0, _ => .error .tooDeep
  | room + 1, .list xs => checkItems room xs
  | room + 1, .dict es => checkEntries room es

def checkItems : Nat → List Value → Outcome Unit
  | _, [] => .ok ()
  | room, x :: xs => do
    checkLimits room x
    checkItems room xs

/-- Every key and every value is within the limits. -/
def checkEntries : Nat → List (Atom × Value) → Outcome Unit
  | _, [] => .ok ()
  | room, (k, v) :: es => do
    checkAtom k
    checkLimits room v
    checkEntries room es

end

end RegexCorpus.Json
