/-!
# Probes

A probe is a simple shape to look for in a text: single characters and runs of characters of given
classes, one after the other. `Probe.found` says whether the shape stands anywhere in a text.
-/

namespace RegexCorpus.Pattern

inductive Probe.Step where
  | one (p : Char → Bool)
  /-- Any number of characters of the class. -/
  | run (p : Char → Bool)

abbrev Probe := List Probe.Step

namespace Probe

/-- One or more characters of a class. -/
def some' (p : Char → Bool) : Probe := [.one p, .run p]

def word (s : String) : Probe := s.toList.map fun c => .one (· == c)

/-- The continuation holds after some number of characters of the class. -/
def afterRun (p : Char → Bool) (k : List Char → Bool) : List Char → Bool
  | [] => k []
  | c :: cs => k (c :: cs) || (p c && afterRun p k cs)

/-- The shape stands at the start of the text. -/
def fits : Probe → List Char → Bool
  | [], _ => true
  | .one p :: rest, cs => match cs with
    | [] => false
    | c :: cs => p c && fits rest cs
  | .run p :: rest, cs => afterRun p (fits rest) cs

/-- The shape stands somewhere in the text. -/
def found (probe : Probe) (cs : List Char) : Bool := afterRun (fun _ => true) probe.fits cs

end Probe
end RegexCorpus.Pattern
