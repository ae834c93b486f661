import RegexCorpus.Json.Reader
import RegexCorpus.Json.Writer

/-!
# JSON lines

A corpus file holds one JSON object a line. `toLine` writes a value as its canonical line, and
`ofLine` reads a line, blanks around it allowed; both insist on the shape of an object.
-/

namespace RegexCorpus.Json

/-- The text has the outer shape of an object on one line. -/
def isLineChars : List Char → Bool
  | '\x7b' :: c :: cs => (c :: cs).getLast? == some '\x7d' && !(c :: cs).contains '\n'
  | _ => false

/-- The data is a text with the outer shape of an object on one line. -/
def isLine : Value → Bool
  | .str s => isLineChars s.toList
  | _ => false

def toLine (v : Value) (room : Nat := nestingLimit) : Outcome String := do
  let v ← v.sorted
  checkLimits room v
  let line := render v
  require (isLineChars line.toList)
  return line

def ofText (s : String) (room : Nat := nestingLimit) : Outcome Value := do
  let line := Text.trim s
  require (isLineChars line.toList)
  parse line room

def ofLine (v : Value) (room : Nat := nestingLimit) : Outcome Value := do ofText (← v.text) room

end RegexCorpus.Json
