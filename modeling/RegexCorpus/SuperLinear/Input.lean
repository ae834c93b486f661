import RegexCorpus.Record.Edit

/-!
# Inputs that may take a matcher long

An evil input consists of pump pairs and a suffix: each pair is a lead, followed by a piece to be
repeated as often as one likes. A detector may also give an input that nobody can parse.
-/

namespace RegexCorpus.SuperLinear

/-- A lead and the piece to be pumped after it. -/
structure PumpPair where
  lead : Value := .null
  pump : Value := .null
  deriving Repr, Inhabited

namespace PumpPair

def readObject (obj : Value) : Edit PumpPair Unit :=
  setFields obj [
    ("prefix", fun v r => { r with lead := v }),
    ("pump", fun v r => { r with pump := v })]

def read (line : Value) : Edit PumpPair Unit := do
  readObject (← (Json.ofLine line : Outcome Value))

def ofObject (obj : Value) : Outcome PumpPair := (readObject obj).made {}

def toValue (p : PumpPair) : Value := .object [("prefix", p.lead), ("pump", p.pump)]

def toLine (p : PumpPair) : Outcome String := .ok (Json.render p.toValue)

end PumpPair

/-- An input, in parts if it could be parsed. -/
structure EvilInput where
  couldParse : Value := .bool false
  pumpPairs : Records PumpPair := .plain .null
  suffix : Value := .null

namespace EvilInput

def make (couldParse : Value) (pumpPairs : Records PumpPair) (suffix : Value) : EvilInput :=
  if couldParse.holds then { couldParse, pumpPairs, suffix } else { couldParse }

def readObject (obj : Value) : Edit EvilInput Unit := do
  setFields obj [("couldParse", fun v r => { r with couldParse := v })]
  if (← get).couldParse.holds then
    let pairs ← ((do (← (← obj.get "pumpPairs").parts).mapM PumpPair.ofObject) : Outcome _)
    modify ({ · with pumpPairs := .items (pairs.map .record) })
    setFields obj [("suffix", fun v r => { r with suffix := v })]

def read (line : Value) : Edit EvilInput Unit := do
  readObject (← (Json.ofLine line : Outcome Value))

def ofObject (obj : Value) : Outcome EvilInput := (readObject obj).made {}

def toValue (i : EvilInput) : Outcome Value := do
  if i.couldParse.holds then
    let pairs ← (← i.pumpPairs.parts).mapM fun p => do reread (← p.get).toValue
    return .object [("couldParse", i.couldParse), ("pumpPairs", .list pairs), ("suffix", i.suffix)]
  else return .object [("couldParse", i.couldParse)]

def toLine (i : EvilInput) : Outcome String := do return Json.render (← i.toValue)

end EvilInput
end RegexCorpus.SuperLinear
