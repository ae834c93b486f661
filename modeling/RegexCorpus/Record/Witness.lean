import RegexCorpus.Record.Edit

/-!
# Matches and witnesses of semantic differences

* `MatchContents` — the matched text and the captured groups.
* `MatchResult` — whether a pattern matched, and with which contents.
* `Evaluation` — the result of a pattern on an input in one language.
* `Witness` — the different results on one input, each with the languages that gave it. An input with
  two different results witnesses that languages disagree on the pattern.
-/

namespace RegexCorpus

/-- The text that was matched, and its groups. -/
structure MatchContents where
  matchedString : Value := .null
  captureGroups : Value := .list []
  deriving Repr, Inhabited

/-- Whether there was a match, and of what. -/
structure MatchResult where
  matched : Value := .null
  contents : Held MatchContents := .plain .null

/-- A result, with the language that gave it. -/
structure Evaluation where
  pattern : Value
  input : Value
  language : Value
  result : Held MatchResult

/-- Different results, each with the languages that gave it. An atom may stand for a result. -/
abbrev ResultTable := List (Held MatchResult × Value)

/-- Results on one input. Data other than a table is kept as it was given. -/
structure Witness where
  pattern : Value := .null
  input : Value := .null
  results : ResultTable ⊕ Value := .inr .null

namespace MatchContents

def read (line : Value) (room : Nat := Json.nestingLimit) : Edit MatchContents Unit := do
  let obj ← (Json.ofLine line room : Outcome Value)
  setFields obj [
    ("matchedString", fun v r => { r with matchedString := v }),
    ("captureGroups", fun v r => { r with captureGroups := v })]

def toLine (c : MatchContents) (room : Nat := Json.nestingLimit) : Outcome String :=
  Json.toLine (.object [("matchedString", c.matchedString), ("captureGroups", c.captureGroups)]) room

def same (c d : MatchContents) : Bool :=
  c.matchedString.same d.matchedString && c.captureGroups.same d.captureGroups

/-- Groups given by name come in the same order. -/
def sameOrder : Value → Value → Bool
  | .dict es, .dict fs => Value.sameItems (es.map fun e => .atom e.1) (fs.map fun f => .atom f.1)
  | _, _ => true

/-- Equality as far as a table is concerned, in which the order of named groups counts as well. -/
def alike (c d : MatchContents) : Bool := c.same d && sameOrder c.captureGroups d.captureGroups

/-- The contents can be told apart in a table: no part of them is a list or a dictionary. -/
def hashable (c : MatchContents) : Outcome Unit := do
  let groups ← c.captureGroups.parts
  let _ ← c.matchedString.toKey
  let _ ← groups.mapM Value.toKey

def display (c : MatchContents) : String :=
  "matchedString: <" ++ c.matchedString.display ++ "> captureGroups: " ++ c.captureGroups.display

end MatchContents

namespace MatchResult

def read (line : Value) (room : Nat := Json.nestingLimit) : Edit MatchResult Unit := do
  let obj ← (Json.ofLine line room : Outcome Value)
  setFields obj [("matched", fun v r => { r with matched := v })]
  let contents ← (obj.get "matchContents" : Outcome Value)
  let c ← ((MatchContents.read contents room).made {} : Outcome _)
  modify ({ · with contents := .record c })

def toLine (r : MatchResult) (room : Nat := Json.nestingLimit) : Outcome String := do
  let contents ← (← r.contents.get).toLine room
  Json.toLine (.object [("matched", r.matched), ("matchContents", .str contents)]) room

/-- Equality of contents: a record has no common measure with other data. -/
def sameContents : Held MatchContents → Held MatchContents → Outcome Bool
  | .record c, .record d => .ok (c.same d)
  | .plain v, .plain w => .ok (v.same w)
  | _, _ => .error .missingField

def same (r s : MatchResult) : Outcome Bool :=
  if r.matched.same s.matched then sameContents r.contents s.contents else .ok false

/-- Equality as far as a table is concerned: a record and other data are different. -/
def alike (r s : MatchResult) : Bool :=
  r.matched.same s.matched &&
    match r.contents, s.contents with
    | .record c, .record d => c.alike d
    | .plain v, .plain w => v.same w
    | _, _ => false

/-- The result can be told apart in a table. -/
def hashable (r : MatchResult) : Outcome Unit := do
  let _ ← r.matched.toKey
  match r.contents with
  | .record c => c.hashable
  | .plain v => let _ ← v.toKey

def display (r : MatchResult) : String :=
  "matched: " ++ r.matched.display ++ ", contents: " ++
    match r.contents with
    | .record c => c.display
    | .plain v => v.display

def brief (r : MatchResult) : Outcome String := do
  if r.matched.holds then
    let c ← r.contents.get
    return "T " ++ Json.render c.matchedString ++ " " ++ c.captureGroups.display
  else return "F  "

end MatchResult

namespace ResultTable

def sameKey : Held MatchResult → Held MatchResult → Bool
  | .record r, .record s => r.alike s
  | .plain v, .plain w => v.samePart w
  | _, _ => false

/-- The key can be told apart from others. -/
def checkKey : Held MatchResult → Outcome Unit
  | .record r => r.hashable
  | .plain v => do let _ ← v.toKey

/-- The languages listed under a key. -/
def find? (key : Held MatchResult) (t : ResultTable) : Option Value :=
  (List.find? (fun e => sameKey e.1 key) t).map (·.2)

/-- Languages put under a key, in place of earlier ones or as a new last line. -/
def insert (key : Held MatchResult) (languages : Value) : ResultTable → ResultTable
  | [] => [(key, languages)]
  | e :: rest =>
    if sameKey e.1 key then (e.1, languages) :: rest else e :: insert key languages rest

/-- The table of pairs, of which later ones replace earlier ones. -/
def ofPairs (ps : List (Held MatchResult × Value)) : Outcome ResultTable :=
  ps.foldlM (fun t p => do
    checkKey p.1
    return insert p.1 p.2 t) []

def ofEntries (es : Entries) : ResultTable := es.map fun e => (.plain (.atom e.1), e.2)

end ResultTable

namespace Witness

open ResultTable (checkKey)

/-- A witness with given results; null stands for a table without results. -/
def make (pattern input : Value) (results : ResultTable ⊕ Value) : Witness :=
  { pattern, input, results := match results with
    | .inr .null => .inl []
    | .inr (.dict es) => .inl (.ofEntries es)
    | r => r }

def table (w : Witness) : Outcome ResultTable :=
  match w.results with
  | .inl t => .ok t
  | .inr _ => .error .missingField

/-- Entries of an object added to the table one after the other: keys are lines of results. -/
def readResults (room : Nat) : List (Atom × Value) → Edit Witness Unit
  | [] => pure ()
  | (key, languages) :: rest => do
    let result ← ((MatchResult.read (.atom key) room).made {} : Outcome _)
    (result.hashable : Outcome Unit)
    let t ← ((← get).table : Outcome _)
    modify ({ · with results := .inl (t.insert (.record result) languages) })
    readResults room rest

def read (line : Value) (room : Nat := Json.nestingLimit) : Edit Witness Unit := do
  let obj ← (Json.ofLine line room : Outcome Value)
  setFields obj [
    ("pattern", fun v r => { r with pattern := v }),
    ("input", fun v r => { r with input := v })]
  modify ({ · with results := .inl [] })
  let results ← (obj.get "matchResultToLangs" : Outcome Value)
  readResults room (← (results.entries : Outcome Entries))

def toLine (w : Witness) (room : Nat := Json.nestingLimit) : Outcome String := do
  let es ← (← w.table).mapM fun (key, languages) => do
    return (Atom.str (← (← key.get).toLine room), languages)
  Json.toLine (.object [("pattern", w.pattern), ("input", w.input),
    ("matchResultToLangs", .dict (Entries.ofPairs es))]) room

/-- The table that can be asked for a key; data that is no table refuses, and a list cannot compare a
result with its items. -/
def tableFor (w : Witness) (key : Held MatchResult) : Outcome ResultTable :=
  match w.results, key with
  | .inl t, _ => do
    checkKey key
    return t
  | .inr (.list (_ :: _)), .record _ => .error .missingField
  | .inr _, _ => .error .wrongKind

/-- A result noted under its language, once for each language. -/
def add (e : Evaluation) : Edit Witness Unit := do
  let w ← get
  let t ← (w.tableFor e.result : Outcome _)
  let languages := (t.find? e.result).getD (.list [])
  set { w with results := .inl (t.insert e.result languages) }
  if !(← (languages.has e.language : Outcome Bool)) then
    let languages ← (append languages e.language : Outcome Value)
    set { w with results := .inl (t.insert e.result languages) }

/-- The input witnesses a difference: there are two different results. Of data other than a table,
each part has to lead to a part. -/
def isTrue (w : Witness) : Outcome Bool :=
  match w.results with
  | .inl t => .ok (decide (t.length > 1))
  | .inr v => do
    if (← v.size) ≤ 1 then return false
    let _ ← (← v.parts).mapM v.item
    return true

/-- Results under an atom, in place of an earlier one or as a new last line. -/
def setResult (key : Atom) (result : Held MatchResult) :
    List (Atom × Held MatchResult) → List (Atom × Held MatchResult)
  | [] => [(key, result)]
  | e :: es => if e.1.samePart key then (e.1, result) :: es else e :: setResult key result es

/-- The result of each language; of several results the last one counts. -/
def byLanguage (w : Witness) : Outcome (List (Atom × Held MatchResult)) := do
  let pairs ← (← w.table).mapM fun (result, languages) => do
    (← languages.parts).mapM fun l => do return (← l.toKey, result)
  return pairs.flatten.foldl (fun es p => setResult p.1 p.2 es) []

end Witness
end RegexCorpus
