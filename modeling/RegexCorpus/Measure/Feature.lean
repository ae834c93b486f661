import RegexCorpus.Host.Files

/-!
# Counts of features

Records with metrics get the number of features that their pattern uses, and the number of all uses
together.
-/

namespace RegexCorpus.Measure

/-- The records on lines; blank lines and lines that cannot be read are passed over. -/
def recordsOf (lines : List String) : List Value :=
  ((lines.map Text.trim).filter (!·.isEmpty)).filterMap fun line => (Json.parse line).toOption

def loadRecords (path : String) : Act (List Value) := do return recordsOf (← Act.readLines path)

/-- The number of features with a count, and the sum of the counts. -/
def featureSums : List (Atom × Value) → Nat × Value → Outcome (Nat × Value)
  | [], sums => .ok sums
  | (_, count) :: rest, (distinct, total) => do
    if count.holds then featureSums rest (distinct + 1, ← total.add count)
    else featureSums rest (distinct, total)

def countFeatures (record : Value) : Outcome Value := do
  let features ← (← (← record.get "metrics").get "featureVector").entries
  let (distinct, total) ← featureSums features (0, .int 0)
  (← record.put (.str "numUniqueFeatures") (.int distinct)).put (.str "numFeatures") total

/-- The counts of features added to record after record; the records after a failure stay as they
were. -/
def countAllFeatures : List Value → Outcome Unit × List Value
  | [] => (.ok (), [])
  | record :: rest =>
    match countFeatures record with
    | .error f => (.error f, record :: rest)
    | .ok counted =>
      let (done, rest) := countAllFeatures rest
      (done, counted :: rest)

/-- The records whose pattern could be parsed. -/
def parsed (records : List Value) : Outcome (List Value) :=
  records.filterM fun r => do return (← (← r.get "metrics").get "couldParse").holds

def inLanguages (languages : List String) (records : List Value) : Outcome (List Value) :=
  if languages.isEmpty then .ok records
  else records.filterM fun r => do
    let language ← r.get "lang"
    return languages.any fun l => language.same (.str l)

/-- The records of a file that can be reported on, with their counts of features. The first one is
printed. -/
def selectRecords (path : String) (languages : List String) : Act (List Value) := do
  let records ← (parsed (← loadRecords path) : Outcome _)
  let (done, counted) := countAllFeatures (← (inLanguages languages records : Outcome _))
  let _ ← (done : Outcome Unit)
  match counted with
  | [] => throw .outOfRange
  | first :: _ =>
    Act.print (first.display ++ "\n")
    return counted

end RegexCorpus.Measure
