import RegexCorpus.Project.Basic
import RegexCorpus.Publish.Lookup
import RegexCorpus.Publish.WebSource
import RegexCorpus.Record.Usage
import RegexCorpus.SuperLinear.Analysis

/-!
# Records of any kind

`AnyRecord` is the sum of all records. Whatever its kind, a record is made from parts, filled from
parts, from an object or from a line, and written as a line.
-/

namespace RegexCorpus

inductive RecordKind where
  | fileReport
  | usage
  | tracedUsage
  | regex
  | patternInputs
  | witness
  | matchContents
  | matchResult
  | evaluation
  | pumpPair
  | evilInput
  | opinion
  | validation
  | analysis
  | module (kind : Publish.Kind)
  | webSource (site : Publish.Site)
  | project
  | starredProject
  deriving DecidableEq, Repr

/-- A record of any kind. -/
inductive AnyRecord where
  | fileReport (r : FileReport)
  | usage (r : Usage)
  | tracedUsage (r : TracedUsage)
  | regex (r : Regex)
  | patternInputs (r : PatternInputs)
  | witness (r : Witness)
  | matchContents (r : MatchContents)
  | matchResult (r : MatchResult)
  | evaluation (r : Evaluation)
  | pumpPair (r : SuperLinear.PumpPair)
  | evilInput (r : SuperLinear.EvilInput)
  | opinion (r : SuperLinear.Opinion)
  | validation (r : SuperLinear.Validation)
  | analysis (r : SuperLinear.Analysis)
  | module (r : Publish.Module)
  | webSource (r : Publish.WebSource)
  | project (r : Project)
  | starredProject (r : StarredProject)

/-- A type of records: how a record of the type becomes one of any kind, and is found again. -/
structure RecordType (α : Type) where
  wrap : α → AnyRecord
  pick : AnyRecord → Option α

namespace RecordType

def regex : RecordType Regex := ⟨.regex, fun | .regex r => some r | _ => none⟩

def witness : RecordType Witness := ⟨.witness, fun | .witness r => some r | _ => none⟩

def matchContents : RecordType MatchContents :=
  ⟨.matchContents, fun | .matchContents r => some r | _ => none⟩

def matchResult : RecordType MatchResult :=
  ⟨.matchResult, fun | .matchResult r => some r | _ => none⟩

def pumpPair : RecordType SuperLinear.PumpPair :=
  ⟨.pumpPair, fun | .pumpPair r => some r | _ => none⟩

def evilInput : RecordType SuperLinear.EvilInput :=
  ⟨.evilInput, fun | .evilInput r => some r | _ => none⟩

def opinion : RecordType SuperLinear.Opinion := ⟨.opinion, fun | .opinion r => some r | _ => none⟩

end RecordType

/-- A part for a record: data in which records may stand. -/
inductive Part where
  | plain (v : Value)
  | record (r : AnyRecord)
  | list (ps : List Part)
  | table (entries : List (Part × Part))

namespace Part

/-- The data of a part; a record alone is not data. -/
def value : Part → Value
  | plain v => v
  | record _ => .null
  | list _ => .null
  | table _ => .null

/-- A part for a slot that should hold a record. -/
def held {α : Type} (t : RecordType α) : Part → Held α
  | record r => match t.pick r with
    | some a => .record a
    | none => .plain .null
  | p => .plain p.value

/-- A part for a slot that should hold a list of records. -/
def records {α : Type} (t : RecordType α) : Part → Records α
  | list ps => .items (ps.map (held t))
  | plain (.list vs) => .items (vs.map .plain)
  | p => .plain p.value

def ofHeld {α : Type} (t : RecordType α) : Held α → Part
  | .record a => .record (t.wrap a)
  | .plain v => .plain v

def ofRecords {α : Type} (t : RecordType α) : Records α → Part
  | .items xs => .list (xs.map (ofHeld t))
  | .plain v => .plain v

/-- A part for a slot that should hold a table of results. -/
def results : Part → Outcome (ResultTable ⊕ Value)
  | table es => do return .inl (← ResultTable.ofPairs (es.map fun e => (e.1.held .matchResult, e.2.value)))
  | p => .ok (.inr p.value)

end Part

/-- Two results, or two contents, compared: whether they are equal, and how many a set of the two
holds. -/
def Part.compare : Part → Part → Outcome (Bool × Nat)
  | .record (.matchResult r), .record (.matchResult s) => do
    let equal ← r.same s
    r.hashable
    s.hashable
    return (equal, if r.alike s then 1 else 2)
  | .record (.matchContents c), .record (.matchContents d) => do
    c.hashable
    d.hashable
    return (c.same d, if c.alike d then 1 else 2)
  | _, _ => .error .missingField

/-! ### Forms -/

/-- Named parts; those with a default need not be given. -/
abbrev Form := List (String × Option Value)

namespace Form

def need (names : List String) : Form := names.map (·, none)

def may (names : Members) : Form := names.map fun e => (e.1, some e.2)

/-- A form of parts that are null when they are not given. -/
def maybe (names : List String) : Form := names.map (·, some .null)

def fit (form : Form) (inOrder : List Part) (named : List (String × Part)) : Outcome (List Part) := do
  let rest := form.drop inOrder.length
  if form.length < inOrder.length || named.any (fun n => !rest.any (·.1 == n.1)) then throw .wrongKind
  let others ← rest.mapM fun (name, default) =>
    match named.find? (·.1 == name), default with
    | some (_, p), _ => (.ok p : Outcome Part)
    | none, some v => .ok (.plain v)
    | none, none => .error .wrongKind
  return inOrder ++ others

end Form

open Form

/-- The parts with which a module of a registry is filled. -/
def Publish.Kind.filledWith : Publish.Kind → Form
  | .any => need ["registry", "name"] ++ maybe ["version", "popularity", "registryUri", "vcsUri",
      "gitHubStars", "gitHubStarsFetchTime", "tarballPath"]
  | .cpan => need ["name", "registryUri", "category", "author", "size", "publishDate"]
  | .crates => need ["name", "mostRecentVersion", "totalDownloads", "recentDownloads", "vcsUri",
      "documentationUri", "keywords", "categories", "createDate", "mostRecentPublishDate"]
  | .npm => need ["name", "mostRecentVersion", "registryUri", "vcsUri", "documentationUri",
      "mostRecentPublishDate"]
  | .pypi | .packagist | .rubygems => need ["name", "registryUri"]
  | .godoc => need ["name", "vcsUri"]
  | .nuget => need ["name", "version", "registryUri"]

def Publish.Module.fillFrom (k : Publish.Kind) (parts : List Value) : Edit Publish.Module Unit :=
  let registry : Value := .str k.registry
  match k, parts with
  | .any, [registry, name, version, popularity, registryUri, vcsUri, gitHubStars,
      gitHubStarsFetchTime, tarballPath] =>
    fill { registry, name, version, popularity, registryUri, vcsUri, gitHubStars,
           gitHubStarsFetchTime, tarballPath }
  | .cpan, name :: registryUri :: extras =>
    fillAll { registry, name, popularity := unknownCount, registryUri } extras
  | .crates, name :: version :: popularity :: recent :: vcsUri :: extras =>
    fillAll { registry, name, version, popularity, vcsUri } (recent :: extras)
  | .npm, name :: version :: registryUri :: vcsUri :: extras =>
    fillAll { registry, name, version, popularity := unknownCount, registryUri, vcsUri } extras
  | .godoc, [name, vcsUri] => fillAll { registry, name, vcsUri } []
  | .nuget, [name, version, registryUri] => fillAll { registry, name, version, registryUri } []
  | _, [name, registryUri] => fillAll { registry, name, registryUri } []
  | _, _ => throw .wrongKind

namespace RecordKind

/-- The parts that have to be known when a record is made. -/
def madeWith : RecordKind → Form
  | evaluation => need ["pattern", "_input", "language", "matchResult"]
  | validation => need ["pattern", "evilInput", "rawValidationResult"]
  | analysis => may [("regex", .null), ("slTimeout", .int SuperLinear.matchTimeout),
      ("powerPumps", .int SuperLinear.manyPumps), ("vrdPath", .str "")]
  | _ => []

def filledWith : RecordKind → Form
  | fileReport => need ["fileName", "language", "couldParse"] ++ may [("regexes", .list [])]
  | usage => need ["pattern", "flags", "inputs", "regexes", "relPath", "basename"]
  | tracedUsage => need ["pattern", "flags", "inputs", "regexes", "relPath", "basename",
      "lineNumber"] ++ maybe ["logHistory"]
  | regex => need ["pattern", "useCount_registry_to_nModules", "useCount_IStype_to_nPosts"] ++
      maybe ["useCount_registry_to_nModules_static", "useCount_registry_to_nModules_dynamic",
        "supportedLangs", "nUniqueInputsTested", "semanticDifferenceWitnesses"]
  | patternInputs => need ["pattern", "stringsByProducer"]
  | witness => need ["pattern", "_input"] ++ maybe ["matchResultToLangs"]
  | matchContents => need ["matchedString", "captureGroups"]
  | matchResult => need ["matched", "matchContents"]
  | pumpPair => need ["prefix", "pump"]
  | evilInput => need ["couldParse"] ++ maybe ["pumpPairs", "suffix"]
  | opinion => maybe ["pattern", "rawOpinion"]
  | module kind => kind.filledWith
  | webSource _ => need ["uri", "uriAliases", "patterns"]
  | project => need ["owner", "name", "registry", "modules"] ++ may [("nStars", unknownStars),
      ("tarballPath", noTarballPath), ("regexPath", noRegexPath), ("dynRegexPath", noRegexPath),
      ("projectHistoryFile", .null)]
  | starredProject => need ["name", "nStars"]
  | evaluation | validation | analysis => []

def make (kind : RecordKind) (parts : List Part) : Outcome AnyRecord :=
  match kind, parts with
  | fileReport, _ => .ok (.fileReport {})
  | usage, _ => .ok (.usage {})
  | tracedUsage, _ => .ok (.tracedUsage {})
  | regex, _ => .ok (.regex {})
  | patternInputs, _ => .ok (.patternInputs {})
  | witness, _ => .ok (.witness {})
  | matchContents, _ => .ok (.matchContents {})
  | matchResult, _ => .ok (.matchResult {})
  | pumpPair, _ => .ok (.pumpPair {})
  | evilInput, _ => .ok (.evilInput {})
  | opinion, _ => .ok (.opinion {})
  | module kind, _ => .ok (.module { kind })
  | webSource site, _ => .ok (.webSource (.empty site))
  | project, _ => .ok (.project {})
  | starredProject, _ => .ok (.starredProject {})
  | evaluation, [pattern, input, language, result] => .ok (.evaluation
      { pattern := pattern.value, input := input.value, language := language.value
        result := result.held .matchResult })
  | validation, [pattern, input, report] => do
    return .validation
      (← SuperLinear.Validation.ofReport pattern.value (input.held .evilInput) report.value)
  | analysis, [subject, timeout, powerPumps, .plain (.str _)] => .ok (.analysis
      { regex := subject.held .regex, timeout := timeout.value, powerPumps := powerPumps.value })
  | _, _ => .error .wrongKind

end RecordKind

namespace AnyRecord

def kind : AnyRecord → RecordKind
  | fileReport _ => .fileReport
  | usage _ => .usage
  | tracedUsage _ => .tracedUsage
  | regex _ => .regex
  | patternInputs _ => .patternInputs
  | witness _ => .witness
  | matchContents _ => .matchContents
  | matchResult _ => .matchResult
  | evaluation _ => .evaluation
  | pumpPair _ => .pumpPair
  | evilInput _ => .evilInput
  | opinion _ => .opinion
  | validation _ => .validation
  | analysis _ => .analysis
  | module r => .module r.kind
  | webSource r => .webSource r.site
  | project _ => .project
  | starredProject _ => .starredProject

/-- The record after an edit of the one inside, and how the edit ended. -/
def after {σ α : Type} (wrap : σ → AnyRecord) (r : σ) (e : Edit σ α) : Outcome α × AnyRecord :=
  let (result, r) := e.run r
  (result, wrap r)

def fill (r : AnyRecord) (parts : List Part) : Outcome Unit × AnyRecord :=
  match r, parts, parts.map Part.value with
  | fileReport r, _, [a, b, c, d] =>
    (.ok (), fileReport { FileReport.make a b c d with type := r.type })
  | usage r, _, [a, b, c, d, e, f] =>
    (.ok (), usage { Usage.make a b c d e f with type := r.type })
  | tracedUsage r, _, [a, b, c, d, e, f, g, h] =>
    (.ok (), tracedUsage { TracedUsage.make a b c d e f g h with type := r.type })
  | regex r, [_, _, _, _, _, _, _, witnesses], [a, b, c, d, e, f, g, _] =>
    (.ok (), regex { Regex.make a b c d e f g (witnesses.records .witness) with type := r.type })
  | patternInputs r, _, [a, b] =>
    (.ok (), patternInputs { PatternInputs.make a b with type := r.type })
  | witness r, [_, _, results], [a, b, _] => match results.results with
    | .ok t => (.ok (), witness (.make a b t))
    | .error f => (.error f, witness r)
  | matchContents _, _, [a, b] => (.ok (), matchContents { matchedString := a, captureGroups := b })
  | matchResult _, [_, contents], [a, _] =>
    (.ok (), matchResult { matched := a, contents := contents.held .matchContents })
  | pumpPair _, _, [a, b] => (.ok (), pumpPair { lead := a, pump := b })
  | evilInput _, [_, pairs, _], [a, _, c] =>
    (.ok (), evilInput (.make a (pairs.records .pumpPair) c))
  | opinion r, _, [a, b] => after opinion r (SuperLinear.Opinion.readReport a b)
  | module r, _, vs => after module r (Publish.Module.fillFrom r.kind vs)
  | webSource r, _, [a, b, c] => after webSource r (Publish.WebSource.fill a b c)
  | project r, _, [a, b, c, d, e, f, g, h, i] =>
    (.ok (), project { Project.make a b c d e f g h i with type := r.type })
  | starredProject r, _, [a, b] =>
    (.ok (), starredProject { StarredProject.make a b with type := r.type })
  | r, _, _ => (.error .missingField, r)

def readObject (r : AnyRecord) (obj : Value) : Outcome Unit × AnyRecord :=
  match r with
  | regex r => after regex r (Regex.readObject obj)
  | patternInputs r => after patternInputs r (PatternInputs.readObject obj)
  | pumpPair r => after pumpPair r (SuperLinear.PumpPair.readObject obj)
  | evilInput r => after evilInput r (SuperLinear.EvilInput.readObject obj)
  | opinion r => after opinion r (SuperLinear.Opinion.readObject obj)
  | r => (.error .missingField, r)

def read (r : AnyRecord) (line : Value) : Outcome Unit × AnyRecord :=
  match r with
  | fileReport r => after fileReport r (FileReport.read line)
  | usage r => after usage r (Usage.read line)
  | tracedUsage r => after tracedUsage r (TracedUsage.read line)
  | regex r => after regex r (Regex.read line)
  | patternInputs r => after patternInputs r (PatternInputs.read line)
  | witness r => after witness r (Witness.read line)
  | matchContents r => after matchContents r (MatchContents.read line)
  | matchResult r => after matchResult r (MatchResult.read line)
  | pumpPair r => after pumpPair r (SuperLinear.PumpPair.read line)
  | evilInput r => after evilInput r (SuperLinear.EvilInput.read line)
  | opinion r => after opinion r (SuperLinear.Opinion.read line)
  | analysis r => after analysis r (SuperLinear.Analysis.read line)
  | module r => after module r (Publish.Module.read line)
  | webSource r => after webSource r (Publish.WebSource.read line)
  | project r => after project r (Project.read line)
  | starredProject r => after starredProject r (StarredProject.read line)
  | r => (.error .missingField, r)

def toLine (r : AnyRecord) (room : Nat := Json.nestingLimit) : Outcome String :=
  match r with
  | fileReport r => r.toLine room
  | usage r => r.toLine room
  | tracedUsage r => r.toLine room
  | regex r => r.toLine room
  | patternInputs r => r.toLine room
  | witness r => r.toLine room
  | matchContents r => r.toLine room
  | matchResult r => r.toLine room
  | pumpPair r => r.toLine
  | evilInput r => r.toLine
  | opinion r => r.toLine
  | analysis r => r.toLine
  | module r => r.toLine room
  | webSource r => r.toLine room
  | project r => r.toLine room
  | starredProject r => r.toLine room
  | evaluation _ | validation _ => .error .missingField

end AnyRecord
end RegexCorpus
