import RegexCorpus.Record.Any

/-!
# Fields of records

The fields of a record can be looked at and set from outside, whatever the kind of the record. Under
names that no field has, `Noted` keeps notes beside the record.
-/

namespace RegexCorpus

/-- A field of a record, as it is looked at and set from outside. -/
structure Slot (σ : Type) where
  name : String
  /-- What the field holds, if it has been set. -/
  get : σ → Option Part
  set : Part → σ → σ

namespace Slot
variable {σ α : Type}

def ofData (fs : DataFields σ) : List (Slot σ) :=
  fs.map fun f => ⟨f.name, fun r => (f.get r).map .plain, fun p => f.set p.value⟩

def held (t : RecordType α) (name : String) (get : σ → Held α) (set : Held α → σ → σ) : Slot σ :=
  ⟨name, fun r => some (.ofHeld t (get r)), fun p => set (p.held t)⟩

def records (t : RecordType α) (name : String) (get : σ → Option (Records α))
    (set : Records α → σ → σ) : Slot σ :=
  ⟨name, fun r => (get r).map (.ofRecords t), fun p => set (p.records t)⟩

end Slot

open Slot

def FileReport.slots : List (Slot FileReport) := ofData ([
  ⟨"initialized", none, (·.initialized), fun v r => { r with initialized := v }⟩,
  ⟨"type", none, (·.type), fun v r => { r with type := v }⟩] ++ fields)

def Usage.slots : List (Slot Usage) := ofData ([
  ⟨"initialized", none, (·.initialized), fun v r => { r with initialized := v }⟩,
  ⟨"type", none, (·.type), fun v r => { r with type := v }⟩] ++ fields)

def TracedUsage.slots : List (Slot TracedUsage) := ofData ([
  ⟨"initialized", none, (·.initialized), fun v r => { r with initialized := v }⟩,
  ⟨"type", none, (·.type), fun v r => { r with type := v }⟩] ++ fields)

def PatternInputs.slots : List (Slot PatternInputs) := ofData ([
  ⟨"initialized", none, (·.initialized), fun v r => { r with initialized := v }⟩,
  ⟨"type", none, (·.type), fun v r => { r with type := v }⟩] ++ fields)

def Regex.slots : List (Slot Regex) := ofData ([
  ⟨"initialized", none, (·.initialized), fun v r => { r with initialized := v }⟩,
  ⟨"type", none, (·.type), fun v r => { r with type := v }⟩] ++ fields) ++ [
  records .witness "semanticDifferenceWitnesses" (·.witnesses)
    fun ws r => { r with witnesses := ws }]

/-- The table of results of a witness. -/
def Witness.resultSlot : Slot Witness where
  name := "matchResultToLangs"
  get r := match r.results with
    | .inl t => some (.table (t.map fun e => (.ofHeld .matchResult e.1, .plain e.2)))
    | .inr v => some (.plain v)
  set p r := match p with
    | .plain (.dict es) => { r with results := .inl (.ofEntries es) }
    | p => { r with results := p.results.toOption.getD r.results }

def Witness.slots : List (Slot Witness) := ofData [
  ⟨"pattern", none, (·.pattern), fun v r => { r with pattern := v }⟩,
  ⟨"input", none, (·.input), fun v r => { r with input := v }⟩] ++ [resultSlot]

def MatchContents.slots : List (Slot MatchContents) := ofData [
  ⟨"matchedString", none, (·.matchedString), fun v r => { r with matchedString := v }⟩,
  ⟨"captureGroups", none, (·.captureGroups), fun v r => { r with captureGroups := v }⟩]

def MatchResult.slots : List (Slot MatchResult) := ofData [
  ⟨"matched", none, (·.matched), fun v r => { r with matched := v }⟩] ++ [
  held .matchContents "matchContents" (·.contents) fun c r => { r with contents := c }]

def Evaluation.slots : List (Slot Evaluation) := ofData [
  ⟨"pattern", none, (·.pattern), fun v r => { r with pattern := v }⟩,
  ⟨"input", none, (·.input), fun v r => { r with input := v }⟩,
  ⟨"language", none, (·.language), fun v r => { r with language := v }⟩] ++ [
  held .matchResult "matchResult" (·.result) fun m r => { r with result := m }]

namespace SuperLinear

def PumpPair.slots : List (Slot PumpPair) := ofData [
  ⟨"prefix", none, (·.lead), fun v r => { r with lead := v }⟩,
  ⟨"pump", none, (·.pump), fun v r => { r with pump := v }⟩]

def EvilInput.slots : List (Slot EvilInput) := ofData [
  ⟨"couldParse", none, (·.couldParse), fun v r => { r with couldParse := v }⟩,
  ⟨"suffix", none, (·.suffix), fun v r => { r with suffix := v }⟩] ++ [
  records .pumpPair "pumpPairs" (·.pumpPairs) fun ps r => { r with pumpPairs := ps }]

def Opinion.slots : List (Slot Opinion) := ofData [
  ⟨"pattern", none, (·.pattern), fun v r => { r with pattern := v }⟩,
  ⟨"detectorName", none, (·.detectorName), fun v r => { r with detectorName := v }⟩,
  ⟨"timedOut", none, (·.timedOut), fun v r => { r with timedOut := v }⟩,
  ⟨"canAnalyze", none, (·.canAnalyze), fun v r => { r with canAnalyze := v }⟩,
  ⟨"isVuln", none, (·.isVuln), fun v r => { r with isVuln := v }⟩,
  ⟨"predictedComplexity", none, (·.predicted), fun v r => { r with predicted := v }⟩,
  ⟨"patternVariant", none, (·.patternVariant), fun v r => { r with patternVariant := v }⟩] ++ [
  records .evilInput "evilInputs" (·.evilInputs) fun is r => { r with evilInputs := is }]

def Validation.slots : List (Slot Validation) := ofData [
  ⟨"pattern", none, (·.pattern), fun v r => { r with pattern := v }⟩,
  ⟨"language", none, (·.language), fun v r => { r with language := v }⟩,
  ⟨"validPattern", none, (·.validPattern), fun v r => { r with validPattern := v }⟩,
  ⟨"nPumps", none, (·.pumps), fun v r => { r with pumps := v }⟩,
  ⟨"timeLimit", none, (·.timeLimit), fun v r => { r with timeLimit := v }⟩,
  ⟨"timedOut", none, (·.timedOut), fun v r => { r with timedOut := v }⟩] ++ [
  held .evilInput "evilInput" (·.evilInput) fun i r => { r with evilInput := i }]

def Analysis.slots : List (Slot Analysis) := ofData [
  ⟨"slTimeout", none, (·.timeout), fun v r => { r with timeout := v }⟩,
  ⟨"powerPumps", none, (·.powerPumps), fun v r => { r with powerPumps := v }⟩,
  ⟨"lang_validPattern", none, (·.validIn), fun v r => { r with validIn := v }⟩,
  ⟨"lang_pump2timedOut", none, (·.timedOutBy), fun v r => { r with timedOutBy := v }⟩] ++ [
  held .regex "regex" (·.regex) fun x r => { r with regex := x },
  records .opinion "detectorOpinions" (·.opinions) fun os r => { r with opinions := os }]

end SuperLinear

namespace Publish

def Module.slots (kind : Kind) : List (Slot Module) := 
  ofData (markField :: typeField :: fields kind)

def WebSource.slots : List (Slot WebSource) := ofData (
  ⟨"initialized", none, (·.initialized), fun v r => { r with initialized := v }⟩ ::
    typeField :: fields)

end Publish

def Project.slots : List (Slot Project) := ofData (
  ⟨"initialized", none, (·.initialized), fun v r => { r with initialized := v }⟩ :: fields)

def StarredProject.slots : List (Slot StarredProject) := ofData (
  ⟨"initialized", none, (·.initialized), fun v r => { r with initialized := v }⟩ :: fields)

namespace AnyRecord

/-- A field of one record: what it holds, and the record with something else in it. -/
structure OwnSlot where
  name : String
  shown : Option Part
  put : Part → AnyRecord

def ownSlots {σ : Type} (wrap : σ → AnyRecord) (r : σ) (slots : List (Slot σ)) : List OwnSlot :=
  slots.map fun s => ⟨s.name, s.get r, fun p => wrap (s.set p r)⟩

open SuperLinear Publish

def slots : AnyRecord → List OwnSlot
  | fileReport r => ownSlots fileReport r FileReport.slots
  | usage r => ownSlots usage r Usage.slots
  | tracedUsage r => ownSlots tracedUsage r TracedUsage.slots
  | regex r => ownSlots regex r Regex.slots
  | patternInputs r => ownSlots patternInputs r PatternInputs.slots
  | witness r => ownSlots witness r Witness.slots
  | matchContents r => ownSlots matchContents r MatchContents.slots
  | matchResult r => ownSlots matchResult r MatchResult.slots
  | evaluation r => ownSlots evaluation r Evaluation.slots
  | pumpPair r => ownSlots pumpPair r PumpPair.slots
  | evilInput r => ownSlots evilInput r EvilInput.slots
  | opinion r => ownSlots opinion r Opinion.slots
  | validation r => ownSlots validation r Validation.slots
  | analysis r => ownSlots analysis r Analysis.slots
  | module r => ownSlots module r (Module.slots r.kind)
  | webSource r => ownSlots webSource r WebSource.slots
  | project r => ownSlots project r Project.slots
  | starredProject r => ownSlots starredProject r StarredProject.slots

/-- The fields of a record that have been set. -/
def fields (r : AnyRecord) : List (String × Part) :=
  r.slots.filterMap fun s => s.shown.map (s.name, ·)

def assign (name : String) (p : Part) (r : AnyRecord) : Option AnyRecord :=
  (r.slots.find? (·.name == name)).map (·.put p)

end AnyRecord

/-- A record with notes beside it, under names that none of its fields has. -/
structure Noted where
  record : AnyRecord
  notes : List (String × Part) := []

namespace Noted

/-- A field set, or a note made under a name that is no field. -/
def assign (name : String) (p : Part) (n : Noted) : Noted :=
  match n.record.assign name p with
  | some r => { n with record := r }
  | none => { n with notes := n.notes.filter (·.1 != name) ++ [(name, p)] }

def has (name : String) (n : Noted) : Bool := n.notes.any (·.1 == name)

def fields (n : Noted) : List (String × Part) := n.record.fields ++ n.notes

end Noted
end RegexCorpus
