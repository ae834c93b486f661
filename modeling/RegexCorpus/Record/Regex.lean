import RegexCorpus.Record.Witness
import RegexCorpus.Registry
import RegexCorpus.Text.LowerCase

/-!
# Patterns of the corpus

A `Regex` is a distinct pattern with the number of modules that use it, by registry: in all, found
statically, found dynamically. It also counts the posts that mention it, and keeps the languages
known to support it and the witnesses of semantic differences.

The static counts may be set to the total ones, so as to share one table with them: a later use is
then counted in both at once.
-/

namespace RegexCorpus

/-- A distinct pattern of the corpus. -/
structure Regex where
  initialized : Value := .bool false
  type : Value := .str "Regex"
  pattern : Option Value := none
  total : Option Value := none
  posts : Option Value := none
  static : Option Value := none
  dynamic : Option Value := none
  /-- The static counts are the total ones. -/
  shared : Bool := false
  supportedLangs : Value := .list []
  inputsTested : Value := .int (-1)
  witnesses : Records Witness := .items []

namespace Regex

def staticCounts (r : Regex) : Option Value := if r.shared then r.total else r.static

/-- A pattern from its parts; null stands for a part that is not given. -/
def make (pattern total posts static dynamic supportedLangs inputsTested : Value)
    (witnesses : Records Witness) : Regex :=
  { initialized := .bool true
    pattern := some pattern
    total := some total
    posts := some posts
    static := some (given static (.dict []))
    dynamic := some (given dynamic (.dict []))
    supportedLangs := given supportedLangs (.list [])
    inputsTested := given inputsTested (.int (-1))
    witnesses := match witnesses with
      | .plain .null => .items []
      | ws => ws }

def bare (pattern : Value) : Regex :=
  make pattern (.dict []) (.dict []) .null .null .null .null (.items [])

def readWitnesses (room : Nat) : List Value → Outcome (List (Held Witness))
  | [] => .ok []
  | line :: rest => do
    return .record (← (Witness.read line room).made {}) :: (← readWitnesses room rest)

/-- The total counts set to another table. Static counts that were the total ones stay what they
were. -/
def setTotal (v : Value) (r : Regex) : Regex :=
  { r with total := some v, static := r.staticCounts, shared := false }

/-- The fields of a pattern apart from its witnesses. Counts that were shared are so no more once they
are set. -/
def fields : DataFields Regex := [
  ⟨"pattern", none, (·.pattern), fun v r => { r with pattern := v }⟩,
  ⟨"useCount_registry_to_nModules", none, (·.total), setTotal⟩,
  ⟨"useCount_IStype_to_nPosts", none, (·.posts), fun v r => { r with posts := v }⟩,
  ⟨"useCount_registry_to_nModules_static", some (.dict []), (·.staticCounts),
    fun v r => { r with static := v, shared := false }⟩,
  ⟨"useCount_registry_to_nModules_dynamic", some (.dict []), (·.dynamic),
    fun v r => { r with dynamic := v }⟩,
  ⟨"supportedLangs", some (.list []), (·.supportedLangs),
    fun v r => { r with supportedLangs := v }⟩,
  ⟨"nUniqueInputsTested", some (.list []), (·.inputsTested),
    fun v r => { r with inputsTested := v }⟩]

def setWitnesses (obj : Value) (room : Nat) : Edit Regex Unit := do
  if ← (obj.has (.str "semanticDifferenceWitnesses") : Outcome Bool) then
    let lines ← ((do (← obj.get "semanticDifferenceWitnesses").parts) : Outcome _)
    let ws ← (readWitnesses room lines : Outcome _)
    modify ({ · with witnesses := .items ws })
  else modify ({ · with witnesses := .items [] })

def readObject (obj : Value) (room : Nat := Json.nestingLimit) : Edit Regex Unit := do
  modify ({ · with initialized := .bool true })
  fields.readFrom obj
  setWitnesses obj room

def read (line : Value) (room : Nat := Json.nestingLimit) : Edit Regex Unit := do
  modify ({ · with initialized := .bool true })
  readObject (← (Json.ofLine line room : Outcome Value)) room

def witnessLines (r : Regex) (room : Nat) : Outcome (List Value) := do
  (← r.witnesses.parts).mapM fun w => do return .str (← (← w.get).toLine room)

def toLine (r : Regex) (room : Nat := Json.nestingLimit) : Outcome String := do
  require r.initialized.holds
  let pattern ← field r.pattern
  let total ← field r.total
  let posts ← field r.posts
  let static ← field r.staticCounts
  let dynamic ← field r.dynamic
  let witnesses ← r.witnessLines room
  Json.toLine (.object [
    ("pattern", pattern), ("useCount_registry_to_nModules", total),
    ("useCount_IStype_to_nPosts", posts), ("useCount_registry_to_nModules_static", static),
    ("useCount_registry_to_nModules_dynamic", dynamic), ("supportedLangs", r.supportedLangs),
    ("type", r.type), ("nUniqueInputsTested", r.inputsTested),
    ("semanticDifferenceWitnesses", .list witnesses)]) room

/-! ### Counting uses -/

def ensureEntry (table key : Value) : Outcome Value := do
  if ← table.has key then return table else table.put key (.int 0)

/-- The count under the key grows by one. -/
def increment (table key : Value) : Outcome Value := do
  table.put key (← (← table.item key).add (.int 1))

def onTotal (f : Value → Outcome Value) : Edit Regex Unit := do
  let t ← ((do f (← field (← get).total)) : Edit Regex Value)
  modify ({ · with total := some t })

def onStatic (f : Value → Outcome Value) : Edit Regex Unit := do
  if (← get).shared then onTotal f
  else
    let t ← ((do f (← field (← get).static)) : Edit Regex Value)
    modify ({ · with static := some t })

def onDynamic (f : Value → Outcome Value) : Edit Regex Unit := do
  let t ← ((do f (← field (← get).dynamic)) : Edit Regex Value)
  modify ({ · with dynamic := some t })

def onPosts (f : Value → Outcome Value) : Edit Regex Unit := do
  let t ← ((do f (← field (← get).posts)) : Edit Regex Value)
  modify ({ · with posts := some t })

/-- A use in a module of a registry, found by reading the source ("static") or by running it
("dynamic"). -/
def countUse (registry useType : Value) : Edit Regex Unit := do
  let r ← get
  let _ ← (field r.total : Outcome Value)
  let _ ← (field r.staticCounts : Outcome Value)
  let _ ← (field r.dynamic : Outcome Value)
  onTotal (ensureEntry · registry)
  onStatic (ensureEntry · registry)
  onDynamic (ensureEntry · registry)
  onTotal (increment · registry)
  if useType.same (.str "dynamic") then onDynamic (increment · registry)
  else if useType.same (.str "static") then onStatic (increment · registry)
  else throw (.badValue ("Error, unexpected useType " ++ useType.display))

/-- A use of the pattern at an index, which may count from the end. -/
def countUseAt (index : Int) (registry useType : Value) (rs : List Regex) :
    Outcome Unit × List Regex :=
  let i := if index < 0 then index + rs.length else index
  match if i < 0 then none else rs[i.toNat]? with
  | none => (.error .outOfRange, rs)
  | some r =>
    let (done, r) := (countUse registry useType).run r
    (done, rs.set i.toNat r)

/-- A mention in a post of a kind of web source. -/
def countPost (source : Value) : Edit Regex Unit := do
  onPosts (ensureEntry · source)
  onPosts (increment · source)

/-- The static counts are set to the total ones, provided that there are none yet. -/
def shareStatic : Edit Regex Unit := do
  let size ← ((do (← field (← get).staticCounts).size) : Edit Regex Nat)
  if size == 0 then modify ({ · with shared := true }) else throw (.badValue "")

/-! ### Where a pattern is used -/

def keysOf (table : Option Value) : Outcome (List Atom) := do
  return (← (← field table).entries).map (·.1)

/-- The languages, in small letters, of the registries with a count. -/
def languagesOf (table : Option Value) : Outcome (List String) := do
  let used := (← (← field table).entries).filter (·.2.holds)
  used.mapM fun e => do return Text.lower (← Registry.language e.1)

def registries (r : Regex) : Outcome (List Atom) := keysOf r.total

/-- The kinds of web sources with an entry. -/
def sources (r : Regex) : Outcome (List Atom) := keysOf r.posts

def languages (r : Regex) : Outcome (List String) := languagesOf r.total

def staticLanguages (r : Regex) : Outcome (List String) := languagesOf r.staticCounts

def dynamicLanguages (r : Regex) : Outcome (List String) := languagesOf r.dynamic

/-! ### Support by a language -/

/-- The question to the tool that tries patterns out. -/
def supportQuery (r : Regex) (language : Value) : Outcome String := do
  return Json.render (.object [("language", language), ("pattern", ← field r.pattern)])

/-- The pattern is tried out in a language, and the language noted if it takes the pattern. -/
def isSupported (language : Value) : Ask Regex Bool := do
  let query ← ((← get).supportQuery language : Outcome String)
  let reply ← Ask.ofConsult (consult query)
  (require (reply.code == 0) : Outcome Unit)
  let obj ← (Json.parse (Text.trim reply.output) : Outcome Value)
  if (← (obj.get "validPattern" : Outcome Value)).holds then
    let known := (← get).supportedLangs
    if !(← (known.has language : Outcome Bool)) then
      let known ← (append known language : Outcome Value)
      modify ({ · with supportedLangs := known })
    return true
  else return false

end Regex
end RegexCorpus
