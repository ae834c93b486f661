import RegexCorpus.Record.Edit

/-!
# Web pages with patterns

A `WebSource` is a page on which patterns were found, with its other addresses. Its line names the
site; a line of no known site is refused.
-/

namespace RegexCorpus.Publish

/-- The site that a page belongs to; `any` pages carry no name of a site. -/
inductive Site where
  | any
  | regExLib
  | stackOverflow
  deriving DecidableEq, Repr

namespace Site

def name? : Site → Option String
  | any => none
  | regExLib => some "RegExLibRegexSource"
  | stackOverflow => some "StackOverflowRegexSource"

def ofName? (v : Value) : Option Site :=
  [regExLib, stackOverflow].find? fun s => match s.name? with
    | some n => v.same (.str n)
    | none => false

end Site

/-- A page on which patterns were found. -/
structure WebSource where
  site : Site
  type : Value
  initialized : Value := .bool false
  uri : Option Value := none
  uriAliases : Option Value := none
  patterns : Option Value := none
  deriving Repr

namespace WebSource

def empty (site : Site) : WebSource :=
  { site, type := match site.name? with
    | some n => .str n
    | none => .null }

def fill (uri uriAliases patterns : Value) : Edit WebSource Unit :=
  modify ({ · with initialized := .bool true, uri, uriAliases, patterns })

def typeField : DataField WebSource := ⟨"type", none, (·.type), fun v r => { r with type := v }⟩

def fields : DataFields WebSource := [
  ⟨"uri", none, (·.uri), fun v r => { r with uri := v }⟩,
  ⟨"uriAliases", none, (·.uriAliases), fun v r => { r with uriAliases := v }⟩,
  ⟨"patterns", none, (·.patterns), fun v r => { r with patterns := v }⟩]

def read (line : Value) (room : Nat := Json.nestingLimit) : Edit WebSource Unit := do
  modify ({ · with initialized := .bool true })
  let obj ← (Json.ofLine line room : Outcome Value)
  fields.readFrom obj
  if ← (obj.has (.str "type") : Outcome Bool) then
    DataFields.readFrom [typeField] obj

/-- The fields on a line. -/
def lineFields (site : Site) : DataFields WebSource :=
  fields ++ if site == .any then [] else [typeField]

def toLine (r : WebSource) (room : Nat := Json.nestingLimit) : Outcome String := do
  require r.initialized.holds
  Json.toLine (← members ((lineFields r.site).entries r)) room

/-- The page on a line that names its site. -/
def ofLine (line : Value) (room : Nat := Json.nestingLimit) : Outcome WebSource :=
  byType Site.ofName? (fun site => (read line room).made (empty site)) line room

end WebSource
end RegexCorpus.Publish
