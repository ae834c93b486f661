import RegexCorpus.Csv
import RegexCorpus.Record.File
import RegexCorpus.Survey.Outlier

/-!
# Surveys of files and patterns

A survey lists the patterns that were found in each file, as comma-separated records with a column
`file` and a column `regex`. Its distinct patterns become a corpus. What goes wrong in one sheet ends
the reading of that sheet, and what was read before stays.
-/

namespace RegexCorpus

/-- The distinct patterns of each file. A short record leaves the file or the pattern open. -/
abbrev Survey := List (Option String × List (Option String))

namespace Survey

def mention (file : Option String) (s : Survey) : Survey :=
  if s.any (·.1 == file) then s else s ++ [(file, [])]

/-- The patterns with one more, unless it is among them. -/
def addNew (pattern : Option String) (ps : List (Option String)) : List (Option String) :=
  if ps.contains pattern then ps else ps ++ [pattern]

def note (file pattern : Option String) (s : Survey) : Survey :=
  s.map fun e => if e.1 == file then (e.1, addNew pattern e.2) else e

/-- A record noted. The file is mentioned even if there is no column for the pattern. -/
def addRecord (names row : List String) : Edit Survey Unit := do
  let file ← (Csv.cell names row "file" : Outcome _)
  modify (mention file)
  let pattern ← (Csv.cell names row "regex" : Outcome _)
  modify (note file pattern)

/-- A sheet noted: its first record names the columns, and empty records do not count. -/
def addSheet (c : Content) : Edit Survey Unit := do
  let (records, fault) := Csv.records c.lines
  match records with
  | [] => pure ()
  | names :: rows => (rows.filter (!·.isEmpty)).forM (addRecord names)
  match fault with
  | some f => throw f
  | none => pure ()

def ofFolder (dir : String) : Act Survey := do
  let sheets := (← Act.listFolder dir).filter fun e => e.1.endsWith ".csv"
  sheets.foldlM (fun s e => do
    let c ← Act.content (Path.join dir e.1)
    return ((addSheet c).run s).2) []

def patterns (s : Survey) : List (Option String) :=
  s.foldl (fun ps e => e.2.foldl (fun ps p => addNew p ps) ps) []

def toRegex (pattern : Option String) : Regex := Regex.bare ((pattern.map Value.str).getD .null)

def outlierPercentile : Int := 99

/-- The distinct patterns of the survey in a folder written to a file, one a line; files with
unusually many patterns may be left out. -/
def convert (dir : String) (dropOutliers : Bool) (out : String) : Act Unit := do
  let survey ← ofFolder dir
  let kept ← ((if dropOutliers then
      withoutOutliers lowerPercentile List.length outlierPercentile survey
    else .ok survey) : Outcome Survey)
  AnyRecord.writeAll out (kept.patterns.map fun p => .record (.regex (toRegex p)))

end Survey
end RegexCorpus
