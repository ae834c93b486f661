import RegexCorpus.Host.Files
import RegexCorpus.Record.Usage

/-!
# Logs of patterns

The log of an instrumented project has a line for every use of a pattern, with the file, the pattern
and its flags. Each pattern of a file counts once, with the flags of its last use.
-/

namespace RegexCorpus

/-- For each file of a log its patterns with their records, both in order of first appearance. -/
abbrev PatternLog := List (Atom × Entries)

namespace PatternLog

def patternsOf (log : PatternLog) (file : Atom) : Entries :=
  ((log.find? (·.1.samePart file)).map (·.2)).getD []

/-- The patterns of a file changed; a new file goes to the end. -/
def set (file : Atom) (patterns : Entries) : PatternLog → PatternLog
  | [] => [(file, patterns)]
  | e :: es => if e.1.samePart file then (e.1, patterns) :: es else e :: set file patterns es

/-- The use that an object reports; the last one with its file and pattern counts. -/
def addUse (log : PatternLog) (use : Value) : Outcome PatternLog := do
  let file ← (← use.get "file").toKey
  let pattern ← use.get "pattern"
  let flags ← use.get "flags"
  let key ← pattern.toKey
  return log.set file
    (Entries.set key (.object [("pattern", pattern), ("flags", flags)]) (log.patternsOf file))

/-- The use on a line; a line that cannot be read does not count. -/
def addLine (log : PatternLog) (line : String) : Outcome PatternLog :=
  match Json.ofText line with
  | .ok use => log.addUse use
  | .error _ => .ok log

def ofLines (lines : List String) : Outcome PatternLog := lines.foldlM addLine []

/-- The uses in a log, file after file. -/
def usages (log : PatternLog) : Outcome (List Usage) := do
  let found ← log.mapM fun (file, patterns) =>
    (FileReport.make (.atom file) (.str "XXX") (.bool true) (.list (patterns.map (·.2)))).usages
  return found.flatten

/-- The uses in the log that a file holds. -/
def load (path : String) : Act (List Usage) := do
  let (lines, fault) := (← Act.content path).lines
  let log ← (ofLines lines : Outcome PatternLog)
  match fault with
  | some f => throw f
  | none => (log.usages : Outcome _)

end PatternLog

end RegexCorpus
