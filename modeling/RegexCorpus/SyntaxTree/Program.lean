import RegexCorpus.Host.Files
import RegexCorpus.SyntaxTree.Instrument
import RegexCorpus.SyntaxTree.Report

/-!
# Programs on one source file

`reportOn` prints the calls that take a pattern in a source file; `instrumentFile` gives the tree of a
source file with its patterns logged. What the file parses to is given, and is nothing when it cannot
be parsed.
-/

namespace RegexCorpus.CallReport

structure Setting where
  /-- The place of the tools is known. -/
  knowsHome : Bool := true
  hasCounter : Bool := true
  /-- The table that the counter prints for the file. -/
  table : String := ""
  parsed : Option Tree := none
  /-- The calls inside one another that there is room for in the walk. -/
  room : Nat := 980

/-- The end of a program that could not do its work. -/
def failed : Fault := .exit (.int 1)

/-- The tree of a source file that can be read and parsed. -/
def parseFile (name : String) (parsed : Option Tree) : Act Tree := do
  let _ ← Act.readFile name
  match parsed with
  | some t => return t
  | none => throw .unparsable

/-- The report on the source file that the only argument names. -/
def reportOn (args : List String) (s : Setting) : Act Unit := do
  match args with
  | [name] =>
    if !s.knowsHome || !s.hasCounter then throw failed
    let _ ← (linesOfCode s.table : Outcome Int)
    tryCatch (do
      let t ← parseFile name s.parsed
      Act.print (← (reportLine s.room name t : Outcome String))) fun _ => do
      Act.print failureLine
      throw failed
  | _ => throw failed

/-- The source file that the first argument names, with its patterns logged in the file that the
second one names. -/
def instrumentFile (args : List String) (s : Setting) : Act Tree := do
  match args with
  | [source, log] =>
    tryCatch (do
      let t ← parseFile source s.parsed
      (t.instrument s.room source log : Outcome Tree)) fun _ => throw failed
  | _ => throw failed

end RegexCorpus.CallReport
