import RegexCorpus.Host.Files
import RegexCorpus.Record.Any

/-!
# Files of records

One record a line. Writing stops at the first record that has no line; the lines before it stay.
-/

namespace RegexCorpus.AnyRecord

/-- The lines of parts put at the end of a file; only records have lines. -/
def appendAll (path : String) (room : Nat) : List Part → Act Unit
  | [] => pure ()
  | .record r :: rest => do
    Act.appendFile path ((← (r.toLine room : Outcome String)) ++ "\n")
    appendAll path room rest
  | _ :: _ => throw .missingField

/-- A file written anew with the lines of records. -/
def writeAll (path : String) (ps : List Part) (room : Nat := Json.nestingLimit) : Act Unit := do
  Act.writeFile path ""
  appendAll path room ps

end RegexCorpus.AnyRecord
