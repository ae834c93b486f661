import RegexCorpus.Json.Writer
import RegexCorpus.SyntaxTree.Calls

/-!
# The report on a source file

The calls that take a pattern in a file, as one line; and the lines of code that a table of line
counts gives to the file.
-/

namespace RegexCorpus.CallReport

/-! ### Lines of code -/

/-- One or more characters of a class at the front. -/
def someOf (p : Char → Bool) (cs : List Char) : Option (List Char × List Char) :=
  match cs.span p with
  | ([], _) => none
  | (front, rest) => some (front, rest)

/-- The count at the end of a row of the table: the name of the language, one file, two counts, and
the lines of code. -/
def rowCount? (cs : List Char) : Option (List Char) := do
  let language := "Python".toList
  if !language.isPrefixOf cs then none
  let (_, cs) ← someOf Text.isBlank (cs.drop language.length)
  let '1' :: cs := cs | none
  let (_, cs) ← someOf Text.isBlank cs
  let (_, cs) ← someOf Text.isDigit cs
  let (_, cs) ← someOf Text.isBlank cs
  let (_, cs) ← someOf Text.isDigit cs
  let (_, cs) ← someOf Text.isBlank cs
  let (count, _) ← someOf Text.isDigit cs
  return count

def firstRow? : List Char → Option (List Char)
  | [] => none
  | c :: cs => rowCount? (c :: cs) <|> firstRow? cs

/-- The lines of code in a table, or -1 when it has no row for the language. -/
def linesOfCode (table : String) : Outcome Int :=
  match firstRow? table.toList with
  | none => .ok (-1)
  | some digits =>
    match Text.readInt? (String.ofList digits) with
    | some n => .ok n
    | none => .error (.badValue "")

/-! ### The report -/

def callValue (c : PatternCall) : Value :=
  .object [("funcName", .str c.function), ("pattern", .str c.pattern), ("flags", .str c.flags)]

def reportLine (room : Nat) (fileName : String) (t : Tree) : Outcome String := do
  return Json.render (.object [
    ("fileName", .str fileName), ("couldParse", .bool true),
    ("regexes", .list ((← t.findings room).calls.map callValue)), ("language", .str "python")]) ++ "\n"

/-- What is printed for a file that could not be parsed. -/
def failureLine : String :=
  "Something went wrong, perhaps try with a different Python interpreter\n"

end RegexCorpus.CallReport
