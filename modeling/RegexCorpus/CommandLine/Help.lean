import RegexCorpus.CommandLine.Arguments
import RegexCorpus.Text.Wrap

/-!
# The help of a program

What a program prints when it is asked for help: how it is called, what it does, and its operand and
settings with a word on each. Lines are `lineWidth` characters wide, and what is said about a setting
starts in a column of its own.
-/

namespace RegexCorpus.CommandLine

def lineWidth : Nat := 78

/-- The last column at which what is said about a setting may start. -/
def lastColumn : Nat := 24

def blanks (n : Nat) : String := String.ofList (List.replicate n ' ')

namespace Setting

def called (s : Setting) (name : String) : String :=
  if s.takesValue then name ++ " " ++ s.label else name

/-- The parts of a call that make the setting; one that may be left out is bracketed. -/
def parts (s : Setting) : List String :=
  if !s.required then ["[" ++ s.called s.name ++ "]"]
  else if s.takesValue then [s.name, s.label]
  else [s.name]

def title (s : Setting) : String := Text.join ", " (s.names.map s.called)

end Setting

/-- Parts of a call put on lines, the first of which goes on from `line`; further ones are indented. -/
def callFrom (indent : Nat) (line : String) : List String → List String
  | [] => [line]
  | p :: ps =>
    if line.length + 1 + p.length ≤ lineWidth then callFrom indent (line ++ " " ++ p) ps
    else line :: callFrom indent (blanks indent ++ p) ps

namespace Form

/-- The operand and the settings, each with what is said about it. -/
def entries (f : Form) : List (String × String) :=
  f.operand.toList ++ (CommandLine.help :: f.settings).map fun s => (s.title, s.about)

/-- How the program is called: on one line if that is wide enough, and otherwise the operand on a line
of its own. -/
def usage (f : Form) : List String :=
  let start := "usage: " ++ f.program
  let settings := (CommandLine.help :: f.settings).flatMap Setting.parts
  let operands := f.operand.toList.map (·.1)
  let whole := Text.join " " (start :: settings ++ operands)
  if whole.length ≤ lineWidth then [whole]
  else callFrom (start.length + 1) start settings ++
    operands.map (blanks (start.length + 1) ++ ·)

/-- The column at which what is said about the entries starts. -/
def column (f : Form) : Nat :=
  min ((f.entries.map fun e => e.1.length + 2).foldl max 0 + 2) lastColumn

/-- The lines of an entry: what is said about it starts beside the title if there is room. -/
def entryLines (column : Nat) (title about : String) : List String :=
  let said := Text.wrap (lineWidth - column) about
  if title.length + 4 ≤ column then
    let start := "  " ++ title ++ blanks (column - 2 - title.length)
    match said with
    | [] => [start]
    | first :: rest => (start ++ first) :: rest.map (blanks column ++ ·)
  else ("  " ++ title) :: said.map (blanks column ++ ·)

def listing (f : Form) (title : String) (entries : List (String × String)) : List String :=
  if entries.isEmpty then []
  else ["", title ++ ":"] ++ entries.flatMap fun e => entryLines f.column e.1 e.2

def help (f : Form) : String :=
  let settings := (CommandLine.help :: f.settings).map fun s => (s.title, s.about)
  String.join ((f.usage ++ "" :: Text.wrap lineWidth f.about ++
    f.listing "positional arguments" f.operand.toList ++
    f.listing "options" settings).map (· ++ "\n"))

end Form
end RegexCorpus.CommandLine
