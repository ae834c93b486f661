import RegexCorpus.Host.FileTree
import RegexCorpus.Record.Edit

/-!
# The host

The computer on which the tools run, as far as they can see it: its files, the programs that it has,
the answers that commands will give, and what has been run and printed so far. An `Act` is a
computation on it that may fail half-way and leaves its traces.
-/

namespace RegexCorpus

/-- A command line for the shell, or a program with its arguments. -/
inductive Command where
  | shell (line : String)
  | program (words : List String)
  deriving DecidableEq, Repr

/-- How a command will end. -/
inductive Answer where
  | done (code : Int) (output : String)
  | timeout
  | interrupted
  | missing
  deriving DecidableEq, Repr

/-- A command that was run, where, and the Java installation that was chosen for it. -/
structure Run where
  command : Command
  javaHome : Option String
  cwd : List String
  deriving Repr

/-- The machine that programs run on: its files, what commands answer, and what was done so far. -/
structure Host where
  files : FileTree := .folder []
  /-- The way from the root to the working directory. -/
  cwd : List String := []
  answers : List Answer := []
  /-- How every command after those ends. -/
  lastAnswer : Answer := .done 0 ""
  runs : List Run := []
  /-- The report that the counter of lines of code gives on any directory. -/
  lineReport : Value := .dict []
  lineCode : Int := 0
  /-- The programs that can be found by name, and where they are. -/
  programs : List (String × String) := []
  javaHome : Option String := none
  printed : String := ""
  /-- The directory in which the tools are installed. -/
  home : String := ""
  /-- The name that a temporary file gets. -/
  temporary : String := ""
  /-- The archives of source, by path, and what they hold. -/
  archives : List (String × FileTree) := []
  unpacked : String := ""
  /-- What the tests of an instrumented project leave in its log. -/
  testLog : Content := .text ""
  removalFails : Bool := false
  /-- How many calls may open inside one another below one that looks for files. -/
  room : Nat := 960
  /-- The most bytes that a path may have. -/
  longestPath : Nat := 4095
  tools : Tools := {}

/-- A program that runs on a host. What it did before a fault stays done. -/
abbrev Act := ExceptT Fault (StateM Host)

namespace Act

def ofConsult {α : Type} (c : Consult α) : Act α := fun h =>
  let (r, tools) := c.run h.tools
  (r, { h with tools })

/-- An edit of a record; the record comes back with the result. -/
def ofEdit {σ α : Type} (s : σ) (e : Edit σ α) : Act (Except Fault α × σ) := pure (e.run s)

/-- An edit of a record that consults the host's tools; the record comes back with the result. -/
def ofAsk {σ α : Type} (s : σ) (a : Ask σ α) : Act (α × σ) := fun h =>
  let ((r, s), tools) := a.run s h.tools
  (r.map (·, s), { h with tools })

def print (s : String) : Act Unit := do
  let h ← get
  set { h with printed := h.printed ++ s }

/-- Another computation instead of a fault that the test takes; other faults stay. -/
def orElse {α : Type} (act : Act α) (takes : Fault → Bool) (other : Fault → Act α) : Act α :=
  tryCatch act fun f => if takes f then other f else throw f

/-! ### Commands -/

/-- A command run; the next answer is its end. -/
def execute (command : Command) : Act Reply := do
  let h ← get
  let done : Run := { command, javaHome := h.javaHome, cwd := h.cwd }
  set { h with runs := h.runs ++ [done], answers := h.answers.tail }
  match h.answers.head?.getD h.lastAnswer with
  | .done code output => return { code, output }
  | .timeout => throw .commandTimeout
  | .interrupted => throw .interrupted
  | .missing => throw .noSuchFile

/-- A command line run that has to succeed. -/
def executeChecked (line : String) : Act String := do
  let reply ← execute (.shell line)
  if reply.code == 0 then return reply.output
  else throw (.commandFailed ("Error, cmd <" ++ line ++ "> returned " ++
    Text.ofInt reply.code ++ ": " ++ reply.output))

/-- Where a program is found. -/
def which (name : String) : Act (Option String) := do
  return ((← get).programs.find? (·.1 == name)).map (·.2)

def needPrograms (names : List String) : Act Unit := do
  let h ← get
  (require (names.all fun n => h.programs.any (·.1 == n)) : Outcome Unit)

end Act
end RegexCorpus
