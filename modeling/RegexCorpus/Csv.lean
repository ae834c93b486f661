import RegexCorpus.Fault

/-!
# Comma-separated records

Records are lines of cells with commas between them. A cell that begins with a quote runs to its
closing quote, may hold commas and line ends, and holds a quote where two are written. A quote
anywhere else stands for itself, and so does what follows a closing quote.
-/

namespace RegexCorpus.Csv

inductive Mode where
  | recordStart
  | cellStart
  | plain
  | quoted
  /-- After a quote in a quoted cell, which may be its end or the first of two. -/
  | closing
  | recordEnd
  deriving DecidableEq, Repr

/-- A record being read: the cell so far, backwards, its length, and the cells before it. -/
structure Scan where
  mode : Mode := .recordStart
  letters : List Char := []
  size : Nat := 0
  cells : List String := []
  deriving Repr

/-- The most characters that a cell may hold. -/
def maxCell : Nat := 131072

namespace Scan

def put (mode : Mode) (c : Char) (s : Scan) : Option Scan :=
  if s.size < maxCell then
    some { s with mode, letters := c :: s.letters, size := s.size + 1 }
  else none

def save (mode : Mode) (s : Scan) : Scan :=
  { mode, cells := s.cells ++ [String.ofList s.letters.reverse] }

def isEnd (c : Char) : Bool := c == '\n' || c == '\r'

/-- The first character of a cell. -/
def stepStart (c : Char) (s : Scan) : Option Scan :=
  if isEnd c then some (s.save .recordEnd)
  else if c == '"' then some { s with mode := .quoted }
  else if c == ',' then some (s.save .cellStart)
  else s.put .plain c

/-- One character read. There is no next state when a cell grows too long, or when something stands
after the end of a line. -/
def step (c : Char) (s : Scan) : Option Scan :=
  match s.mode with
  | .recordStart => if isEnd c then some { s with mode := .recordEnd } else s.stepStart c
  | .cellStart => s.stepStart c
  | .plain =>
    if isEnd c then some (s.save .recordEnd)
    else if c == ',' then some (s.save .cellStart)
    else s.put .plain c
  | .quoted => if c == '"' then some { s with mode := .closing } else s.put .quoted c
  | .closing =>
    if c == '"' then s.put .quoted c
    else if c == ',' then some (s.save .cellStart)
    else if isEnd c then some (s.save .recordEnd)
    else s.put .plain c
  | .recordEnd => if isEnd c then some s else none

/-- The end of a line read. Only a quoted cell goes on with the next line. -/
def endLine (s : Scan) : Scan :=
  match s.mode with
  | .recordStart | .recordEnd => { s with mode := .recordStart }
  | .quoted => s
  | .cellStart | .plain | .closing => s.save .recordStart

def line (s : Scan) : List Char → Option Scan
  | [] => some s.endLine
  | c :: cs => match s.step c with
    | some s => s.line cs
    | none => none

end Scan

/-- The records of lines, given the record begun before them and the fault with which the lines end,
if they do; with the fault that ended reading. A quoted cell that is still open at the end is
complete, unless the lines break off. -/
def recordsFrom (broken : Option Fault) (s : Scan) : List String → List (List String) × Option Fault
  | [] =>
    match broken with
    | some f => ([], some f)
    | none => (if s.mode == .quoted then [(s.save .recordStart).cells] else [], none)
  | line :: rest =>
    match s.line line.toList with
    | none => ([], some (.badValue ""))
    | some s =>
      if s.mode == .recordStart then
        let (rs, f) := recordsFrom broken {} rest
        (s.cells :: rs, f)
      else recordsFrom broken s rest

/-- The records of lines that may break off with a fault, and the fault that ended reading. -/
def records (lines : List String × Option Fault) : List (List String) × Option Fault :=
  recordsFrom lines.2 {} lines.1

def column? (names : List String) (name : String) : Option Nat :=
  (names.zipIdx.reverse.find? (·.1 == name)).map (·.2)

/-- The cell in the last column of a name; there is none when the record is too short. -/
def cell (names row : List String) (name : String) : Outcome (Option String) :=
  match column? names name with
  | some i => .ok row[i]?
  | none => .error (.missingKey (.str name))

end RegexCorpus.Csv
