import RegexCorpus.Fault
import RegexCorpus.Text.Digit
import RegexCorpus.Text.Search

/-!
# Arguments of a command line

A `Form` says which settings a program takes, each under one or more names, and whether it takes one
operand. A long name may be cut short as long as it stays unambiguous, a long name and its value may
be joined by `=`, and a short name and its value, or several short names, by nothing at all. After
`--` all arguments are operands. Arguments that do not fit the form end the program with 2, and a
request for help with 0.
-/

namespace RegexCorpus.CommandLine

/-- What a setting takes: nothing, a text, several, or a whole number. -/
inductive Kind where
  | flag
  | text
  | texts
  | whole
  deriving DecidableEq, Repr

/-- A setting. The first of its names is the one by which programs ask for it. -/
structure Setting where
  names : List String
  kind : Kind
  required : Bool := false
  label : String := ""
  about : String := ""
  deriving Repr

/-- The arguments of a program. -/
structure Form where
  /-- The name under which the program is called. -/
  program : String := ""
  about : String := ""
  settings : List Setting
  /-- The operand, of which exactly one has to be given: a word for it, and what it is. -/
  operand : Option (String × String) := none
  deriving Repr

/-- The end of a program whose arguments do not fit. -/
def misuse : Fault := .exit (.int 2)

def help : Setting :=
  { names := ["-h", "--help"], kind := .flag, about := "show this help message and exit" }

/-- The settings that were made, the latest first, and the operands. -/
structure Arguments where
  made : Members := []
  operands : List String := []
  strange : Bool := false

namespace Setting

def name (s : Setting) : String := s.names.headD ""

def takesValue (s : Setting) : Bool := s.kind != .flag

end Setting

/-- An argument taken alone: an operand, the mark after which all are operands, a setting that may
have its value attached, a short name with more text right after it, or a name that no setting has. -/
inductive Word where
  | operand (s : String)
  | divider
  | setting (s : Setting) (attached : Option String)
  | joined (s : Setting) (rest : String)
  | unknown

def beginsWith (start s : String) : Bool := start.toList.isPrefixOf s.toList

/-- What stands before the first `=` of a text, and what stands after it. -/
def splitAtEquals (s : String) : String × Option String :=
  let before := s.toList.takeWhile (· != '=')
  match s.toList.drop before.length with
  | _ :: value => (String.ofList before, some (String.ofList value))
  | [] => (s, none)

def allDigits (cs : List Char) : Bool := cs.all Text.isDigit

/-- A negative number, whole or with a decimal point. -/
def isNegativeNumber (s : String) : Bool :=
  match s.toList with
  | '-' :: cs =>
    let whole := cs.takeWhile Text.isDigit
    match cs.drop whole.length with
    | [] => !whole.isEmpty
    | ['\n'] => !whole.isEmpty
    | '.' :: rest =>
      let rest := if rest.getLast? == some '\n' then rest.dropLast else rest
      !rest.isEmpty && allDigits rest
    | _ => false
  | _ => false

namespace Form

def byName (f : Form) : List (String × Setting) :=
  (help :: f.settings).flatMap fun s => s.names.map fun n => (n, s)

def find? (f : Form) (name : String) : Option Setting :=
  (f.byName.find? (·.1 == name)).map (·.2)

/-- What a text of at least two characters may stand for. -/
def candidates (f : Form) (s : String) : List Word :=
  if beginsWith "--" s then
    let (start, value) := splitAtEquals s
    (f.byName.filter fun e => beginsWith start e.1).map fun e => .setting e.2 value
  else
    let short := String.ofList (s.toList.take 2)
    (f.byName.filter (·.1 == short)).map fun e => .joined e.2 (String.ofList (s.toList.drop 2))

def classify (f : Form) (s : String) : Outcome Word :=
  if !beginsWith "-" s then .ok (.operand s)
  else match f.find? s with
  | some setting => .ok (.setting setting none)
  | none =>
    if s.length == 1 then .ok (.operand s)
    else
      let (start, value) := splitAtEquals s
      match value, f.find? start with
      | some v, some setting => .ok (.setting setting (some v))
      | _, _ => match f.candidates s with
        | [word] => .ok word
        | [] => .ok (if isNegativeNumber s || s.toList.contains ' ' then .operand s else .unknown)
        | _ => .error misuse

def classifyAll (f : Form) : List String → Outcome (List Word)
  | [] => .ok []
  | "--" :: rest => .ok (.divider :: rest.map .operand)
  | s :: rest => do return (← f.classify s) :: (← f.classifyAll rest)

/-- Text right after a short name can be read: as further short names, of which one that takes a value
has it after it or in the next argument. A name that no setting has ends the reading. -/
def reads (f : Form) (next : Option Word) : List Char → Bool
  | [] => true
  | c :: cs =>
    if c == '-' then false
    else match f.find? (String.ofList ['-', c]) with
      | none => true
      | some s => match cs with
        | [] => !s.takesValue || (next matches some (.operand _))
        | d :: _ => s.takesValue || d != '=' && f.reads next cs

end Form

namespace Arguments

def make (a : Arguments) (s : Setting) (value : String) : Outcome Arguments :=
  match s.kind with
  | .flag => .error misuse
  | .text | .texts => .ok { a with made := (s.name, .str value) :: a.made }
  | .whole => match Text.readInt? value with
    | some n => .ok { a with made := (s.name, .int n) :: a.made }
    | none => .error misuse

/-- A flag set. Help ends the program. -/
def raise (a : Arguments) (s : Setting) : Outcome Arguments :=
  if s.name == help.name then .error (.exit (.int 0))
  else .ok { a with made := (s.name, .bool true) :: a.made }

/-- Words taken one after the other. Of the flags only the request for help has a short name, so that
nothing comes of names after it. -/
def take (f : Form) (a : Arguments) : List Word → Outcome Arguments
  | [] => .ok a
  | .operand s :: rest => take f { a with operands := a.operands ++ [s] } rest
  | .divider :: rest => take f a rest
  | .unknown :: rest => take f { a with strange := true } rest
  | .setting s (some value) :: rest => do take f (← a.make s value) rest
  | .joined s more :: rest =>
    if s.takesValue then do take f (← a.make s more) rest
    else if f.reads rest.head? more.toList then do take f (← a.raise s) rest
    else .error misuse
  | .setting s none :: rest =>
    if s.takesValue then
      match rest with
      | .operand value :: rest => do take f (← a.make s value) rest
      | _ => .error misuse
    else do take f (← a.raise s) rest

def has (a : Arguments) (name : String) : Bool := a.made.any (·.1 == name)

def get? (a : Arguments) (name : String) : Option Value := (a.made.find? (·.1 == name)).map (·.2)

/-- The text of a setting, which is empty when it was not made. -/
def text (a : Arguments) (name : String) : String :=
  match a.get? name with
  | some (.str s) => s
  | _ => ""

/-- The number of a setting, which is zero when it was not made. -/
def whole (a : Arguments) (name : String) : Value := (a.get? name).getD (.int 0)

def texts (a : Arguments) (name : String) : List String :=
  a.made.reverse.filterMap fun e => match e with
    | (key, .str s) => if key == name then some s else none
    | _ => none

end Arguments

namespace Form

/-- Arguments that give all that the form requires, and nothing that it does not take. A mark before
operands counts as an argument of a form that takes none. -/
def accepts (f : Form) (words : List Word) (a : Arguments) : Bool :=
  f.settings.all (fun s => !s.required || a.has s.name) && !a.strange &&
    (if f.operand.isSome then a.operands.length == 1
      else a.operands.isEmpty && words.all fun w => !(w matches .divider))

def parse (f : Form) (args : List String) : Outcome Arguments := do
  let words ← f.classifyAll args
  let a ← Arguments.take f {} words
  if f.accepts words a then return a else throw misuse

end Form
end RegexCorpus.CommandLine
