import RegexCorpus.SyntaxTree.Calls

/-!
# Logging patterns

A tree is instrumented by wrapping the first argument of every call that takes a pattern: the wrapper
writes the pattern to a log file and passes it on.
-/

namespace RegexCorpus.Tree

/-! ### The wrapper -/

def constant (v : Value) : Tree := node "Constant" [("value", leaf v)]

/-- The context of a name that is read. -/
def load : Tree := node "Load" []

def name (id : String) : Tree := node "Name" [("id", leaf (.str id)), ("ctx", load)]

/-- A name of the program itself, whose context is left open. -/
def globalName (id : String) : Tree := node "Name" [("id", leaf (.str id))]

/-- An attribute of a name that is read. -/
def member (owner attr : String) : Tree :=
  node "Attribute" [("value", name owner), ("attr", leaf (.str attr)), ("ctx", load)]

def call (func : Tree) (args : List Tree) : Tree :=
  node "Call" [("func", func), ("args", list args), ("keywords", list [])]

def parameters (names : List String) : Tree :=
  node "arguments" [("posonlyargs", list []),
    ("args", list (names.map fun n => node "arg" [("arg", leaf (.str n))])),
    ("kwonlyargs", list []), ("kw_defaults", list []), ("defaults", list [])]

/-- The line that is logged: the file, the pattern and the flags. -/
def logLine : Tree :=
  node "BinOp" [
    ("left", call (member "json" "dumps") [node "Dict" [
      ("keys", list [constant (.str "file"), constant (.str "pattern"), constant (.str "flags")]),
      ("values", list [name "srcFile", name "regex", name "flags"])]]),
    ("op", node "Add" []), ("right", constant (.str "\n"))]

/-- A function that logs a pattern and gives it back. -/
def logger : Tree :=
  node "Expression" [("body", node "Lambda" [
    ("args", parameters ["regex", "flags", "f", "srcFile", "json"]),
    ("body", node "Subscript" [
      ("value", node "Tuple" [
        ("elts", list [call (member "f" "write") [logLine], call (member "f" "close") [],
          name "regex"]),
        ("ctx", load)]),
      ("slice", constant (.int 2)), ("ctx", load)])])]

def logged (sourceFile logFile : String) (pattern : Tree) : Tree :=
  call logger [pattern, constant (.str "UNKNOWN"),
    call (globalName "open") [constant (.str logFile), constant (.str "a")],
    constant (.str sourceFile), call (globalName "__import__") [constant (.str "json")]]

/-! ### Wrapping -/

/-- A call of an attribute of the module of patterns, by one of the functions that take a pattern. -/
def takesPattern (aliases : List String) (t : Tree) : Bool :=
  match t.field? "func" with
  | some (node "Attribute" _) => (calledFunction? aliases t).isSome
  | _ => false

def wrapFirst (wrap : Tree → Tree) : List (String × Tree) → List (String × Tree)
  | [] => []
  | ("args", list (t :: ts)) :: fs => ("args", list (wrap t :: ts)) :: fs
  | f :: fs => if f.1 == "args" then f :: fs else f :: wrapFirst wrap fs

/-- The fields of a node before they are entered: a call that takes a pattern has its first argument
wrapped. -/
def prepared (sourceFile logFile : String) (aliases : List String) (kind : String)
    (fs : Fields) : Fields :=
  if kind == "Call" && takesPattern aliases (node kind fs) then
    wrapFirst (logged sourceFile logFile) fs
  else fs

/-! ### The walk comes to an end

A wrapped argument is entered with its wrapper around it. The walk through the wrapper is paid for by
the call, since no call in the wrapper can be wrapped. -/

/-- A call of an attribute that has the name of a function that takes a pattern. -/
def namesFunction (t : Tree) : Bool :=
  match t.field? "func" with
  | some (node "Attribute" fs) =>
    ((node "Attribute" fs).textField? "attr").any PatternCall.functions.contains
  | _ => false

/-- What a call pays for the wrapper of its first argument. -/
def wrapperWeight : Nat := 200

mutual

/-- A bound on the steps of the walk through a tree. -/
def weight : Tree → Nat
  | node kind fs =>
    (if namesFunction (node kind fs) then wrapperWeight else 0) + fieldsWeight fs + 1
  | list ts => itemsWeight ts + 1
  | leaf _ => 1

/-- A bound on the steps of the walk through fields. -/
def fieldsWeight : List (String × Tree) → Nat
  | [] => 0
  | (_, t) :: fs => weight t + fieldsWeight fs + 1

/-- A bound on the steps of the walk through items. -/
def itemsWeight : List Tree → Nat
  | [] => 0
  | t :: ts => weight t + itemsWeight ts + 1

end


theorem weight_logged (sourceFile logFile : String) (t : Tree) :
    (logged sourceFile logFile t).weight = t.weight + wrapperWeight := by
  simp +arith [logged, logger, logLine, call, member, name, globalName, constant, parameters, load,
    weight, fieldsWeight, itemsWeight, namesFunction, field?, textField?, text?,
    PatternCall.functions, wrapperWeight]

theorem fieldsWeight_wrapFirst (sourceFile logFile : String) (fs : Fields) :
    fieldsWeight (wrapFirst (logged sourceFile logFile) fs) ≤ fieldsWeight fs + wrapperWeight := by
  fun_induction wrapFirst (logged sourceFile logFile) fs with
  | case1 => simp [fieldsWeight]
  | case2 t ts fs =>
    simp only [fieldsWeight, weight, itemsWeight, weight_logged]
    omega
  | case3 f fs => omega
  | case4 f fs _ _ ih =>
    simp only [fieldsWeight]
    omega

theorem namesFunction_of_takesPattern {aliases : List String} {t : Tree}
    (h : takesPattern aliases t = true) : namesFunction t = true := by
  unfold takesPattern at h
  unfold namesFunction
  split at h
  · next fs hf =>
    simp only [calledFunction?, hf, Option.bind_eq_bind, Option.bind_some, Option.isSome_iff_exists,
      Option.bind_eq_some_iff] at h
    obtain ⟨_, _, _, _, _, name, hname, h⟩ := h
    rw [hname, Option.any_some]
    split at h
    · next hnames => exact (Bool.and_eq_true_iff.mp hnames).2
    · cases h
  · cases h

theorem fieldsWeight_prepared (sourceFile logFile : String) (aliases : List String) (kind : String)
    (fs : Fields) :
    fieldsWeight (prepared sourceFile logFile aliases kind fs) < weight (node kind fs) := by
  unfold prepared
  split
  · next h =>
    have hnames := namesFunction_of_takesPattern (Bool.and_eq_true_iff.mp h).2
    have hwrap := fieldsWeight_wrapFirst sourceFile logFile fs
    rw [weight, if_pos hnames]
    omega
  · rw [weight]
    omega

mutual

/-- A tree with every pattern wrapped, and the names of the module of patterns met so far. Whether a
call is wrapped depends on the names met before it. The wrapper is walked through like the rest of the
tree. -/
def instrumentTree (sourceFile logFile : String) : Tree → List String → Tree × List String
  | node "Import" fs, as => (node "Import" fs, as ++ newAliases (node "Import" fs))
  | node "ImportFrom" fs, as => (node "ImportFrom" fs, as)
  | node kind fs, as =>
    let (done, as) := instrumentFields sourceFile logFile (prepared sourceFile logFile as kind fs) as
    (node kind done, as)
  | list ts, as =>
    let (done, as) := instrumentItems sourceFile logFile ts as
    (list done, as)
  | leaf v, as => (leaf v, as)
termination_by t => t.weight
decreasing_by
  · exact fieldsWeight_prepared sourceFile logFile as kind fs
  · simp [weight]

/-- Fields with every pattern wrapped. -/
def instrumentFields (sourceFile logFile : String) :
    List (String × Tree) → List String → List (String × Tree) × List String
  | [], as => ([], as)
  | (name, t) :: fs, as =>
    let (t, as) := instrumentTree sourceFile logFile t as
    let (fs, as) := instrumentFields sourceFile logFile fs as
    ((name, t) :: fs, as)
termination_by fs => fieldsWeight fs
decreasing_by
  · rw [fieldsWeight]
    omega
  · rw [fieldsWeight]
    omega

/-- Items with every pattern wrapped. -/
def instrumentItems (sourceFile logFile : String) : List Tree → List String → List Tree × List String
  | [], as => ([], as)
  | node kind fs :: ts, as =>
    let (t, as) := instrumentTree sourceFile logFile (node kind fs) as
    let (ts, as) := instrumentItems sourceFile logFile ts as
    (t :: ts, as)
  | list us :: ts, as =>
    let (ts, as) := instrumentItems sourceFile logFile ts as
    (list us :: ts, as)
  | leaf v :: ts, as =>
    let (ts, as) := instrumentItems sourceFile logFile ts as
    (leaf v :: ts, as)
termination_by ts => itemsWeight ts
decreasing_by
  all_goals
    rw [itemsWeight]
    omega

end

/-- A tree with every pattern logged, if the walk through it and through what it adds does not go too
deep. -/
def instrument (room : Nat) (sourceFile logFile : String) (t : Tree) : Outcome Tree :=
  let done := (instrumentTree sourceFile logFile t []).1
  if room < done.walkCalls then .error .tooDeep else .ok done

end RegexCorpus.Tree
