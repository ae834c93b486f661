import RegexCorpus.SyntaxTree.Flags

/-!
# Calls that take a pattern

A file that imports the module of patterns calls its functions by the names under which it imported
the module. The walk through a tree in pre-order collects those names, and every call of one of the
functions through a name that it has met.
-/

namespace RegexCorpus

/-- A call that takes a pattern: the function, the pattern and the flags. -/
structure PatternCall where
  function : String
  pattern : String
  flags : String
  deriving DecidableEq, Repr

namespace PatternCall

def functions : List String :=
  ["compile", "search", "match", "fullmatch", "split", "findall", "finditer", "sub", "subn", "escape"]

/-- The place of the flags among the arguments of a function, if it takes flags. -/
def flagsIndex? : String → Option Nat
  | "compile" => some 1
  | "search" => some 2
  | "match" => some 2
  | "fullmatch" => some 2
  | "split" => some 3
  | "findall" => some 2
  | "finditer" => some 2
  | "sub" => some 4
  | "subn" => some 4
  | _ => none

/-- A pattern that is known only when the program runs. -/
def dynamicPattern : String := "DYNAMIC-PATTERN"

/-- Flags that are known only when the program runs. -/
def dynamicFlags : String := "DYNAMIC-FLAGS"

/-- The flags of a function that takes none. -/
def flagless : String := "FLAGLESS"

end PatternCall

namespace Tree

def patternModule : String := "re"

/-- The names that an import gives to the module of patterns, up to the first malformed alias. -/
def importedAs : List Tree → List String
  | [] => []
  | t :: ts =>
    match t.field? "name" with
    | none => []
    | some name =>
      if name.text? == some patternModule then
        match t.field? "asname" with
        | none => patternModule :: importedAs ts
        | some (leaf .null) => patternModule :: importedAs ts
        | some (leaf (.str other)) => other :: importedAs ts
        | some _ => importedAs ts
      else importedAs ts

/-- The names that an import node adds. -/
def newAliases (t : Tree) : List String :=
  match t.field? "names" with
  | some (list ts) => importedAs ts
  | _ => []

/-- The function that a node calls on the module of patterns. -/
def calledFunction? (aliases : List String) (t : Tree) : Option String := do
  let f ← t.field? "func"
  let owner ← (← f.field? "value").textField? "id"
  let name ← f.textField? "attr"
  if aliases.contains owner && PatternCall.functions.contains name then some name else none

/-- The value of the first keyword argument for flags; `none` when a keyword is malformed. -/
def flagsKeyword? : List Tree → Option (Option Tree)
  | [] => some none
  | t :: ts =>
    match t with
    | node _ _ =>
      if t.textField? "arg" == some "flags" then (t.field? "value").map some else flagsKeyword? ts
    | _ => none

/-- The tree of the flags of a call, if it has one: the argument in the place of the flags, else the
keyword argument. `none` when the call is malformed. -/
def flagsTree? (t : Tree) (args : List Tree) (index : Nat) : Option (Option Tree) :=
  match args[index]? with
  | some f => some (some f)
  | none => do flagsKeyword? (← (← t.field? "keywords").items?)

/-- The text of the flags of a call; `none` when the call is malformed or the walk over its flags
breaks off. -/
def flagsText? (room : Nat) (aliases : List String) (t : Tree) (args : List Tree)
    (function : String) : Option String :=
  match PatternCall.flagsIndex? function with
  | none => some PatternCall.flagless
  | some index =>
    match flagsTree? t args index with
    | none => none
    | some none => some ""
    | some (some (node kind fs)) =>
      match readFlags room aliases (node kind fs) with
      | .ok (some names) => some (Text.join "|" names)
      | .ok none => some PatternCall.dynamicFlags
      | .error _ => none
    | some (some other) => if other.holds then none else some ""

/-- The call of a node, if it is a call of a function that takes a pattern with an argument. A call
that is too large to be looked at is passed over. -/
def patternCall? (room : Nat) (aliases : List String) (t : Tree) : Option PatternCall := do
  let function ← calledFunction? aliases t
  guard (t.hasText room)
  let args ← (← t.field? "args").items?
  let _ ← args.head?
  let flags ← flagsText? room aliases t args function
  some { function, pattern := PatternCall.dynamicPattern, flags }

/-- What the walk has met: names of the module, and calls. -/
structure Findings where
  aliases : List String := []
  calls : List PatternCall := []
  deriving Repr

/-- The calls that are under way where the walk enters the fields of a node. -/
def opening (kind : String) : Nat := if kind == "Call" || kind == "Constant" then 3 else 2

/-- The calls inside one another that the walk through a tree takes. An import of the module of
patterns comes with a message; one of names out of the module is written out. -/
def walkCalls : Tree → Nat := measure fun t inner =>
  match t with
  | node "Import" _ => if t.newAliases.isEmpty then 2 else 4
  | node "ImportFrom" _ => if t.textField? "module" == some patternModule then 2 + t.textCalls else 2
  | node kind _ => opening kind + max 1 inner
  | list _ => inner
  | leaf _ => 0

mutual

/-- A tree walked through in pre-order, with room for so many calls. Imports are not entered. -/
def walk (room : Nat) : Tree → Findings → Findings
  | node "Import" fs, w => { w with aliases := w.aliases ++ newAliases (node "Import" fs) }
  | node "ImportFrom" _, w => w
  | node kind fs, w =>
    let found := if kind == "Call" then patternCall? (room - 2) w.aliases (node kind fs) else none
    walkFields (room - opening kind) fs { w with calls := w.calls ++ found.toList }
  | list ts, w => walkItems room ts w
  | leaf _, w => w

def walkFields (room : Nat) : List (String × Tree) → Findings → Findings
  | [], w => w
  | (_, t) :: fs, w => walkFields room fs (walk room t w)

/-- The nodes among items walked through in order. -/
def walkItems (room : Nat) : List Tree → Findings → Findings
  | [], w => w
  | node kind fs :: ts, w => walkItems room ts (walk room (node kind fs) w)
  | list _ :: ts, w => walkItems room ts w
  | leaf _ :: ts, w => walkItems room ts w

end

def findings (room : Nat) (t : Tree) : Outcome Findings :=
  if room < t.walkCalls then .error .tooDeep else .ok (walk room t {})

end Tree
end RegexCorpus
