import RegexCorpus.SyntaxTree.Depth
import RegexCorpus.Value.Display

/-!
# Flags in a syntax tree

The flags of a call are static when they are written with names of flags, numbers and the operator
`|` only. Everything else makes them dynamic. The walk over them breaks off where it goes too deep.
-/

namespace RegexCorpus.Tree

def flagNames : List String :=
  ["DEBUG", "I", "IGNORECASE", "L", "LOCALE", "M", "MULTILINE", "S", "DOTALL", "U", "UNICODE", "X",
   "VERBOSE"]

/-- The flag that a node names, as an attribute of the module of patterns. -/
def flagName? (aliases : List String) (t : Tree) : Option String := do
  let owner ← (← t.field? "value").textField? "id"
  let name ← t.textField? "attr"
  if aliases.contains owner && flagNames.contains name then some name else none

/-- An imaginary number in a tree. -/
def imaginary (x : Double) : Value := .dict [(.str "$imaginary", .double x)]

/-- The text of an imaginary number, in which a whole one has no point. -/
def imaginaryText (x : Double) : String :=
  let cs := x.render.toList
  String.ofList ((if ['.', '0'].isSuffixOf cs then cs.take (cs.length - 2) else cs) ++ ['j'])

/-- The text of a number; truth values are no numbers. -/
def numberText? : Option Tree → Option String
  | some (leaf (.int n)) => some (Value.int n).display
  | some (leaf (.double x)) => some (Value.double x).display
  | some (leaf (.dict [(.str "$imaginary", .double x)])) => some (imaginaryText x)
  | _ => none

def namesModule (aliases : List String) (t : Tree) : Bool :=
  match t.textField? "id" with
  | some name => aliases.contains name
  | none => false

mutual

/-- The flags of a tree from left to right, or nothing when they are dynamic. `aliases` are the names
of the module of patterns. -/
def flags? (aliases : List String) : Tree → Option (List String)
  | node "Attribute" fs => (flagName? aliases (node "Attribute" fs)).map fun name => [name]
  | node "Constant" fs => (numberText? ((node "Constant" fs).field? "value")).map fun n => [n]
  | node "Name" fs => if namesModule aliases (node "Name" fs) then fieldFlags? aliases fs else none
  | node "BinOp" fs => fieldFlags? aliases fs
  | node "BitOr" fs => fieldFlags? aliases fs
  | node "Load" fs => fieldFlags? aliases fs
  | node _ _ => none
  | list ts => itemFlags? aliases ts
  | leaf _ => some []

def fieldFlags? (aliases : List String) : List (String × Tree) → Option (List String)
  | [] => some []
  | (_, t) :: fs => do return (← flags? aliases t) ++ (← fieldFlags? aliases fs)

def itemFlags? (aliases : List String) : List Tree → Option (List String)
  | [] => some []
  | node kind fs :: ts => do return (← flags? aliases (node kind fs)) ++ (← itemFlags? aliases ts)
  | list _ :: ts => itemFlags? aliases ts
  | leaf _ :: ts => itemFlags? aliases ts

end

/-- The kinds of node whose fields the walk over flags enters. -/
def enteredKinds : List String := ["Name", "BinOp", "BitOr", "Load"]

/-- The calls inside one another that the walk over flags takes. A constant that is no number and a
node of another kind are written out. -/
def flagCalls : Tree → Nat := measure fun t inner =>
  match t with
  | node kind _ =>
    -- the last two are for a message; the operator beside an attribute takes as many
    if kind == "Attribute" then 4
    else if enteredKinds.contains kind then 3 + max 1 inner
    else if kind != "Constant" then 2 + t.textCalls
    else if (numberText? (t.field? "value")).isSome then 5
    else 3 + t.textCalls
  | list _ => inner
  | leaf _ => 0

/-- The most digits of a whole number that the walk over flags writes out. -/
def flagDigits : Tree → Nat := measure fun t inner =>
  match t with
  | node kind _ =>
    if kind == "Attribute" then 0 else if enteredKinds.contains kind then inner else t.digits
  | _ => inner

/-- The walk over the flags of a tree: the flags, unless they are dynamic. -/
def readFlags (room : Nat) (aliases : List String) (t : Tree) : Outcome (Option (List String)) :=
  if room < t.flagCalls then .error .tooDeep
  else if Json.digitLimit < t.flagDigits then .error (.badValue "")
  else .ok (flags? aliases t)

end RegexCorpus.Tree
