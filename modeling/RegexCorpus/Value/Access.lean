import RegexCorpus.Fault
import RegexCorpus.Text.Search

/-!
# Access to data of unknown shape

Reading a part, asking for membership, walking through and counting: each operation says which
kinds of data it takes, and fails with `Fault.wrongKind` on the others.
-/

namespace RegexCorpus.Value

def toKey : Value → Outcome Atom
  | atom a => .ok a
  | _ => .error .wrongKind

/-- The value of a data item at an index that may count from the end. -/
def itemAt {α : Type} (xs : List α) (n : Int) : Outcome α :=
  let i := if n < 0 then n + xs.length else n
  match i with
  | .ofNat k => match xs[k]? with
    | some x => .ok x
    | none => .error .outOfRange
  | .negSucc _ => .error .outOfRange

/-- An index: a whole number, a truth value counting as one or zero. -/
def toIndex : Value → Outcome Int
  | int n => .ok n
  | bool b => .ok (if b then 1 else 0)
  | _ => .error .wrongKind

/-- The part of the data under a key or at an index. -/
def item (v key : Value) : Outcome Value :=
  match v with
  | dict es => do
    let k ← key.toKey
    match Entries.find? es k with
    | some w => .ok w
    | none => .error (.missingKey k)
  | list xs => do itemAt xs (← key.toIndex)
  | str s => do return str (String.ofList [← itemAt s.toList (← key.toIndex)])
  | _ => .error .wrongKind

/-- The part of the data under a text key. -/
def get (v : Value) (key : String) : Outcome Value := v.item (str key)

/-- The key, item or piece of text occurs in the data. -/
def has (v key : Value) : Outcome Bool :=
  match v with
  | dict es => do return Entries.has es (← key.toKey)
  | list xs => .ok (xs.any (·.samePart key))
  | str s => match key with
    | str t => .ok (Text.hasInfix t.toList s.toList)
    | _ => .error .wrongKind
  | _ => .error .wrongKind

/-- What stands under the key, or the default if the key does not occur. -/
def getOr (v : Value) (key : String) (default : Value) : Outcome Value := do
  if ← v.has (str key) then v.get key else return default

/-- The data with a part set. Only a dictionary takes a text as a key. -/
def put (v : Value) (key new : Value) : Outcome Value :=
  match v with
  | dict es => do return dict (Entries.set (← key.toKey) new es)
  | list xs => do
    let n ← key.toIndex
    let _ ← itemAt xs n
    return list (xs.set (if n < 0 then n + xs.length else n).toNat new)
  | _ => .error .wrongKind

/-- What walking through the data gives: items, keys or characters. -/
def parts : Value → Outcome (List Value)
  | list xs => .ok xs
  | dict es => .ok (es.map fun e => atom e.1)
  | str s => .ok (s.toList.map fun c => str (String.ofList [c]))
  | _ => .error .wrongKind

def size : Value → Outcome Nat
  | list xs => .ok xs.length
  | dict es => .ok es.length
  | str s => .ok s.length
  | _ => .error .wrongKind

/-- The entries of a dictionary; other data has none to ask for. -/
def entries : Value → Outcome Entries
  | dict es => .ok es
  | _ => .error .missingField

/-- The characters of a text; other data has no operations on texts. -/
def text : Value → Outcome String
  | str s => .ok s
  | _ => .error .missingField

def toNumber : Value → Outcome (Int ⊕ Double)
  | atom a => match a.toNumber? with
    | some x => .ok x
    | none => .error .wrongKind
  | _ => .error .wrongKind

/-- A whole number as a double, unless it is too large. -/
def doubleOfInt (n : Int) : Outcome Double :=
  match Double.ofInt n with
  | .infinite _ => .error .overflow
  | x => .ok x

/-- The sum of two numbers; texts and lists are joined with their like. -/
def add (v w : Value) : Outcome Value :=
  match v, w with
  | str s, str t => .ok (str (s ++ t))
  | list xs, list ys => .ok (list (xs ++ ys))
  | _, _ => do
    match ← v.toNumber, ← w.toNumber with
    | .inl m, .inl n => return int (m + n)
    | .inl m, .inr y => return double ((← doubleOfInt m).add y)
    | .inr x, .inl n => return double (x.add (← doubleOfInt n))
    | .inr x, .inr y => return double (x.add y)

/-- A number is above zero. -/
def isPositive (v : Value) : Outcome Bool := do
  return Atom.compareNumbers? (← v.toNumber) (.inl 0) == some .gt

end RegexCorpus.Value
