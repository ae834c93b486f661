import RegexCorpus.Value.Access
import RegexCorpus.Value.Display

/-!
# Writing JSON

Values are written in ASCII, with a blank after each comma and colon. `Value.sorted` brings the
keys of every dictionary into order first, which makes the text a canonical one: keys that are
texts go by code point, keys that are numbers by size, and keys of both kinds have no order.
-/

namespace RegexCorpus
namespace Json

def unitEscape (n : Nat) : List Char := '\\' :: 'u' :: Text.hex 4 n

/-- A code unit inside a string. -/
def writeUnit (n : Nat) : List Char :=
  if n == 0x22 then ['\\', '"']
  else if n == 0x5c then ['\\', '\\']
  else if n == 10 then ['\\', 'n']
  else if n == 13 then ['\\', 'r']
  else if n == 9 then ['\\', 't']
  else if n == 8 then ['\\', 'b']
  else if n == 12 then ['\\', 'f']
  else if 0x20 ≤ n && n ≤ 0x7e then [Char.ofNat n]
  else unitEscape n

def writeString (s : String) : List Char := '"' :: (Text.units s.toList).flatMap writeUnit ++ ['"']

/-- A double: the names of the values that are not finite differ from those in messages. -/
def writeDouble (x : Double) : List Char := (x.renderWith "NaN" "Infinity").toList

def writeAtom : Atom → List Char
  | .null => "null".toList
  | .bool b => (if b then "true" else "false").toList
  | .int n => (Text.ofInt n).toList
  | .double x => writeDouble x
  | .str s => writeString s

def writeKey : Atom → List Char
  | .str s => writeString s
  | a => writeString (String.ofList (writeAtom a))

mutual

def write : Value → List Char
  | .atom a => writeAtom a
  | .list xs => '[' :: writeItems xs ++ [']']
  | .dict es => '\x7b' :: writeEntries es ++ ['\x7d']

def writeItems : List Value → List Char
  | [] => []
  | [x] => write x
  | x :: y :: xs => write x ++ ',' :: ' ' :: writeItems (y :: xs)

/-- The entries of a dictionary, commas between them. -/
def writeEntries : List (Atom × Value) → List Char
  | [] => []
  | [(k, v)] => writeKey k ++ ':' :: ' ' :: write v
  | (k, v) :: e :: es => writeKey k ++ ':' :: ' ' :: write v ++ ',' :: ' ' :: writeEntries (e :: es)

end

/-- The JSON text of a value, keys in the order in which they stand. -/
def render (v : Value) : String := String.ofList (write v)

end Json

/-- Texts are ordered by code point, numbers by size; there is no order between other keys. -/
def Atom.order? : Atom → Atom → Option Ordering
  | str s, str t => some (compare s t)
  | a, b => match a.toNumber?, b.toNumber? with
    | some x, some y => compareNumbers? x y
    | _, _ => none

/-- Entries in the order of their keys. -/
def Entries.sorted (es : Entries) : Outcome Entries :=
  if es.length ≤ 1 || es.all (fun e => es.all fun f => (e.1.order? f.1).isSome) then
    .ok (es.mergeSort fun e f => (e.1.order? f.1) != some .gt)
  else .error .wrongKind

namespace Value

mutual

/-- The value with the keys of every dictionary in order. -/
def sorted : Value → Outcome Value
  | atom a => .ok (atom a)
  | list xs => do return list (← sortedItems xs)
  | dict es => do return dict (← Entries.sorted (← sortedEntries es))

def sortedItems : List Value → Outcome (List Value)
  | [] => .ok []
  | x :: xs => do return (← sorted x) :: (← sortedItems xs)

/-- The entries of a dictionary, each value with its keys in order. -/
def sortedEntries : List (Atom × Value) → Outcome (List (Atom × Value))
  | [] => .ok []
  | (k, v) :: es => do return (k, ← sorted v) :: (← sortedEntries es)

end

end Value
end RegexCorpus
