import RegexCorpus.Number.Double

/-!
# Data values

The records of a corpus carry data of any shape, so one type holds it all: an *atom* (null, a
truth value, a whole number, a double, a text), a list, or a dictionary. Only atoms serve as keys,
and two numbers that are equal are the same key, whatever their kind. A dictionary is the list of
its entries in the order in which their keys were first put in.
-/

namespace RegexCorpus

/-- Data without parts; what a dictionary can have as a key. -/
inductive Atom where
  | null
  | bool (b : Bool)
  | int (n : Int)
  | double (x : Double)
  | str (s : String)
  deriving DecidableEq, Repr, Inhabited

/-- Data of unknown shape. -/
inductive Value where
  | atom (a : Atom)
  | list (items : List Value)
  | dict (entries : List (Atom × Value))
  deriving Repr, Inhabited

abbrev Entries := List (Atom × Value)

/-- The members of an object: entries whose keys are texts. -/
abbrev Members := List (String × Value)

namespace Atom

/-- A truth value counts as the number one or zero. -/
def toNumber? : Atom → Option (Int ⊕ Double)
  | bool b => some (.inl (if b then 1 else 0))
  | int n => some (.inl n)
  | double x => some (.inr x)
  | _ => none

/-- The order of two numbers of any kind. -/
def compareNumbers? : Int ⊕ Double → Int ⊕ Double → Option Ordering
  | .inl m, .inl n => some (compare m n)
  | .inl m, .inr y => (y.compareInt? m).map Ordering.swap
  | .inr x, .inl n => x.compareInt? n
  | .inr x, .inr y => x.compare? y

/-- Equality of data: numbers are compared by their value, all else by kind and content. -/
def same (a b : Atom) : Bool :=
  match a, b with
  | null, null => true
  | str s, str t => s == t
  | _, _ =>
    match a.toNumber?, b.toNumber? with
    | some x, some y => compareNumbers? x y == some .eq
    | _, _ => false

/-- Being one part: as equality, except that what is no number equals nothing and yet is one part
with itself. Keys, items and members are told apart in this way. -/
def samePart (a b : Atom) : Bool :=
  match a, b with
  | double .nan, double .nan => true
  | _, _ => a.same b

/-- Null, false, zero and the empty text stand for "no". -/
def holds : Atom → Bool
  | null => false
  | bool b => b
  | int n => n != 0
  | double x => !x.isZero
  | str s => !s.isEmpty

end Atom

namespace Value

@[match_pattern] abbrev null : Value := atom .null
@[match_pattern] abbrev bool (b : Bool) : Value := atom (.bool b)
@[match_pattern] abbrev int (n : Int) : Value := atom (.int n)
@[match_pattern] abbrev double (x : Double) : Value := atom (.double x)
@[match_pattern] abbrev str (s : String) : Value := atom (.str s)

def strs (ss : List String) : Value := list (ss.map str)

/-- A dictionary with texts as keys. -/
def object (members : Members) : Value :=
  dict (members.map fun (k, v) => (.str k, v))

/-- Null, false, zero and everything empty stand for "no". -/
def holds : Value → Bool
  | atom a => a.holds
  | list xs => !xs.isEmpty
  | dict es => !es.isEmpty

end Value

namespace Entries

def find? (es : Entries) (k : Atom) : Option Value := (List.find? (fun e => e.1.samePart k) es).map (·.2)

def has (es : Entries) (k : Atom) : Bool := es.any (fun e => e.1.samePart k)

/-- A value put under a key: in place of the old one, or as a new last entry. -/
def set (k : Atom) (v : Value) : Entries → Entries
  | [] => [(k, v)]
  | e :: es => if e.1.samePart k then (e.1, v) :: es else e :: set k v es

/-- The entry of a key taken out. -/
def erase (k : Atom) (es : Entries) : Entries := es.filter (fun e => !e.1.samePart k)

/-- A dictionary built from pairs, the last value of a repeated key standing at its first place. -/
def ofPairs (ps : List (Atom × Value)) : Entries := ps.foldl (fun es p => set p.1 p.2 es) []

end Entries

namespace Value

mutual

/-- Being one part of a list or a dictionary. The order of a dictionary's entries does not count. -/
def samePart : Value → Value → Bool
  | atom a, atom b => a.samePart b
  | list xs, list ys => sameItems xs ys
  | dict es, dict fs => es.length == fs.length && sameEntries es fs
  | _, _ => false

def sameItems : List Value → List Value → Bool
  | [], [] => true
  | x :: xs, y :: ys => samePart x y && sameItems xs ys
  | _, _ => false

/-- Every entry has an equal one in the other dictionary. -/
def sameEntries : List (Atom × Value) → Entries → Bool
  | [], _ => true
  | (k, v) :: es, fs =>
    (match Entries.find? fs k with
      | some w => samePart v w
      | none => false) && sameEntries es fs

end

/-- Equality of data. Lists and dictionaries are equal when their parts are. -/
def same : Value → Value → Bool
  | atom a, atom b => a.same b
  | v, w => samePart v w

end Value
end RegexCorpus
