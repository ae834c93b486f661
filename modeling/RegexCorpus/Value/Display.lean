import RegexCorpus.Value.Basic
import RegexCorpus.Number.Shortest
import RegexCorpus.Text.Printable
import RegexCorpus.Text.Search
import RegexCorpus.Text.Unit

/-!
# Data in messages

`Value.quoted` writes data so that its kind can be seen: texts stand in quotes, with marks for the
characters that cannot be printed. `Value.display` is the same but for a text by itself, which
stands as it is.
-/

namespace RegexCorpus
namespace Text

/-- A number in base sixteen, filled up with zeros. -/
def hex (width n : Nat) : List Char :=
  let ds := Nat.toDigits 16 n
  List.replicate (width - ds.length) '0' ++ ds

/-- A character inside a quoted text. -/
def quotedChar (quote c : Char) : List Char :=
  if c == quote || c == '\\' then ['\\', c]
  else if c == '\n' then ['\\', 'n']
  else if c == '\r' then ['\\', 'r']
  else if c == '\t' then ['\\', 't']
  else if isPrintable c then [c]
  else
    let n := (half? c).getD c.toNat
    if n < 0x100 then '\\' :: 'x' :: hex 2 n
    else if n < 0x10000 then '\\' :: 'u' :: hex 4 n
    else '\\' :: 'U' :: hex 8 n

/-- A text in quotes: single ones, unless it holds single and no double ones. -/
def quoted (s : String) : String :=
  let cs := s.toList
  let quote := if cs.contains '\'' && !cs.contains '"' then '"' else '\''
  String.ofList (quote :: cs.flatMap (quotedChar quote) ++ [quote])

end Text

def Atom.quoted : Atom → String
  | null => "None"
  | bool b => if b then "True" else "False"
  | int n => Text.ofInt n
  | double x => x.render
  | str s => Text.quoted s

namespace Value

mutual

/-- Data in a message, texts in quotes. -/
def quoted : Value → String
  | atom a => a.quoted
  | list xs => "[" ++ Text.join ", " (quotedItems xs) ++ "]"
  | dict es => "\x7b" ++ Text.join ", " (quotedEntries es) ++ "\x7d"

def quotedItems : List Value → List String
  | [] => []
  | x :: xs => quoted x :: quotedItems xs

def quotedEntries : List (Atom × Value) → List String
  | [] => []
  | (k, v) :: es => (k.quoted ++ ": " ++ quoted v) :: quotedEntries es

end

/-- Data in a message, a text by itself without quotes. -/
def display : Value → String
  | str s => s
  | v => v.quoted

end Value
end RegexCorpus
