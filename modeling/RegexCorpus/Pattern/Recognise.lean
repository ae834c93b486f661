import RegexCorpus.Pattern.Probe
import RegexCorpus.Text.Digit
import RegexCorpus.Text.Word
import RegexCorpus.Value.Access

/-!
# Telling patterns from other texts

Texts collected from web pages may be patterns, plain words or pieces of code. A text is taken for a
pattern when it shows no mark of a code snippet and at least one feature of pattern notation.
-/

namespace RegexCorpus.Pattern

open Probe

def anyChar (_ : Char) : Bool := true

def notLineFeed (c : Char) : Bool := c != '\n'

/-- Texts that mark a piece of code. -/
def snippetWords : List String := ["(regex)", "<regex>", "[regex]"]

/-- Shapes that mark a piece of code: calls of pattern functions, logging, an assignment. -/
def snippetProbes : List Probe := [
  word "re." ++ some' Text.isWord ++ word "(",
  word "RegExp(",
  word "preg_" ++ some' Text.isWord ++ word "(",
  word "console.log",
  [.one Text.isWord] ++ some' Text.isBlank ++ word "=" ++ some' Text.isBlank ++ [.one Text.isWord]]

/-- The features of pattern notation, each with its short name. -/
def features : List (String × Probe) := [
  ("ADD", word "+"),
  ("CG", word "(" ++ some' anyChar ++ word ")"),
  ("KLE", word "*"),
  ("CCC", word "[" ++ some' anyChar ++ word "]"),
  ("ANY", word "."),
  ("RNG", word "[" ++ [.run notLineFeed] ++ word "-" ++ [.run notLineFeed] ++ word "]"),
  ("STR", word "^"),
  ("END", word "$"),
  ("NCCC", word "[^"),
  ("WSP", word "\\s"),
  ("OR", word "|"),
  ("DEC", word "\\d"),
  ("WRD", word "\\w"),
  ("QST", word "?"),
  ("LZY", word "+?"),
  ("LZY", word "*?"),
  ("NCG", word "(?:"),
  ("PNG", word "(?P<"),
  ("SNG", word "\x7b" ++ some' Text.isDigit ++ word "\x7d"),
  ("NWSP", word "\\S"),
  ("DBB", word "\x7b" ++ some' Text.isDigit ++ word "," ++ some' Text.isDigit ++ word "\x7d"),
  ("NLKA", word "(?!"),
  ("WNW", word "\\b"),
  ("NWRD", word "\\W"),
  ("LWB", word "\x7b" ++ some' Text.isDigit ++ word ",\x7d"),
  ("LKA", word "(?="),
  ("OPT", word "(?" ++ some' Text.isWord ++ word ")"),
  ("NLKB", word "(?<!"),
  ("LKB", word "(?<="),
  ("ENDZ", word "\\Z"),
  ("BKR", word "\\" ++ some' Text.isDigit),
  ("NDEC", word "\\D"),
  ("BKRN", word "(?P="),
  ("VWSP", word "\\v"),
  ("NWNW", word "\\B"),
  ("ESC", word "\\"),
  ("ESCB", word "\\" ++ [.one fun c => c == '[' || c == ']']),
  ("ESCP", word "\\" ++ [.one fun c => c == '(' || c == ')'])]

/-- The text looks like a piece of code. -/
def looksLikeSnippet (cs : List Char) : Bool :=
  snippetWords.any (fun w => Text.hasInfix w.toList cs) || snippetProbes.any (·.found cs)

def showsFeature (cs : List Char) : Bool := features.any fun f => f.2.found cs

def looksLikePattern (s : String) : Bool := !looksLikeSnippet s.toList && showsFeature s.toList

/-- Data looks like a pattern. A list or a dictionary that has a mark of code among its parts does not,
and other data is no text to look at. -/
def dataLooksLikePattern (v : Value) : Outcome Bool := do
  match v with
  | .str s => return looksLikePattern s
  | _ =>
    if (← snippetWords.mapM fun w => v.has (.str w)).any id then return false
    else .error .wrongKind

/-- A pattern written between two slashes, with letters around them, is what stands between; a text
with fewer or more slashes is taken as it is. -/
def betweenSlashes (s : String) : String :=
  match Text.split '/' s.toList with
  | [_, middle, _] => String.ofList middle
  | _ => s

/-- Data taken for a text between two slashes. A list has no text to cut, and is taken as it is unless
it seems to have two slashes. -/
def betweenSlashesOf (v : Value) : Outcome Value :=
  match v with
  | .str s => .ok (.str (betweenSlashes s))
  | .list xs => if (xs.filter (·.same (.str "/"))).length == 2 then .error .missingField else .ok v
  | _ => .error .missingField

/-- A pattern with its escaped double quotes written plainly. -/
def unescapeQuotes (s : String) : String := Text.replace "\\\"" "\"" s

def writingDifficulty (s : String) : Nat := s.length

def readingDifficulty (s : String) : Nat := s.length

end RegexCorpus.Pattern
