import RegexCorpus.Value.Access

/-!
# Flags

What the flag letters and names of four languages ask for, in one vocabulary.
-/

namespace RegexCorpus

/-- An effect that a flag of some language asks for. -/
inductive Flag where
  | multiLineAnchors
  | startingAnchor
  | dollarIsTrueEnd
  | dotAll
  | caseInsensitive
  | comments
  | evaluate
  | charsetRestrictedUnicode
  | charsetUnicode
  | charsetUtf8
  | charsetLocale
  | debug
  | globalSearch
  | stickySearch
  | asciiBuiltInClasses
  | optimize
  | ungreedy
  | debugInfo
  deriving DecidableEq, Repr

namespace Flag

def name : Flag → String
  | multiLineAnchors => "MultiLineAnchors"
  | startingAnchor => "StartingAnchor"
  | dollarIsTrueEnd => "DollarIsTrueEnd"
  | dotAll => "DotAll"
  | caseInsensitive => "CaseInsensitive"
  | comments => "Comments"
  | evaluate => "Eval"
  | charsetRestrictedUnicode => "CharsetRestrictedUnicode"
  | charsetUnicode => "CharsetUnicode"
  | charsetUtf8 => "CharsetUTF8"
  | charsetLocale => "CharsetLocale"
  | debug => "Debug"
  | globalSearch => "GlobalSearch"
  | stickySearch => "StickySearch"
  | asciiBuiltInClasses => "ASCIIMatchForBuiltInCharClasses"
  | optimize => "Optimize"
  | ungreedy => "Ungreedy"
  | debugInfo => "DebugInfo"

def description : Flag → String
  | multiLineAnchors => "Apply anchors at line delimiters instead of string begin and end"
  | startingAnchor => "Match must begin at beginning, like ^"
  | dollarIsTrueEnd => "Make $ actually match at the end instead of a final newline"
  | dotAll => "Make . match any character, including newlines"
  | caseInsensitive => "Make letters match all cases"
  | comments => "Enable pretty regexes: ignore non-escaped whitespace and treat # as a comment."
  | evaluate => "Eval-like behavior during search-replace"
  | charsetRestrictedUnicode =>
    "Use the Unicode charset. Also restrict the behavior of \\d, \\s, \\w, and Posix char " ++
    "classes to consider only within the ASCII range. \\D, \\S, and \\W match non-ASCII " ++
    "characters"
  | charsetUnicode => "Use the Unicode charset"
  | charsetUtf8 => "Use the UTF8 charset"
  | charsetLocale => "Use the charset of the current Locale"
  | debug => "Print debug info"
  | globalSearch => "Global search: resume where previous search left off"
  | stickySearch => "Sticky search: resume, left-anchored, previous search left off"
  | asciiBuiltInClasses => "TODO XXX"
  | optimize => "Optimize the internal regex representation"
  | ungreedy => "Reverse quantifier greediness"
  | debugInfo => "Generate debugging info"

def all : List Flag := [
  .multiLineAnchors, .startingAnchor, .dollarIsTrueEnd, .dotAll, .caseInsensitive, .comments,
  .evaluate, .charsetRestrictedUnicode, .charsetUnicode, .charsetUtf8, .charsetLocale, .debug,
  .globalSearch, .stickySearch, .asciiBuiltInClasses, .optimize, .ungreedy, .debugInfo]

def ofName? (s : String) : Option Flag := all.find? (·.name == s)

def languages : List (String × List (String × Flag)) := [
  ("perl", [("m", .multiLineAnchors), ("s", .dotAll), ("i", .caseInsensitive), ("x", .comments),
    ("a", .charsetRestrictedUnicode), ("u", .charsetUnicode), ("l", .charsetLocale),
    ("g", .globalSearch), ("e", .evaluate)]),
  ("python", [("I", .caseInsensitive), ("IGNORECASE", .caseInsensitive), ("DEBUG", .debugInfo),
    ("L", .charsetLocale), ("LOCALE", .charsetLocale), ("M", .multiLineAnchors),
    ("MULTILINE", .multiLineAnchors), ("S", .dotAll), ("DOTALL", .dotAll),
    ("U", .charsetUnicode), ("UNICODE", .charsetUnicode), ("X", .comments),
    ("VERBOSE", .comments), ("A", .asciiBuiltInClasses), ("ASCII", .asciiBuiltInClasses)]),
  ("javascript", [("g", .globalSearch), ("i", .caseInsensitive), ("m", .multiLineAnchors),
    ("u", .charsetUnicode), ("y", .stickySearch)]),
  ("php", [("i", .caseInsensitive), ("m", .multiLineAnchors), ("s", .dotAll), ("x", .comments),
    ("e", .evaluate), ("A", .startingAnchor), ("D", .dollarIsTrueEnd), ("S", .optimize),
    ("U", .ungreedy), ("u", .charsetUtf8)])]

/-- The entry of a table under a key given as data. -/
def lookUp {α : Type} (table : List (String × α)) (key : Value) : Outcome α := do
  let k ← key.toKey
  match table.find? fun e => k.same (.str e.1) with
  | some (_, found) => return found
  | none => .error (.missingKey k)

def ofLanguage (language flag : Value) : Outcome Flag := do
  lookUp (← lookUp languages language) flag

end Flag
end RegexCorpus
