/-!
# Quoted stretches of a pattern

Between `\Q` and `\E`, or the end of the pattern, characters stand for themselves. Patterns for
engines without these marks have the quoted characters escaped instead. Closed quotes are
expanded first; a quote is closed when `\E` follows on the same line. What is then still open runs
to the end of the pattern, provided that no line ends in between.
-/

namespace RegexCorpus.Pattern

/-- The characters with a meaning in patterns, blanks included. -/
def specials : List Char :=
  "()[]\x7b\x7d?*+-|^$\\.&~# \t\n\r".toList ++ [Char.ofNat 0xb, Char.ofNat 0xc]

/-- A character that stands for itself. -/
def escapeChar (c : Char) : List Char := if specials.contains c then ['\\', c] else [c]

def escapeText (cs : List Char) : List Char := cs.flatMap escapeChar

/-- `\E` follows on the same line. -/
def closes : List Char → Bool
  | [] => false
  | '\\' :: 'E' :: _ => true
  | c :: cs => c != '\n' && closes cs

/-- Expansion of the closed quotes; `inQuote` says that a quote is open here. -/
def expandClosed (inQuote : Bool) : List Char → List Char
  | [] => []
  | '\\' :: 'Q' :: cs =>
    if inQuote then '\\' :: '\\' :: 'Q' :: expandClosed true cs
    else if closes cs then expandClosed true cs
    else '\\' :: 'Q' :: expandClosed false cs
  | '\\' :: 'E' :: cs =>
    if inQuote then expandClosed false cs else '\\' :: 'E' :: expandClosed false cs
  | c :: cs => (if inQuote then escapeChar c else [c]) ++ expandClosed inQuote cs

/-- No line ends here, but for a last line feed. -/
def oneLine : List Char → Bool
  | [] => true
  | [_] => true
  | c :: cs => c != '\n' && oneLine cs

/-- The quoted rest of a pattern; a line feed at its very end is not quoted. -/
def escapeRest : List Char → List Char
  | [] => []
  | ['\n'] => ['\n']
  | c :: cs => escapeChar c ++ escapeRest cs

def expandOpen : List Char → List Char
  | [] => []
  | '\\' :: 'Q' :: cs => if oneLine cs then escapeRest cs else '\\' :: 'Q' :: expandOpen cs
  | c :: cs => c :: expandOpen cs

def expandQuotes (p : String) : String :=
  String.ofList (expandOpen (expandClosed false p.toList))

end RegexCorpus.Pattern
