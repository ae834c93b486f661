/-!
# Finding, replacing and cutting

Plain substring operations on lists of characters, each read once from left to right.
-/

namespace RegexCorpus.Text

def hasInfix (needle : List Char) : List Char → Bool
  | [] => needle.isEmpty
  | c :: cs => needle.isPrefixOf (c :: cs) || hasInfix needle cs

/-- Replacement still to do after skipping the rest of a match. -/
def replaceFrom (old new : List Char) : Nat → List Char → List Char
  | _, [] => []
  | n + 1, _ :: cs => replaceFrom old new n cs
  | 0, c :: cs =>
    if old.isPrefixOf (c :: cs) then new ++ replaceFrom old new (old.length - 1) cs
    else c :: replaceFrom old new 0 cs

/-- Every occurrence of a non-empty text replaced, leftmost first and without overlap. -/
def replaceChars (old new cs : List Char) : List Char := replaceFrom old new 0 cs

def replace (old new s : String) : String :=
  String.ofList (replaceChars old.toList new.toList s.toList)

/-- The pieces between separators, `piece` holding the current one backwards. -/
def splitFrom (sep : Char) (piece : List Char) : List Char → List (List Char)
  | [] => [piece.reverse]
  | c :: cs => if c == sep then piece.reverse :: splitFrom sep [] cs else splitFrom sep (c :: piece) cs

/-- The pieces between separators: one more than there are separators. -/
def split (sep : Char) (cs : List Char) : List (List Char) := splitFrom sep [] cs

def splitOn (sep : Char) (s : String) : List String := (split sep s.toList).map String.ofList

def join (sep : String) : List String → String
  | [] => ""
  | [s] => s
  | s :: rest => s ++ sep ++ join sep rest

/-- A text moved to the right end of a field of the given width. -/
def padLeft (width : Nat) (s : String) : String :=
  String.ofList (List.replicate (width - s.length) ' ') ++ s

/-- The lines of a text, without their ends: a line ends at a line feed, at a carriage return, or at
both together, and the last one may lack an end. -/
def linesFrom (line : List Char) : List Char → List (List Char)
  | [] => if line.isEmpty then [] else [line.reverse]
  | '\r' :: '\n' :: cs => line.reverse :: linesFrom [] cs
  | c :: cs =>
    if c == '\n' || c == '\r' then line.reverse :: linesFrom [] cs else linesFrom (c :: line) cs

def lines (s : String) : List String := (linesFrom [] s.toList).map String.ofList

/-- Every line end written as a line feed. -/
def unifyLineEnds : List Char → List Char
  | [] => []
  | '\r' :: '\n' :: cs => '\n' :: unifyLineEnds cs
  | c :: cs => (if c == '\r' then '\n' else c) :: unifyLineEnds cs

/-- Lines with their line feeds, `line` holding the current one backwards. -/
def fullLinesFrom (line : List Char) : List Char → List (List Char)
  | [] => if line.isEmpty then [] else [line.reverse]
  | c :: cs =>
    if c == '\n' then ('\n' :: line).reverse :: fullLinesFrom [] cs else fullLinesFrom (c :: line) cs

/-- The lines of a text with their line feeds; the last one may lack it. -/
def fullLines (cs : List Char) : List (List Char) := fullLinesFrom [] cs

/-- The lines of a text without their line feeds. -/
def lineTexts (s : String) : List String :=
  (fullLines s.toList).map fun l => String.ofList (l.filter (· != '\n'))

def sortedLines (s : String) : List String := (lineTexts s).mergeSort fun a b => decide (a ≤ b)

end RegexCorpus.Text
