import RegexCorpus.Text.CodeSet

/-!
# Blanks

The white space of Unicode, the four information separators and the line breaks included; trimming
a text and cutting it into words.
-/

namespace RegexCorpus.Text

def blankChars : CodeSet := ⟨[
  0x9, 0xe, 0x1c, 0x21, 0x85, 0x86, 0xa0, 0xa1, 0x1680, 0x1681, 0x2000, 0x200b, 0x2028, 0x202a,
  0x202f, 0x2030, 0x205f, 0x2060, 0x3000, 0x3001]⟩

/-- White space of any kind. -/
def isBlank (c : Char) : Bool := blankChars.contains c

/-- Characters without the blanks at both ends. -/
def trimChars (cs : List Char) : List Char :=
  ((cs.dropWhile isBlank).reverse.dropWhile isBlank).reverse

/-- A text without the blanks at both ends. -/
def trim (s : String) : String := String.ofList (trimChars s.toList)

/-- The words still to come, `word` holding the current one backwards. -/
def wordsFrom (word : List Char) : List Char → List (List Char)
  | [] => if word.isEmpty then [] else [word.reverse]
  | c :: cs =>
    if isBlank c then
      if word.isEmpty then wordsFrom [] cs else word.reverse :: wordsFrom [] cs
    else wordsFrom (c :: word) cs

/-- The maximal runs of characters that are not blank. -/
def words (cs : List Char) : List (List Char) := wordsFrom [] cs

end RegexCorpus.Text
