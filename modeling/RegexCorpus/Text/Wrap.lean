import RegexCorpus.Text.Digit
import RegexCorpus.Text.Word

/-!
# Breaking a text into lines

A text is broken between its words, and inside a word after a hyphen that stands between letters. Each
line takes as many pieces as fit; the blank at which a line is broken is dropped. A piece that is
wider than a line stands on a line of its own.
-/

namespace RegexCorpus.Text

/-- A letter, for the sake of hyphens. -/
def isJoint (c : Char) : Bool := isWord c && !isDigit c

/-- The text before it allows a break after a hyphen: two letters, or a letter, a hyphen and a letter.
The text is given backwards. -/
def opensBreak : List Char → Bool
  | a :: b :: c :: _ => isJoint a && (isJoint b || b == '-' && isJoint c)
  | [a, b] => isJoint a && isJoint b
  | _ => false

/-- The text after it allows a break after a hyphen: two letters, perhaps with a hyphen between. -/
def closesBreak : List Char → Bool
  | a :: '-' :: b :: _ => isJoint a && isJoint b
  | a :: b :: _ => isJoint a && isJoint b
  | _ => false

/-- The pieces of a text whose words stand one blank apart. The text before is given backwards, and so
is the current piece. -/
def piecesFrom (before piece : List Char) : List Char → List String
  | [] => if piece.isEmpty then [] else [String.ofList piece.reverse]
  | c :: cs =>
    if c == ' ' then
      (if piece.isEmpty then [] else [String.ofList piece.reverse]) ++
        " " :: piecesFrom (c :: before) [] cs
    else if c == '-' && !piece.isEmpty && opensBreak before && closesBreak cs then
      String.ofList (c :: piece).reverse :: piecesFrom (c :: before) [] cs
    else piecesFrom (c :: before) (c :: piece) cs

def pieces (s : String) : List String := piecesFrom [] [] s.toList

def withoutLastBlank (line : String) : String :=
  if line.toList.getLast? == some ' ' then String.ofList line.toList.dropLast else line

/-- The lines of pieces, the first of which goes on from `line`. -/
def fillFrom (width : Nat) (line : String) : List String → List String
  | [] => if line.isEmpty then [] else [withoutLastBlank line]
  | p :: ps =>
    if line.isEmpty then fillFrom width (if p == " " then "" else p) ps
    else if line.length + p.length ≤ width then fillFrom width (line ++ p) ps
    else withoutLastBlank line :: fillFrom width (if p == " " then "" else p) ps

/-- The lines of a text, of a given width at most. -/
def wrap (width : Nat) (s : String) : List String := fillFrom width "" (pieces s)

end RegexCorpus.Text
