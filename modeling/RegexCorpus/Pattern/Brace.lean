import RegexCorpus.Text.Digit

/-!
# Braces that are no quantifiers

Some engines take `{name}` for the characters it shows, others insist on quantifiers such as
`{2,5}`. A brace group with anything but digits and commas inside has its two braces escaped. The
braces of escapes such as `\u{…}` or `\p{…}`, and braces that are escaped already, stay.
-/

namespace RegexCorpus.Pattern

/-- The letters after a backslash that take a brace group of their own. -/
def braceLetters : List Char := ['u', 'x', 'p', 'P', 'g', 'k', 'N']

/-- A brace here opens a group, by the two characters before it, the nearest one second. -/
def opensGroup : Option Char → Option Char → Bool
  | _, some '\\' => false
  | some '\\', some c => !braceLetters.contains c
  | _, _ => true

/-- A group with something other than digits and commas inside ends at the next closing brace, which
is not escaped. -/
def closesGroup (cs : List Char) : Bool :=
  let body := cs.takeWhile (· != '\x7d')
  body.length < cs.length && body.getLast? != some '\\' &&
    body.any (fun c => !Text.isDigit c && c != ',')

/-- The rest of a pattern with the braces of its groups escaped, given the two characters before it;
`inGroup` says that such a group is open. -/
def escapeBracesFrom (before last : Option Char) (inGroup : Bool) : List Char → List Char
  | [] => []
  | c :: cs =>
    if inGroup then
      if c == '\x7d' then '\\' :: c :: escapeBracesFrom last (some c) false cs
      else c :: escapeBracesFrom last (some c) true cs
    else if c == '\x7b' && opensGroup before last && closesGroup cs then
      '\\' :: c :: escapeBracesFrom last (some c) true cs
    else c :: escapeBracesFrom last (some c) false cs

def escapeBraces (p : String) : String := String.ofList (escapeBracesFrom none none false p.toList)

end RegexCorpus.Pattern
