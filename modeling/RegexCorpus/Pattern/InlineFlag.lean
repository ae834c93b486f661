import RegexCorpus.Value.Access

/-!
# Inline flags

After `(?` flags may follow: `(?iu)`, `(?u-s:…)`. The flag `u` is unknown to some engines, so it is
replaced by another text, or dropped.
-/

namespace RegexCorpus.Pattern

/-- The characters that may stand in a run of flags, its question mark included. -/
def flagChars : List Char := "?-imsUuxpadln".toList

/-- A run of flags goes on or starts at this character: an unescaped parenthesis with a question
mark after it starts one, and a character that is no flag ends it. -/
def inFlags (escaped flags : Bool) (c : Char) (next : Option Char) : Bool :=
  if !escaped && c == '(' && next == some '?' then true
  else flags && flagChars.contains c

/-- The rest of a pattern with the flag replaced: `escaped` says that a backslash stands before it,
`flags` that it stands in a run of flags. -/
def replaceFlagFrom (alternative : List Char) (escaped flags : Bool) : List Char → List Char
  | [] => []
  | c :: cs =>
    let flags := inFlags escaped flags c cs.head?
    (if flags && c == 'u' then alternative else [c]) ++
      replaceFlagFrom alternative (c == '\\' && !escaped) flags cs

def replaceUnicodeFlag (alternative p : String) : String :=
  String.ofList (replaceFlagFrom alternative.toList false false p.toList)

/-- The pattern with every inline flag `u` replaced by data, which has to be a text as soon as there is
such a flag. -/
def replaceUnicodeFlagBy (alternative : Value) (p : String) : Outcome String :=
  match alternative with
  | .str a => .ok (replaceUnicodeFlag a p)
  | _ => if replaceUnicodeFlag "" p == p then .ok p else .error .wrongKind

/-- The rest of a list with the flag replaced. Its items take the place of characters and have to be
texts; one of several characters goes on with a run of flags when it is a piece of `flagChars`. -/
def replaceFlagInItems (alternative : Value) (escaped flags : Bool) : List Value → Outcome Value
  | [] => .ok (.str "")
  | c :: cs => do
    let starts := !escaped && c.same (.str "(") && cs.head?.any (·.same (.str "?"))
    let goesOn ← if starts then pure false else (Value.str (String.ofList flagChars)).has c
    let flags := starts || flags && goesOn
    let rest ← replaceFlagInItems alternative (c.same (.str "\\") && !escaped) flags cs
    (if flags && c.same (.str "u") then alternative else c).add rest

/-- A pattern given as data with every inline flag `u` replaced. -/
def replaceUnicodeFlagOf (alternative p : Value) : Outcome Value :=
  match p with
  | .str s => (replaceUnicodeFlagBy alternative s).map .str
  | _ => do
    let items ← (List.range (← p.size)).mapM fun (i : Nat) => p.item (.int i)
    replaceFlagInItems alternative false false items

end RegexCorpus.Pattern
