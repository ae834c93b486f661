/-!
# Named groups

`(?P<name>` opens a named group and `(?P=name)` refers back to it. The notation of other engines is
`(?<name>` and `\k<name>`. Names are taken as they stand: everything up to the closing mark.
-/

namespace RegexCorpus.Pattern

/-- A name follows: at least one character before the closing mark. -/
def hasName (close : Char) : List Char → Bool
  | [] => false
  | c :: cs => c != close && cs.contains close

/-- Group openers renamed; `inName` says that a name is being copied. -/
def renameOpeners (inName : Bool) : List Char → List Char
  | [] => []
  | '(' :: '?' :: 'P' :: '<' :: cs =>
    if !inName && hasName '>' cs then '(' :: '?' :: '<' :: renameOpeners true cs
    else '(' :: renameOpeners inName ('?' :: 'P' :: '<' :: cs)
  | c :: cs => c :: renameOpeners (inName && c != '>') cs

/-- Back references renamed; `inName` says that a name is being copied. -/
def renameReferences (inName : Bool) : List Char → List Char
  | [] => []
  | '(' :: '?' :: 'P' :: '=' :: cs =>
    if !inName && hasName ')' cs then '\\' :: 'k' :: '<' :: renameReferences true cs
    else '(' :: renameReferences inName ('?' :: 'P' :: '=' :: cs)
  | c :: cs =>
    if inName && c == ')' then '>' :: renameReferences false cs
    else c :: renameReferences inName cs

def renameGroups (p : String) : String :=
  String.ofList (renameReferences false (renameOpeners false p.toList))

end RegexCorpus.Pattern
