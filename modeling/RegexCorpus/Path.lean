import RegexCorpus.Text.Search

/-!
# Paths

Paths with `/` as separator. `Path.split` parts a path into its head and its last component;
`Path.components?` repeats this down to the root. A path of two slashes or more and nothing else is
its own head, so the walk does not end there and has no result.
-/

namespace RegexCorpus.Path

/-- What stands up to and including the last slash, and what follows it. -/
def cut (cs : List Char) : List Char × List Char :=
  let tail := (cs.reverse.takeWhile (· != '/')).reverse
  (cs.take (cs.length - tail.length), tail)

/-- A head without the slashes at its end, unless it is all slashes. -/
def trimHead (head : List Char) : List Char :=
  if head.all (· == '/') then head else (head.reverse.dropWhile (· == '/')).reverse

/-- Head and last component. -/
def split (path : String) : String × String :=
  let (head, tail) := cut path.toList
  (String.ofList (trimHead head), String.ofList tail)

def basename (path : String) : String := (split path).2

/-- All but the last component. -/
def dirname (path : String) : String := (split path).1

/-- Two paths joined; an absolute second path stands alone. -/
def join (path next : String) : String :=
  if next.toList.head? == some '/' then next
  else if path.isEmpty || path.toList.getLast? == some '/' then path ++ next
  else path ++ "/" ++ next

def joinAll (path : String) (rest : List String) : String := rest.foldl join path

/-- The components met so far, last first, with at most `fuel` more steps. -/
def componentsFrom : Nat → String → List String → Option (List String)
  | 0, _, _ => none
  | fuel + 1, path, found =>
    if path.isEmpty then some found
    else if path == "/" then some (path :: found)
    else
      let (head, tail) := split path
      componentsFrom fuel head (tail :: found)

/-- The components of a path, the root being one of them; `none` when the walk to the root does not
end. Every step but the last shortens the path. -/
def components? (path : String) : Option (List String) := componentsFrom (path.length + 2) path []

/-- A path without its extension: the part of the last component from its last dot on, if something
other than dots stands before it. -/
def stem (path : String) : String :=
  let (_, tail) := cut path.toList
  let extension := (tail.reverse.takeWhile (· != '.')).reverse
  let before := tail.take (tail.length - extension.length - 1)
  if extension.length < tail.length && before.any (· != '.') then
    String.ofList (path.toList.take (path.length - extension.length - 1))
  else path

end RegexCorpus.Path
