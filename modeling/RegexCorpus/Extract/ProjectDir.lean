import RegexCorpus.Host.Files

/-!
# The project in an archive

An archive may hold a project inside one or more directories that have nothing else in them. The
project is in the first directory that holds more than a directory; hidden entries do not count.
-/

namespace RegexCorpus

/-- A name that listings leave out. -/
def isHidden (name : String) : Bool := name.toList.head? == some '.'

namespace FileTree

def visible (es : List (String × FileTree)) : List (String × FileTree) :=
  es.filter fun e => !isHidden e.1

end FileTree

namespace Extract

/-- The entries of a folder at a path that is not too long. -/
def scan (path : String) : Act (List (String × FileTree)) := do
  if (← get).fits path then Act.listFolder path else throw .pathTooLong

/-- An entry of a folder, at the path, is a folder or a link that leads to one. -/
def isDirectory (path : String) : FileTree → Act Bool
  | .folder _ => return true
  | .file _ => return false
  | .link _ => do
    let h ← get
    if !h.fits path then throw .pathTooLong
    match h.files.resolve h.cwd path with
    | .ok (_, some (.folder _)) => return true
    | .ok _ | .error .noSuchFile => return false
    | .error f => throw f

/-- The directory of the project under a root, with room for so many calls inside one another: one
for each directory, one that lists it, and one more that looks at the names in it. -/
def projectDirWithin : Nat → String → Act String
  | 0, _ | 1, _ => throw .tooDeep
  | room + 2, root => do
    let es ← scan root
    if room == 0 && !es.isEmpty then throw .tooDeep
    match FileTree.visible es with
    | [(name, tree)] =>
      let path := Path.join root name
      if ← isDirectory path tree then projectDirWithin (room + 1) path else return root
    | _ => return root

/-- The directory of the project under a root: the first one that holds more than a directory. -/
def projectDir (root : String) : Act String := do projectDirWithin (← get).room root

end Extract
end RegexCorpus
