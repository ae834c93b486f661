import RegexCorpus.Host.Basic

/-!
# Files of the host

Reading, writing and looking around. Paths are seen from the working directory.
-/

namespace RegexCorpus
namespace Host

def at? (h : Host) (path : String) : Option FileTree :=
  match h.files.resolve h.cwd path with
  | .ok (_, tree) => tree
  | .error _ => none

def isFile (h : Host) (path : String) : Bool :=
  match h.at? path with
  | some (.file _) => true
  | _ => false

def isFolder (h : Host) (path : String) : Bool :=
  match h.at? path with
  | some (.folder _) => true
  | _ => false

def isLink (h : Host) (path : String) : Bool := h.files.isLink h.cwd path

/-- The path is short enough for the host to list or to follow. -/
def fits (h : Host) (path : String) : Bool := path.utf8ByteSize ≤ h.longestPath

/-- A link at the path is seen to lead to a folder. -/
def leadsToFolder (h : Host) (path : String) : Bool := h.fits path && h.isFolder path

def put (h : Host) (way : List String) (c : Content) : Host :=
  { h with files := h.files.put (.file c) way }

end Host

namespace Act

def lookUp (path : String) : Act (List String × FileTree) := do
  let h ← get
  match ← (h.files.resolve h.cwd path : Outcome _) with
  | (way, some tree) => return (way, tree)
  | (_, none) => throw .noSuchFile

def content (path : String) : Act Content := do
  match ← lookUp path with
  | (_, .file c) => return c
  | (_, .folder _) => throw .isDirectory
  | (_, .link _) => throw .noSuchFile

def readFile (path : String) : Act String := do ((← content path).read : Outcome String)

/-- The lines of a file with their line feeds, all of which have to be readable. -/
def readLines (path : String) : Act (List String) := do
  match (← content path).lines with
  | (lines, none) => return lines
  | (_, some f) => throw f

/-- A file that can be written at a path: its way, and what it holds if it is there. -/
def writable (path : String) : Act (List String × Option Content) := do
  let h ← get
  match ← (h.files.resolve h.cwd path : Outcome _) with
  | (way, some (.file c)) => return (way, some c)
  | (_, some (.folder _)) => throw .isDirectory
  | (way, _) => return (way, none)

def writeFile (path text : String) : Act Unit := do
  let (way, _) ← writable path
  modify (·.put way (.text text))

/-- A file written anew with the contents of another one. -/
def copyFile (source path : String) : Act Unit := do
  let (origin, _) ← lookUp source
  let c ← content source
  let (way, _) ← writable path
  if way == origin then throw (.other "SameFileError")
  modify (·.put way c)

/-- A file written anew with data, which has to be a text that can be stored. -/
def writeData (path : String) (v : Value) : Act Unit := do
  writeFile path ""
  match v with
  | .str s => if Text.isWhole s then writeFile path s else throw .unencodable
  | _ => throw .wrongKind

/-- A text put at the end of a file, which is made when it is missing. -/
def appendFile (path text : String) : Act Unit := do
  let (way, old) ← writable path
  modify (·.put way ((old.getD (.text "")).append text))

/-- The number of lines of a file, as far as it can be read. -/
def countLines (path : String) : Act Nat :=
  tryCatch (do return (← content path).lines.1.length) fun _ => pure 0

def listFolder (path : String) : Act (List (String × FileTree)) := do
  match ← lookUp path with
  | (_, .folder es) => return es
  | _ => throw .notDirectory

def changeFolder (path : String) : Act Unit := do
  match ← lookUp path with
  | (way, .folder _) => modify ({ · with cwd := way })
  | _ => throw .notDirectory

/-- A folder removed with all that is in it. A host on which that fails keeps it, and nobody is told. -/
def removeFolder (path : String) : Act Unit := do
  let h ← get
  match h.files.resolve h.cwd path with
  | .ok (way, some (.folder _)) =>
    if !h.removalFails then set { h with files := h.files.remove way }
  | _ => return ()

def removeFile (path : String) : Act Unit := do
  let (way, _) ← lookUp path
  modify fun h => { h with files := h.files.remove way }

/-- An archive unpacked, and the directory that has its contents. -/
def unpack (path : String) : Act String := do
  let h ← get
  match h.archives.find? (·.1 == path) with
  | some (_, tree) =>
    set { h with files := h.files.put tree (FileTree.names h.unpacked) }
    return h.unpacked
  | none =>
    let _ ← content path
    throw .unreadableArchive

def needFiles (paths : List String) : Act Unit := do
  let h ← get
  (require (paths.all h.isFile) : Outcome Unit)

end Act
end RegexCorpus
