import RegexCorpus.Host.Files

/-!
# Build systems

A project is built and tested in a directory that a build system recognises, as a rule by a file
there. Of several such directories the shallowest one counts, and of these the first one that a walk
down the tree meets.
-/

namespace RegexCorpus

mutual

/-- The directories of a tree at a path, each before those in it, with the names of their files. A
link counts as a file unless it leads to a directory, and is not followed. A directory whose path is
too long is passed over with all that is in it. -/
def FileTree.walk (fits leadsToFolder : String → Bool) (path : String) :
    FileTree → List (String × List String)
  | .folder es =>
    let isFile (e : String × FileTree) : Bool :=
      match e.2 with
      | .file _ => true
      | .folder _ => false
      | .link _ => !leadsToFolder (Path.join path e.1)
    if fits path then (path, (es.filter isFile).map (·.1)) :: walkEntries fits leadsToFolder path es
    else []
  | _ => []

def FileTree.walkEntries (fits leadsToFolder : String → Bool) (path : String) :
    List (String × FileTree) → List (String × List String)
  | [] => []
  | (name, tree) :: rest =>
    tree.walk fits leadsToFolder (Path.join path name) ++ walkEntries fits leadsToFolder path rest

end

mutual

/-- The calls that the walk opens inside one another: one for each directory on a way, one below it
that lists the directory, and one more where a link has to be told from a directory. -/
def FileTree.walkCalls (fits leadsToFolder : String → Bool) (path : String) : FileTree → Nat
  | .folder es => 1 + if fits path then entriesCalls fits leadsToFolder path es else 1
  | .link _ => if leadsToFolder path then 2 else 0
  | .file _ => 0

def FileTree.entriesCalls (fits leadsToFolder : String → Bool) (path : String) :
    List (String × FileTree) → Nat
  | [] => 1
  | (name, tree) :: rest => max (tree.walkCalls fits leadsToFolder (Path.join path name))
      (entriesCalls fits leadsToFolder path rest)

end

namespace Host

/-- The calls that a walk under a root opens inside one another. -/
def walkCalls (h : Host) (root : String) : Nat :=
  (h.at? root).elim 0 (·.walkCalls h.fits h.leadsToFolder root)

/-- The directories under a root, each before those in it, with the names of their files. The walk
fails if they nest too deep for it. -/
def walk (h : Host) (root : String) : Outcome (List (String × List String)) :=
  if h.walkCalls root ≤ h.room then
    .ok ((h.at? root).elim [] (·.walk h.fits h.leadsToFolder root))
  else .error .tooDeep

/-- The depth of a path: the number of its parts, empty ones included. -/
def depth (path : String) : Nat := (Text.splitOn '/' path).length

/-- The first path of least depth. -/
def leastDeep? : List String → Option String
  | [] => none
  | path :: rest =>
    match leastDeep? rest with
    | some other => if depth other < depth path then some other else some path
    | none => some path

/-- The shallowest directory under a root that has a file of the name. -/
def shallowest? (h : Host) (root name : String) : Outcome (Option String) := do
  let holders := (← h.walk root).filter fun d => d.2.contains name
  return (leastDeep? (holders.map (·.1))).map fun dir => Path.dirname (Path.join dir name)

end Host

namespace Build

/-- A build system: where it builds a project, and an attempt to build and test it with a choice of
tool, which says whether the tests passed. -/
structure System where
  name : String := ""
  findDir : String → Act (Option String)
  /-- No way to build is known unless one is given. -/
  tryBuild : String → String → Act Bool := fun _ _ => throw .requirement

def dirOf (file root : String) : Act (Option String) := do ((← get).shallowest? root file : Outcome _)

/-- A project can be built with a system. -/
def System.supports (s : System) (root : String) : Act Bool := do return (← s.findDir root).isSome

/-- The systems with which a project can be built; the program ends when there are none. -/
def supporting (root : String) (systems : List System) : Act (List System) := do
  match ← systems.filterM (·.supports root) with
  | [] => throw (.exit (.int 1))
  | available => return available

/-- The working directory changed to a directory that should have been found. -/
def enter : Option String → Act Unit
  | some dir => Act.changeFolder dir
  | none => throw .wrongKind

/-- The commands of stages run in order, and the code of the last one. -/
def runStages (stages : List (List String)) : Act Int :=
  stages.foldlM (fun _ words => do return (← Act.execute (.program words)).code) 0

/-- A command line cut at its blanks and run. -/
def runWords (line : String) : Act Int := do
  return (← Act.execute (.program (Text.splitOn ' ' line))).code

end Build
end RegexCorpus
