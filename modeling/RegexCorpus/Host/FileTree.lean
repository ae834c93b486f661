import RegexCorpus.Host.Content
import RegexCorpus.Path

/-!
# Trees of files

A tree is a file, a folder of named trees, or a link to another place. Names in a folder are in the
order in which they were put there.
-/

namespace RegexCorpus

/-- A file, a folder with its entries by name, or a link to some path. -/
inductive FileTree where
  | file (content : Content)
  | folder (entries : List (String × FileTree))
  | link (target : String)
  deriving Repr, Inhabited

namespace FileTree

def entries : FileTree → List (String × FileTree)
  | folder es => es
  | _ => []

def entry? (t : FileTree) (name : String) : Option FileTree :=
  (t.entries.find? (·.1 == name)).map (·.2)

/-- The tree at the end of a way from the root. -/
def find? (t : FileTree) : List String → Option FileTree
  | [] => some t
  | name :: rest => do (← t.entry? name).find? rest

def setEntry (name : String) (new : FileTree) : List (String × FileTree) → List (String × FileTree)
  | [] => [(name, new)]
  | e :: es => if e.1 == name then (name, new) :: es else e :: setEntry name new es

/-- A tree put at the end of a way; folders on the way are made when they are missing. -/
def put (t : FileTree) (new : FileTree) : List String → FileTree
  | [] => new
  | name :: rest =>
    folder (setEntry name (((t.entry? name).getD (folder [])).put new rest) t.entries)

/-- The tree without what is at the end of a way. -/
def remove (t : FileTree) : List String → FileTree
  | [] => t
  | [name] => folder (t.entries.filter (·.1 != name))
  | name :: rest => match t.entry? name with
    | some sub => folder (setEntry name (sub.remove rest) t.entries)
    | none => t

mutual

def allFiles : FileTree → List String → List (List String × Content)
  | file c, way => [(way, c)]
  | folder es, way => filesIn es way
  | link _, _ => []

def filesIn : List (String × FileTree) → List String → List (List String × Content)
  | [], _ => []
  | (name, t) :: es, way => allFiles t (way ++ [name]) ++ filesIn es way

end

/-! ### Paths -/

/-- The names on a path; empty ones and `.` lead nowhere. -/
def names (path : String) : List String :=
  (Text.splitOn '/' path).filter fun n => n != "" && n != "."

def endsInFolder (path : String) : Bool :=
  (Text.splitOn '/' path).getLast?.any fun n => n == "" || n == "."

/-- The steps along a path: its names, and a last one that stays in place where only a folder can
be. -/
def steps (path : String) : List String := names path ++ if endsInFolder path then ["."] else []

def isAbsolute (path : String) : Bool := path.toList.head? == some '/'

/-- Where a walk along steps ends: at a place that has a tree or could have one, at a link with steps
left to walk, or in a fault. -/
inductive Arrival where
  | place (way : List String) (tree : Option FileTree)
  | link (way : List String) (target : String) (rest : List String)
  | fault (f : Fault)

/-- A walk from a place (its way backwards) along steps, up to the first link. -/
def advance (root : FileTree) (way : List String) : List String → Arrival
  | [] => .place way.reverse (root.find? way.reverse)
  | "." :: rest => advance root way rest
  | ".." :: rest => advance root way.tail rest
  | name :: rest =>
    match root.find? (name :: way).reverse with
    | some (.link target) => .link way target rest
    | some (.folder _) => advance root (name :: way) rest
    | some (.file c) =>
      if rest.isEmpty then .place (name :: way).reverse (some (.file c)) else .fault .notDirectory
    | none =>
      if rest.isEmpty then .place (name :: way).reverse none else .fault .noSuchFile

/-- A walk from a place along steps through at most `links` links. -/
def follow (root : FileTree) : Nat → List String → List String → Outcome (List String × Option FileTree)
  | 0, _, _ => .error .tooManyLinks
  | links + 1, way, rest =>
    match root.advance way rest with
    | .place way tree => .ok (way, tree)
    | .fault f => .error f
    | .link way target rest =>
      follow root links (if isAbsolute target then [] else way) (steps target ++ rest)

def maxLinks : Nat := 40

/-- The place of a path seen from the working directory, and the tree there if there is one. The empty
path is no place. -/
def resolve (root : FileTree) (cwd : List String) (path : String) :
    Outcome (List String × Option FileTree) :=
  if path == "" then .error .noSuchFile
  else root.follow (maxLinks + 1) (if isAbsolute path then [] else cwd.reverse) (steps path)

def isLink (root : FileTree) (cwd : List String) (path : String) : Bool :=
  match root.resolve cwd (if Path.dirname path == "" then "." else Path.dirname path) with
  | .ok (way, _) => match root.find? (way ++ [Path.basename path]) with
    | some (.link _) => true
    | _ => false
  | .error _ => false

end FileTree
end RegexCorpus
