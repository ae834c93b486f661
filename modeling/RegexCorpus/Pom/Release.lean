import RegexCorpus.Pom.Element
import RegexCorpus.Record.Edit

/-!
# Java releases in a build description

A build description names the Java release of its sources and classes as `1.n`, among its properties
or in the configuration of the compiler plugin. The releases are raised to a minimum: texts of other
forms stay as they are.
-/

namespace RegexCorpus.Pom

/-- The release `n` that a text starting with `1.n` names. -/
def release? (text : String) : Outcome (Option Int) :=
  match text.toList with
  | '1' :: '.' :: cs =>
    match cs.takeWhile Text.isDigit with
    | [] => .ok none
    | ds => match Text.readNat? ds with
      | some n => .ok (some n)
      | none => .error (.badValue "")
  | _ => .ok none

/-- The text that names a release. A number of too many digits cannot be written. -/
def releaseText (release : Value) : Outcome String := do
  Json.checkLimits Json.nestingLimit release
  return "1." ++ release.display

/-- An element without a text names no release and cannot be read as one. -/
def releaseOf (e : Element) : Outcome (Option Int) :=
  match e.text with
  | some t => release? t
  | none => .error .wrongKind

/-- The release at a place raised to a minimum; the release that it then names. -/
def raiseAt (least : Int) (place : List Nat) : Edit Element (Option Int) := do
  let some e := (← get).at? place | return none
  match ← (releaseOf e : Outcome _) with
  | some n => if n < least then
      let text ← (releaseText (.int least) : Outcome _)
      modify (·.setText text place)
  | none => pure ()
  let some e := (← get).at? place | return none
  (releaseOf e : Outcome _)

def raiseFirst (least : Int) : List (List Nat) → Edit Element (Option Int)
  | [] => pure none
  | place :: _ => raiseAt least place

def releaseProperties : List (List String) := [
  ["properties", "maven.compiler.source"], ["properties", "maven.compiler.target"],
  ["properties", "java.version"]]

/-- The releases named among the properties, raised to a minimum. -/
def raiseProperties (least : Int) : Edit Element (List (Option Int)) := do
  let space := Element.namespaceOf (← get).tag
  releaseProperties.mapM fun way => do raiseFirst least ((← get).places space way)

def pluginSettings : List (List String) := [["configuration", "source"], ["configuration", "target"]]

/-- A plugin is the compiler plugin when one of its children says so. -/
def isCompilerPlugin (space : String) (e : Element) : Bool :=
  e.children.any fun c => c.tag == space ++ "artifactId" && c.text == some "maven-compiler-plugin"

def compilerPlugin? (root : Element) : Option (List Nat) :=
  let space := Element.namespaceOf root.tag
  (root.places space ["build", "plugins", "plugin"]).find? fun place =>
    match root.at? place with
    | some e => isCompilerPlugin space e
    | none => false

/-- The releases named in the configuration of the compiler plugin, raised to a minimum. -/
def raisePlugin (least : Int) : Edit Element (List (Option Int)) := do
  let root ← get
  let space := Element.namespaceOf root.tag
  match compilerPlugin? root with
  | none => return pluginSettings.map fun _ => none
  | some plugin => pluginSettings.mapM fun way => do
    let here := ((← get).at? plugin).getD root
    raiseFirst least ((here.places space way).map (plugin ++ ·))

/-- The default namespace, that of the root, taken off all tags. -/
def dropNamespace : Edit Element Unit := do
  let root ← get
  let (stripped, done) := root.unqualify (Element.namespaceOf root.tag)
  set stripped
  unless done do throw .outOfRange

def instrumentable : Int := 8

/-- Source and target declared among the properties, as far as they are missing. -/
def declareRelease (least : Int) : Edit Element Unit := do
  let root ← get
  let text ← (releaseText (.int least) : Outcome _)
  let space := Element.namespaceOf root.tag
  let declare (name : String) (e : Element) : Element :=
    (e.childOr (space ++ name) (.mk (space ++ name) (some text) none [] [])).2
  let tag := space ++ "properties"
  set (root.withChild tag (.mk tag none none [] []) fun e =>
    declare "maven.compiler.target" (declare "maven.compiler.source" e))
  match ← raiseProperties least with
  | some n :: _ => (require (least ≤ n) : Outcome _)
  | _ => throw .wrongKind

/-- A description brought to the release that instrumented code needs, and freed from its namespace. -/
def requireInstrumentable : Edit Element Unit := do
  let properties ← raiseProperties instrumentable
  let settings ← raisePlugin instrumentable
  if properties == [none, none] && settings == [none, none] then declareRelease instrumentable
  dropNamespace

/-- The description after an attempt to bring it to the release that instrumented code needs, and what
its file then holds; `none` if the attempt failed before the file was opened. -/
def update (room : Nat) (root : Element) : Element × Option (List Piece) :=
  match requireInstrumentable.run root with
  | (.ok _, root) => (root, some (root.written room))
  | (.error _, root) => (root, none)

end RegexCorpus.Pom
