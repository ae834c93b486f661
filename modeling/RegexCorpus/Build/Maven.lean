import RegexCorpus.Build.System

/-!
# Building Java projects

A project is built by Maven or by its Gradle wrapper, with one Java installation after the other,
until its tests pass. Both are instances of a `Tool`: a build file, what has to be there beside it,
and the stages that are run in its directory. Every attempt looks for that directory again, from the
place where the one before it left the program (`buildProject`).
-/

namespace RegexCorpus.Build.Maven

/-- The Java installations that a listing names: the third word of each line that has one. -/
def homesOf (listing : String) : List String :=
  (Text.split '\n' (Text.unifyLineEnds listing.toList)).filterMap fun line =>
    ((Text.words line)[2]?).map String.ofList

def javaHomes : Act (List String) := do
  return homesOf (← Act.execute (.program ["update-java-alternatives", "--list"])).output

/-- A Java installation chosen for the commands to come. -/
def chooseJava (home : String) : Act Unit := modify ({ · with javaHome := some home })

/-- Checks that have nothing to do with the tests are left out. -/
def mavenOptions : List String := ["-Drat.skip=true", "-Dpmd.skip=true"]

def plain (buildFile : Option String) : System :=
  { findDir := match buildFile with
      | some file => dirOf file
      | none => fun _ => pure none }

/-- A tool that builds where its build file is, stage by stage; the last stage runs the tests. -/
structure Tool where
  name : String
  buildFile : String
  needs : List String := []
  stages : List (List String)
  deriving DecidableEq, Repr

def Tool.system (t : Tool) : System :=
  { name := t.name
    findDir := dirOf t.buildFile
    tryBuild := fun root java => do
      enter (← dirOf t.buildFile root)
      chooseJava java
      t.needs.forM fun path => do let _ ← Act.lookUp path
      return (← runStages t.stages) == 0 }

/-- Maven, up to the stage of tests. -/
def maven : Tool :=
  { name := "maven"
    buildFile := "pom.xml"
    stages := ["clean", "validate", "compile", "test"].map fun stage =>
      "mvn" :: stage :: mavenOptions }

/-- Where the Gradle wrapper of a project is, seen from its directory. -/
def wrapper : String := Path.join "." "./gradlew"

/-- The Gradle wrapper of the project, which builds and tests at once. -/
def gradle : Tool :=
  { name := "gradle"
    buildFile := "gradlew"
    needs := [wrapper]
    stages := ["clean", "build"].map fun stage => [wrapper, stage, "--continue"] }

def tools : List Tool := [maven, gradle]

def systems : List System := tools.map Tool.system

/-- A project built with a system and one Java installation after the other; the program ends as
soon as the tests pass. -/
def tryHomes (root : String) (s : System) (homes : List String) : Act Unit :=
  homes.forM fun java => do if ← s.tryBuild root java then throw (.exit (.int 0))

/-- A project built and tested; the program ends with 0 if its tests passed once, and with 1
otherwise. -/
def buildProject (root : String) : Act Unit := do
  let homes ← javaHomes
  let available ← supporting root systems
  available.forM fun s => tryHomes root s homes
  throw (.exit (.int 1))

end RegexCorpus.Build.Maven
