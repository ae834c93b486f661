import RegexCorpus.CommandLine.Programs

/-!
# The command line

The first argument names a program and the others are its arguments. The program works on the files of
the current directory, which are read before and written back after its work. Outside programs are
not run: every command ends as if its program were not installed.
-/

namespace RegexCorpus
namespace CommandLine

def contentOf (bytes : List UInt8) : Content :=
  match Text.decode? bytes with
  | some s => .text s
  | none => .raw bytes

partial def readEntry (e : IO.FS.DirEntry) : IO (String × FileTree) := do
  if ← e.path.isDir then
    let inner ← e.path.readDir
    return (e.fileName, .folder (← inner.toList.mapM readEntry))
  else
    return (e.fileName, .file (contentOf (← IO.FS.readBinFile e.path).toList))

def readCurrent : IO FileTree := do
  let entries ← (← IO.currentDir).readDir
  return .folder (← entries.toList.mapM readEntry)

def changed (before after : FileTree) : List (List String × Content) :=
  (after.allFiles []).filter fun (way, c) => match before.find? way with
    | some (.file old) => old != c
    | _ => true

def writeEntry (way : List String) (c : Content) : IO Unit :=
  IO.FS.writeBinFile (Text.join "/" way) ⟨c.bytes.toArray⟩

def exitCode (r : Outcome Unit) : UInt32 :=
  match r with
  | .ok _ => 0
  | .error (.exit (.int n)) => UInt32.ofNat n.toNat
  | .error _ => 1

/-- A program run on the files of the current directory. -/
def runHere (name : String) (args : List String) : IO UInt32 := do
  let files ← readCurrent
  let home := (← IO.getEnv "REGEX_CORPUS_HOME").getD ""
  let (r, h) := (run name args).run { files, home, lastAnswer := .missing, temporary := "temporary" }
  IO.print h.printed
  (changed files h.files).forM fun (way, c) => writeEntry way c
  if let .error f := r then
    if !f.isStop then IO.eprintln (repr f).pretty
  return exitCode r

end CommandLine
end RegexCorpus

def main (args : List String) : IO UInt32 :=
  match args with
  | name :: rest => RegexCorpus.CommandLine.runHere name rest
  | [] => return 2
