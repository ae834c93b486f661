import RegexCorpus.Extract.Dynamic
import RegexCorpus.Proofs.Host.Files

/-!
# Instrumenting source files

All source files share one file for what their instrumentors print. It is emptied before every run
and read after it, so that a source file can only get the output of its own run.
-/

namespace RegexCorpus
open List FileTree
namespace Host

variable {h : Host} {path : String} {way place p : List String} {c c' : Content}

def fileAt (h : Host) (way : List String) : Option Content :=
  match h.files.find? way with
  | some (.file c) => some c
  | _ => none

def Leads (h : Host) (path : String) (way : List String) : Prop :=
  ∃ c, h.files.resolve h.cwd path = .ok (way, some (.file c))

theorem fileAt_eq_some : h.fileAt way = some c ↔ h.files.find? way = some (.file c) := by
  unfold fileAt
  rcases h.files.find? way with _ | (c | es | target) <;> simp

theorem Leads.fileAt (hpath : h.Leads path way) : ∃ c, h.fileAt way = some c := by
  obtain ⟨c, hc⟩ := hpath
  exact ⟨c, fileAt_eq_some.mpr (find?_of_resolve hc)⟩

theorem fileAt_put (hway : h.fileAt way = some c') (c : Content) (p : List String) :
    (h.put way c).fileAt p = if p = way then some c else h.fileAt p := by
  rw [fileAt_eq_some] at hway
  split_ifs with hp
  · rw [hp, fileAt_eq_some]
    exact find?_put_self _ _ _
  · ext x
    rw [fileAt_eq_some, fileAt_eq_some]
    constructor
    · intro hx
      have hself : (h.put way c).files.find? way = some (.file c) := find?_put_self _ _ _
      have hprefix := not_prefix_of_file hself hx (by simp) hp
      have hfile : ∀ es, (h.put way c).files.find? way ≠ some (.folder es) := by simp [hself]
      have hbelow : ¬way <+: p := fun hw => hp (find?_below hfile hw (by simp [hx]))
      rwa [Host.put, find?_put_elsewhere hprefix hbelow] at hx
    · intro hx
      exact find?_put_aside (by simp [hway])
        (not_prefix_of_file hway hx (by simp) hp) hx

theorem Leads.put (hpath : h.Leads path p) (hway : h.fileAt way = some c') (c : Content) :
    (h.put way c).Leads path p := by
  obtain ⟨x, hx⟩ := hpath
  exact ⟨_, resolve_put_other hx (fileAt_eq_some.mp hway)⟩

end Host

namespace Extract.Dynamic

variable {h h' h'' : Host} {log output : String} {place : List String}

/-- A run of an instrumentor on a source file: where the file is, and how the run ended. -/
structure Trial where
  words : List String
  file : SourceFile
  way : List String
  reply : Reply

def Trial.command (log : String) (t : Trial) : Command := .program (t.words ++ [t.file.name, log])

/-- What a file gets from runs: the output of the last one on it that succeeded. -/
def replacement (trials : List Trial) (way : List String) : Option Content :=
  (trials.filter fun t => t.way = way ∧ t.reply.code = 0).getLast?.map fun t => .text t.reply.output

def tasks (instrumentors : List (String × List String)) (table : SourceTable) :
    List (List String × SourceFile) :=
  table.flatMap fun (language, files) =>
    match instrumentors.find? (·.1 == language) with
    | some (_, words) => files.map (words, ·)
    | none => []

/-- Runs of instrumentors take a host to another one: each is run once, and files change by their
outputs only. One place is left out, that of the file which the outputs go through. -/
structure Rewrites (log : String) (place : List String) (trials : List Trial) (h h' : Host) :
    Prop where
  runs : h'.runs = h.runs ++ trials.map fun t =>
    { command := t.command log, javaHome := h.javaHome, cwd := h.cwd }
  answers : h'.answers = h.answers.drop trials.length
  others : (h'.lastAnswer, h'.javaHome, h'.cwd) = (h.lastAnswer, h.javaHome, h.cwd)
  fileAt : ∀ way, way ≠ place → h'.fileAt way = (replacement trials way).or (h.fileAt way)
  leads : ∀ path way, h.Leads path way → h'.Leads path way

namespace Rewrites

theorem refl (log : String) (place : List String) (h : Host) : Rewrites log place [] h h where
  runs := (append_nil _).symm
  answers := rfl
  others := rfl
  fileAt _ _ := rfl
  leads _ _ := id

theorem trans {ts ts' : List Trial} (hfirst : Rewrites log place ts h h')
    (hrest : Rewrites log place ts' h' h'') : Rewrites log place (ts ++ ts') h h'' where
  runs := by
    obtain ⟨-, hjava, hcwd⟩ := Prod.mk.inj hfirst.others |>.imp_right Prod.mk.inj
    rw [hrest.runs, hfirst.runs, hjava, hcwd, map_append, append_assoc]
  answers := by rw [hrest.answers, hfirst.answers, drop_drop, length_append]
  others := hrest.others.trans hfirst.others
  fileAt way hway := by
    rw [hrest.fileAt way hway, hfirst.fileAt way hway, ← Option.or_assoc, replacement, replacement,
      replacement, filter_append, getLast?_append, Option.map_or]
  leads path way hpath := hrest.leads path way (hfirst.leads path way hpath)

end Rewrites

theorem copyFile_run {source path : String} {way : List String} {c : Content}
    (hsource : h.files.resolve h.cwd source = .ok (place, some (.file c)))
    (hpath : h.Leads path way) (hne : way ≠ place) :
    (Act.copyFile source path).run h = (.ok (), h.put way c) := by
  obtain ⟨old, hway⟩ := hpath
  obtain ⟨old', hwritable, -⟩ := Act.writable_run hway (by simp)
  have hcontent := Host.Holds.content ⟨place, hsource⟩
  rw [Act.copyFile, run_bind_of_ok (Host.lookUp_run hsource), run_bind_of_ok hcontent,
    run_bind_of_ok hwritable]
  dsimp only
  rw [if_neg (by simpa using hne)]
  rfl

theorem replacement_singleton (t : Trial) (way : List String) :
    replacement [t] way =
      if t.way = way ∧ t.reply.code = 0 then some (.text t.reply.output) else none := by
  unfold replacement
  split_ifs with hsame <;> simp [hsame]

theorem instrumentFile_run {t : Trial} (log : String) (hout : h.Leads output place)
    (hfile : h.Leads t.file.name t.way) (hne : t.way ≠ place)
    (hanswer : h.nextAnswer = .done t.reply.code t.reply.output) :
    ∃ h', (instrumentFile t.words log output t.file).run h = (.ok (), h') ∧
      Rewrites log place [t] h h' := by
  obtain ⟨old, hold⟩ := hout.fileAt
  obtain ⟨c, hc⟩ := hout
  -- the output file is emptied, and takes what the program prints
  have hempty : (Act.writeFile output "").run h = _ := Act.writeFile_eq hc (by simp) ""
  have hhold : (h.put place (.text "")).fileAt place = some (.text "") := by
    rw [Host.fileAt_put hold, if_pos rfl]
  set g := (h.put place (.text "")).afterRun (t.command log) with hg
  have hexecute : (Act.execute (.program (t.words ++ [t.file.name, log]))).run
      (h.put place (.text "")) = (.ok t.reply, g) := by
    have hnext : (h.put place (.text "")).nextAnswer = .done t.reply.code t.reply.output := hanswer
    rw [execute_run, hnext]
    rfl
  have hc' : g.files.resolve g.cwd output = .ok (place, some (.file (.text ""))) :=
    resolve_put hc (by simp)
  have hprint : (Act.writeFile output t.reply.output).run g = _ :=
    Act.writeFile_eq hc' (by simp) t.reply.output
  have hfile' : (g.put place (.text t.reply.output)).Leads t.file.name t.way := by
    have hsame : g.Leads t.file.name t.way := hfile.put hold _
    exact Host.Leads.put (h := g) hsame hhold _
  have hprinted : (g.put place (.text t.reply.output)).files.resolve g.cwd output =
      .ok (place, some (.file (.text t.reply.output))) := resolve_put hc' (by simp)
  have hkept (way : List String) (hway : way ≠ place) :
      (g.put place (.text t.reply.output)).fileAt way = h.fileAt way := by
    rw [Host.fileAt_put (h := g) hhold, if_neg hway]
    exact (Host.fileAt_put hold _ way).trans (if_neg hway)
  have hleads (path : String) (way : List String) (hpath : h.Leads path way) :
      (g.put place (.text t.reply.output)).Leads path way :=
    Host.Leads.put (h := g) (hpath.put hold _) hhold _
  by_cases hcode : t.reply.code = 0
  · obtain ⟨own, hown⟩ := hfile'.fileAt
    refine ⟨(g.put place (.text t.reply.output)).put t.way (.text t.reply.output), ?_, rfl,
      drop_one.symm, rfl, fun way hway => ?_, fun path way hpath => (hleads path way hpath).put hown _⟩
    · rw [instrumentFile, run_bind_of_ok hempty, run_bind_of_ok hexecute, run_bind_of_ok hprint,
        if_pos (by simpa using hcode)]
      exact copyFile_run hprinted hfile' hne
    · rw [Host.fileAt_put hown, hkept way hway, replacement_singleton]
      by_cases hsame : t.way = way
      · rw [if_pos hsame.symm, if_pos ⟨hsame, hcode⟩, Option.some_or]
      · rw [if_neg (Ne.symm hsame), if_neg fun h => hsame h.1, Option.none_or]
  · refine ⟨g.put place (.text t.reply.output), ?_, rfl, drop_one.symm, rfl, fun way hway => ?_,
      hleads⟩
    · rw [instrumentFile, run_bind_of_ok hempty, run_bind_of_ok hexecute, run_bind_of_ok hprint,
        if_neg (by simpa using hcode)]
      rfl
    · rw [hkept way hway, replacement_singleton, if_neg fun h => hcode h.2, Option.none_or]

theorem instrumentFiles_eq (instrumentors : List (String × List String)) (log output : String)
    (table : SourceTable) :
    instrumentFiles instrumentors log output table =
      forM (tasks instrumentors table) fun t => instrumentFile t.1 log output t.2 := by
  induction table with
  | nil => rfl
  | cons entry table ih =>
    obtain ⟨language, files⟩ := entry
    simp only [instrumentFiles, tasks, forM_eq_forM, forM_cons, flatMap_cons, forM_append] at ih ⊢
    rw [ih]
    congr 1
    rcases hfind : instrumentors.find? (·.1 == language) with _ | ⟨_, words⟩
    · rw [hfind]
      rfl
    · rw [hfind]
      dsimp only
      rw [forM_map]

theorem forM_instrumentFile_run {trials : List Trial} (log : String) (hout : h.Leads output place)
    (hfiles : ∀ t ∈ trials, h.Leads t.file.name t.way ∧ t.way ≠ place)
    (hanswers : h.answersFor trials.length =
      trials.map fun t => .done t.reply.code t.reply.output) :
    ∃ h', (forM trials fun t => instrumentFile t.words log output t.file).run h =
        (.ok (), h') ∧ Rewrites log place trials h h' := by
  induction trials generalizing h with
  | nil => exact ⟨h, rfl, .refl log place h⟩
  | cons t trials ih =>
    obtain ⟨hfile, hne⟩ := hfiles t mem_cons_self
    have hnext : h.nextAnswer = .done t.reply.code t.reply.output := by
      have hsucc := Host.answersFor_succ (h := h) (show (h.afterRun (t.command log)).answers = _ from rfl) rfl
      rw [length_cons, hsucc] at hanswers
      exact (cons.inj hanswers).1
    obtain ⟨h₁, hrun, hfirst⟩ := instrumentFile_run log hout hfile hne hnext
    have hlast := (Prod.mk.inj hfirst.others).1
    rw [length_cons, Host.answersFor_succ (hfirst.answers.trans drop_one) hlast,
      map_cons] at hanswers
    obtain ⟨h₂, hrun', hrest⟩ := ih (hfirst.leads _ _ hout)
      (fun t' ht' => (hfiles t' (mem_cons_of_mem _ ht')).imp_left (hfirst.leads _ _))
      (cons.inj hanswers).2
    refine ⟨h₂, ?_, hfirst.trans hrest⟩
    rw [forM_cons, run_bind_of_ok hrun, hrun']

/-- Every source file with an instrumentor is instrumented once. It then holds what its run printed if
the run succeeded, the last such run where the file was chosen more than once; all other files hold
what they held. -/
theorem instrumentFiles_run {instrumentors : List (String × List String)} {table : SourceTable}
    {trials : List Trial} (htasks : tasks instrumentors table = trials.map fun t => (t.words, t.file))
    (log : String) (hout : h.Leads output place)
    (hfiles : ∀ t ∈ trials, h.Leads t.file.name t.way ∧ t.way ≠ place)
    (hanswers : h.answersFor trials.length =
      trials.map fun t => .done t.reply.code t.reply.output) :
    ∃ h', (instrumentFiles instrumentors log output table).run h = (Except.ok (), h') ∧
      (h'.runs = h.runs ++ trials.map fun t =>
        { command := .program (t.words ++ [t.file.name, log]), javaHome := h.javaHome, cwd := h.cwd }) ∧
      ∀ way, way ≠ place → h'.fileAt way = (replacement trials way).or (h.fileAt way) := by
  obtain ⟨h', hrun, hrewrites⟩ := forM_instrumentFile_run log hout hfiles hanswers
  refine ⟨h', ?_, hrewrites.runs, hrewrites.fileAt⟩
  rw [instrumentFiles_eq, htasks, forM_map]
  exact hrun

/-- A folder with two scripts and a note, and a file for outputs with an old one in it. The first
run will print something and fail, and the second one will succeed. -/
def scripts : Host where
  files := .folder [("a.js", .file (.text "a")), ("b.js", .file (.text "b")),
    ("c.md", .file (.text "c")), ("output", .file (.text "long old output"))]
  answers := [.done 1 "half", .done 0 "b!"]

theorem leads_scripts {name : String} (hname : name ∈ ["a.js", "b.js", "output"]) :
    scripts.Leads name [name] := by
  simp only [mem_cons, not_mem_nil, or_false] at hname
  rcases hname with rfl | rfl | rfl <;> exact ⟨_, rfl⟩

/-- The files chosen, the note among them. -/
def chosen : SourceTable :=
  [("javascript", [⟨"a.js", .null⟩, ⟨"b.js", .null⟩]), ("markdown", [⟨"c.md", .null⟩])]

def scriptTrials : List Trial := [⟨["node"], ⟨"a.js", .null⟩, ["a.js"], ⟨1, "half"⟩⟩,
  ⟨["node"], ⟨"b.js", .null⟩, ["b.js"], ⟨0, "b!"⟩⟩]

theorem instrumentFiles_run_scripts :
    ∃ h', (instrumentFiles [("javascript", ["node"])] "log" "output" chosen).run scripts =
        (Except.ok (), h') ∧ h'.fileAt ["a.js"] = some (.text "a") ∧
      h'.fileAt ["b.js"] = some (.text "b!") ∧ h'.fileAt ["c.md"] = some (.text "c") := by
  have htasks : tasks [("javascript", ["node"])] chosen =
    scriptTrials.map fun t => (t.words, t.file) := rfl
  have hfiles : ∀ t ∈ scriptTrials, scripts.Leads t.file.name t.way ∧ t.way ≠ ["output"] := by
    simp [scriptTrials, leads_scripts]
  obtain ⟨h', hrun, -, hfiles⟩ :=
    instrumentFiles_run htasks "log" (leads_scripts (by decide)) hfiles rfl
  exact ⟨h', hrun, hfiles _ (by decide), hfiles _ (by decide), hfiles _ (by decide)⟩

end Extract.Dynamic
end RegexCorpus
