import RegexCorpus.Build.Maven
import RegexCorpus.Proofs.Host.Frame
import RegexCorpus.Proofs.Host.Walk

/-!
# Attempts to build a Java project

Each tool is tried with each Java installation, where its build file is. An attempt leaves the
program in that place, from where the next one looks for its own: it finds it if the path of the
project begins at the root, and may find nothing otherwise. A project that nests too deep is not
searched at all.
-/

namespace RegexCorpus
open List

/-- The command ended with a code. -/
def Answer.IsDone : Answer → Prop
  | done _ _ => True
  | _ => False

namespace Host

variable {h h' : Host}

/-- The code with which a command to come ends, the next one first. -/
def code (h : Host) (k : ℕ) : Int :=
  match h.answers[k]?.getD h.lastAnswer with
  | .done c _ => c
  | _ => 0

theorem code_of_drop {n : ℕ} (hanswers : h'.answers = h.answers.drop n)
    (hlast : h'.lastAnswer = h.lastAnswer) : h'.code = fun k => h.code (n + k) := by
  funext k
  rw [code, code, hanswers, hlast, getElem?_drop]

theorem Expects.drop {P : Answer → Prop} {n : ℕ} (hP : h.Expects P)
    (hanswers : h'.answers = h.answers.drop n) (hlast : h'.lastAnswer = h.lastAnswer) :
    h'.Expects P := by
  refine ⟨hlast ▸ hP.1, fun a ha => hP.2 a ?_⟩
  rw [hanswers] at ha
  exact mem_of_mem_drop ha

theorem execute_code (hdone : h.Expects Answer.IsDone) (command : Command) :
    ∃ output, (Act.execute command).run h = (.ok ⟨h.code 0, output⟩, h.afterRun command) := by
  have hnext := hdone.nextAnswer
  have hcode : h.code 0 = match h.nextAnswer with
      | .done c _ => c
      | _ => 0 := by
    rw [code, nextAnswer, head?_eq_getElem?]
  rw [execute_run, hcode]
  cases hanswer : h.nextAnswer with
  | done c output => exact ⟨output, rfl⟩
  | timeout | interrupted | missing => exact absurd hnext (by simp [hanswer, Answer.IsDone])

end Host

namespace Build

variable {h h' : Host}

/-- What commands leave: they have been run, in this order, and their answers are used up. -/
def ranStages (h : Host) (stages : List (List String)) : Host :=
  { h with
    runs := h.runs ++ stages.map fun words =>
      { command := .program words, javaHome := h.javaHome, cwd := h.cwd }
    answers := h.answers.drop stages.length }

/-- The code of the last stage is the code of the stages. -/
theorem runStages_run (hdone : h.Expects Answer.IsDone) (words : List String)
    (stages : List (List String)) :
    (runStages (words :: stages)).run h =
      (.ok (h.code stages.length), ranStages h (words :: stages)) := by
  unfold runStages
  generalize (0 : Int) = first
  induction stages generalizing h words first with
  | nil =>
    obtain ⟨output, hrun⟩ := Host.execute_code hdone (.program words)
    rw [foldlM_cons, bind_assoc, run_bind_of_ok hrun]
    simp [ranStages, Host.afterRun]
    rfl
  | cons next stages ih =>
    obtain ⟨output, hrun⟩ := Host.execute_code hdone (.program words)
    have hdrop : (h.afterRun (.program words)).answers = h.answers.drop 1 := drop_one.symm
    rw [foldlM_cons, bind_assoc, run_bind_of_ok hrun, pure_bind, ih (hdone.drop hdrop rfl),
      Host.code_of_drop hdrop rfl]
    simp [ranStages, Host.afterRun, Nat.add_comm]

namespace Maven
open RegexCorpus.Path (IsEntryName)

variable {root : String} {ds : List (String × List String)}
variable {t : Tool} {output : String}

/-- A project built by a tool in some place with a Java installation. -/
structure Attempt where
  tool : Tool
  home : String
  place : List String
  deriving DecidableEq

def Attempt.runs (a : Attempt) : List Run :=
  a.tool.stages.map fun words =>
    { command := .program words, javaHome := some a.home, cwd := a.place }

/-- Where a tool builds a project, if it is searched and the build file is found. -/
def Tool.place? (t : Tool) (h : Host) (root : String) : Option (List String) :=
  match h.shallowest? root t.buildFile with
  | .ok (some dir) =>
    match h.files.resolve h.cwd dir with
    | .ok (place, _) => some place
    | .error _ => none
  | _ => none

/-- The attempts at a project: one tool after the other, and each with one Java installation after
the other. -/
def attempts (h : Host) (root : String) (homes : List String) : List Attempt :=
  tools.flatMap fun t => (t.place? h root).toList.flatMap fun place =>
    homes.map fun home => { tool := t, home, place }

/-- The attempts that are made, up to the first one whose last command ends with 0, and the code
with which the program ends. -/
def trial (code : ℕ → Int) : List Attempt → List Attempt × Int
  | [] => ([], 1)
  | a :: rest =>
    if code (a.runs.length - 1) = 0 then ([a], 0)
    else
      let others := trial (fun k => code (a.runs.length + k)) rest
      (a :: others.1, others.2)

/-- All that the tool needs is found in the place. -/
def Attempt.Ready (a : Attempt) (h : Host) : Prop :=
  ∀ path ∈ a.tool.needs, ∃ way tree, h.files.resolve a.place path = .ok (way, some tree)

theorem isEntryName_buildFile (ht : t ∈ tools) : IsEntryName t.buildFile :=
  (by decide : ∀ t ∈ tools, IsEntryName t.buildFile) t ht

theorem exists_stages (ht : t ∈ tools) : ∃ words stages, t.stages = words :: stages := by
  simp only [tools, mem_cons, not_mem_nil, or_false] at ht
  rcases ht with rfl | rfl <;> exact ⟨_, _, rfl⟩

theorem place?_of_shallowest? (ht : t ∈ tools) (hfiles : h.files.WellNamed)
    (hwalk : h.walk root = .ok ds) {dir : String}
    (hdir : h.shallowest? root t.buildFile = .ok (some dir)) :
    ∃ place es, h.files.resolve h.cwd dir = .ok (place, some (.folder es)) ∧
      t.place? h root = some place ∧ h.IsShallowest ds t.buildFile place := by
  obtain ⟨place, es, hplace, hshallow⟩ :=
    Host.resolve_shallowest? hfiles (isEntryName_buildFile ht) hwalk hdir
  refine ⟨place, es, hplace, ?_, hshallow⟩
  rw [Tool.place?, hdir]
  dsimp only
  rw [hplace]

theorem place?_eq_none_iff (ht : t ∈ tools) (hfiles : h.files.WellNamed)
    (hwalk : h.walk root = .ok ds) :
    t.place? h root = none ↔ h.shallowest? root t.buildFile = .ok none := by
  rcases hdir : h.shallowest? root t.buildFile with f | _ | dir
  · rw [Host.shallowest?_of_walk hwalk] at hdir
    cases hdir
  · simp [Tool.place?, hdir]
  · obtain ⟨place, -, -, hplace, -⟩ := place?_of_shallowest? ht hfiles hwalk hdir
    simp [hplace]

theorem exists_shallowest?_of_place? {place : List String} (hplace : t.place? h root = some place) :
    ∃ ds dir, h.walk root = .ok ds ∧ h.shallowest? root t.buildFile = .ok (some dir) := by
  unfold Tool.place? at hplace
  split at hplace
  · rename_i dir hdir
    obtain ⟨ds, hwalk⟩ := Host.exists_walk hdir
    exact ⟨ds, dir, hwalk, hdir⟩
  · cases hplace

theorem dirOf_run {file : String} {found : Option String} (hfound : h.shallowest? root file = .ok found) :
    (dirOf file root).run h = (.ok found, h) := by
  rw [dirOf, run_get_state_bind, hfound]
  rfl

/-- An attempt leaves its commands, and the program where it was made. -/
def ran (h : Host) (a : Attempt) : Host :=
  { h with
    cwd := a.place
    javaHome := some a.home
    runs := h.runs ++ a.runs
    answers := h.answers.drop a.runs.length }

theorem lookUps_run {paths : List String}
    (hpaths : ∀ path ∈ paths, ∃ way tree, h.files.resolve h.cwd path = .ok (way, some tree)) :
    (paths.forM fun path => do let _ ← Act.lookUp path).run h = (.ok (), h) := by
  induction paths with
  | nil => rfl
  | cons path paths ih =>
    obtain ⟨⟨way, tree, hway⟩, hrest⟩ := forall_mem_cons.mp hpaths
    rw [forM_eq_forM, forM_cons, bind_assoc, run_bind_of_ok (Host.lookUp_run hway)]
    exact ih hrest

theorem tryBuild_run {a : Attempt} (ht : a.tool ∈ tools) (hfiles : h.files.WellNamed)
    (hdone : h.Expects Answer.IsDone) (hplace : a.tool.place? h root = some a.place)
    (hready : a.Ready h) :
    (a.tool.system.tryBuild root a.home).run h =
      (.ok (h.code (a.runs.length - 1) == 0), ran h a) := by
  obtain ⟨ds, dir, hwalk, hdir⟩ := exists_shallowest?_of_place? hplace
  obtain ⟨place, es, hway, hplace', -⟩ := place?_of_shallowest? ht hfiles hwalk hdir
  obtain rfl : place = a.place := Option.some.inj (hplace'.symm.trans hplace)
  have henter : (enter (some dir)).run h = (.ok (), { h with cwd := a.place }) := by
    rw [enter, Act.changeFolder, run_bind_of_ok (Host.lookUp_run hway)]
    rfl
  have hneeds : (a.tool.needs.forM fun path => do let _ ← Act.lookUp path).run
      { h with cwd := a.place, javaHome := some a.home } =
        (.ok (), { h with cwd := a.place, javaHome := some a.home }) := lookUps_run hready
  obtain ⟨words, stages, hstages⟩ := exists_stages ht
  have hrun := runStages_run (h := { h with cwd := a.place, javaHome := some a.home }) hdone words stages
  have hlength : a.runs.length - 1 = stages.length := by simp [Attempt.runs, hstages]
  rw [← hstages] at hrun
  change (dirOf a.tool.buildFile root >>= fun d => enter d >>= fun _ => chooseJava a.home >>= fun _ =>
    (a.tool.needs.forM fun path => do let _ ← Act.lookUp path) >>= fun _ =>
      runStages a.tool.stages >>= fun c => pure (c == 0)).run h = _
  rw [run_bind_of_ok (dirOf_run hdir), run_bind_of_ok henter, chooseJava, run_modify_bind,
    run_bind_of_ok hneeds, run_bind_of_ok hrun, hlength]
  simp [ran, ranStages, Attempt.runs]
  rfl

/-- An attempt that ends the program when its tests pass. -/
def attempt (root : String) (a : Attempt) : Act Unit := do
  if ← a.tool.system.tryBuild root a.home then throw (.exit (.int 0))

theorem attempt_run {a : Attempt} (ht : a.tool ∈ tools) (hfiles : h.files.WellNamed)
    (hdone : h.Expects Answer.IsDone) (hplace : a.tool.place? h root = some a.place)
    (hready : a.Ready h) :
    (attempt root a).run h =
      if h.code (a.runs.length - 1) = 0 then (.error (.exit (.int 0)), ran h a)
      else (.ok (), ran h a) := by
  rw [attempt, run_bind_of_ok (tryBuild_run ht hfiles hdone hplace hready)]
  simp only [beq_iff_eq]
  split_ifs <;> rfl

/-- Each attempt finds its place also from where those before it were made. -/
def Stable (h : Host) (root : String) (as : List Attempt) : Prop :=
  as.Pairwise fun a b => b.tool.place? { h with cwd := a.place } root = some b.place

/-- Attempts are made until one passes, if each finds its place from where those before it were
made. -/
theorem forM_attempt_run {as : List Attempt} (ht : ∀ a ∈ as, a.tool ∈ tools)
    (hfiles : h.files.WellNamed) (hdone : h.Expects Answer.IsDone)
    (hplace : ∀ a ∈ as, a.tool.place? h root = some a.place) (hstable : Stable h root as)
    (hready : ∀ a ∈ as, a.Ready h) :
    ∃ h', (forM as (attempt root) >>= fun _ => throw (.exit (.int 1)) : Act Unit).run h =
        (.error (.exit (.int (trial h.code as).2)), h') ∧
      h'.runs = h.runs ++ (trial h.code as).1.flatMap Attempt.runs := by
  induction as generalizing h with
  | nil => exact ⟨h, rfl, by simp [trial]⟩
  | cons a as ih =>
    rw [forall_mem_cons] at ht hplace hready
    rw [Stable, pairwise_cons] at hstable
    have hrun := attempt_run ht.1 hfiles hdone hplace.1 hready.1
    rw [forM_cons, bind_assoc, trial]
    split_ifs at hrun ⊢ with hcode
    · exact ⟨ran h a, by rw [run_bind, hrun], by simp [ran]⟩
    · obtain ⟨h', hrest, hruns⟩ := ih (h := ran h a) ht.2 hfiles (hdone.drop rfl rfl) hstable.1
        hstable.2 hready.2
      have hcodes : (ran h a).code = fun k => h.code (a.runs.length + k) :=
        Host.code_of_drop rfl rfl
      rw [hcodes] at hrest hruns
      refine ⟨h', (run_bind_of_ok hrun _).trans hrest, ?_⟩
      rw [hruns, flatMap_cons, ← append_assoc]
      rfl

theorem filterM_supports_run (hfiles : h.files.WellNamed) (hwalk : h.walk root = .ok ds)
    {ts : List Tool} (hts : ∀ t ∈ ts, t ∈ tools) (kept : List System) :
    (filterAuxM (fun s => System.supports s root) (ts.map Tool.system) kept).run h =
      (.ok (((ts.filter fun t => (t.place? h root).isSome).map Tool.system).reverse ++ kept),
        h) := by
  induction ts generalizing kept with
  | nil => rfl
  | cons t ts ih =>
    rw [forall_mem_cons] at hts
    have hsupports : (t.system.supports root).run h = (.ok (t.place? h root).isSome, h) := by
      have hfind : h.shallowest? root t.buildFile = _ := Host.shallowest?_of_walk hwalk
      generalize hfound : Option.map _ _ = found at hfind
      have hsome : found.isSome = (t.place? h root).isSome := by
        rw [Bool.eq_iff_iff, Option.isSome_iff_ne_none, Option.isSome_iff_ne_none, ne_eq, ne_eq,
          place?_eq_none_iff hts.1 hfiles hwalk, hfind, Except.ok.injEq]
      rw [← hsome]
      exact run_bind_of_ok (dirOf_run hfind) _
    rw [map_cons, filterAuxM, run_bind_of_ok hsupports, ih hts.2]
    cases hplace : (t.place? h root).isSome <;> simp [hplace]

theorem supporting_run (hfiles : h.files.WellNamed) (hwalk : h.walk root = .ok ds) :
    (supporting root systems).run h =
      if tools.filter (fun t => (t.place? h root).isSome) = [] then
        (.error (.exit (.int 1)), h)
      else (.ok ((tools.filter fun t => (t.place? h root).isSome).map Tool.system), h) := by
  have hfilter : (systems.filterM fun s => System.supports s root).run h = (Except.ok
      ((tools.filter fun t => (t.place? h root).isSome).map Tool.system), h) := by
    rw [systems, filterM, run_bind_of_ok (filterM_supports_run hfiles hwalk (fun _ => id) [])]
    simp
    rfl
  rw [supporting, run_bind_of_ok hfilter]
  cases tools.filter fun t => (t.place? h root).isSome with
  | nil | cons => rfl

theorem forM_tryHomes_eq (h : Host) (root : String) (homes : List String) :
    (forM ((tools.filter fun t => (t.place? h root).isSome).map Tool.system) fun s =>
      tryHomes root s homes) = forM (attempts h root homes) (attempt root) := by
  rw [attempts]
  induction tools with
  | nil => rfl
  | cons t ts ih =>
    rw [flatMap_cons, forM_append, ← ih]
    cases hplace : t.place? h root with
    | none => simp [hplace]
    | some place =>
      simp [hplace, tryHomes]
      rfl

def listing : Command := .program ["update-java-alternatives", "--list"]

theorem mem_attempts {homes : List String} {a : Attempt} :
    a ∈ attempts h root homes ↔
      a.tool ∈ tools ∧ a.tool.place? h root = some a.place ∧ a.home ∈ homes := by
  simp only [attempts, mem_flatMap, Option.mem_toList, mem_map]
  constructor
  · rintro ⟨t, ht, place, hplace, home, hhome, rfl⟩
    exact ⟨ht, hplace, hhome⟩
  · rintro ⟨ht, hplace, hhome⟩
    exact ⟨a.tool, ht, a.place, hplace, a.home, hhome, rfl⟩

/-- From everywhere a tool finds the place of a project whose path begins at the root. -/
theorem place?_of_isAbsolute (ht : t ∈ tools) (hroot : FileTree.isAbsolute root = true) (h : Host)
    (cwd : List String) : t.place? { h with cwd } root = t.place? h root := by
  unfold Tool.place?
  rw [Host.shallowest?_of_isAbsolute hroot h cwd]
  rcases hdir : h.shallowest? root t.buildFile with f | _ | dir
  · rfl
  · rfl
  · have habs := Host.isAbsolute_shallowest? hroot hdir (isEntryName_buildFile ht)
    dsimp only
    rw [FileTree.resolve_of_isAbsolute habs cwd h.cwd]

theorem javaHomes_run {c : Int} (hlisting : h.nextAnswer = .done c output) :
    javaHomes.run h = (.ok (homesOf output), h.afterRun listing) := by
  have hexecute : (Act.execute listing).run h = (.ok ⟨c, output⟩, h.afterRun listing) := by
    rw [execute_run, hlisting]
  rw [javaHomes, ← listing, run_bind_of_ok hexecute]
  rfl

/-- A project that cannot be searched is not built. -/
theorem buildProject_of_walk_error {c : Int} {f : Fault}
    (hlisting : h.nextAnswer = .done c output) (hwalk : h.walk root = .error f) :
    (buildProject root).run h = (.error f, h.afterRun listing) := by
  have hfind : (h.afterRun listing).shallowest? root maven.buildFile = .error f :=
    Host.shallowest?_of_walk_error hwalk
  have hfirst : (maven.system.supports root).run (h.afterRun listing) =
      (.error f, h.afterRun listing) := by
    change (dirOf maven.buildFile root >>= fun d => pure d.isSome).run _ = _
    rw [run_bind, dirOf, run_get_state_bind, hfind]
    rfl
  have hnone : (supporting root systems).run (h.afterRun listing) =
      (.error f, h.afterRun listing) := by
    rw [supporting, run_bind, systems, tools, map_cons, filterM, run_bind, filterAuxM, run_bind,
      hfirst]
  rw [buildProject, run_bind_of_ok (javaHomes_run hlisting), run_bind, hnone]

theorem buildProject_eq (hfiles : h.files.WellNamed) {c : Int}
    (hlisting : h.nextAnswer = .done c output) (hwalk : h.walk root = .ok ds) :
    (buildProject root).run h =
      (forM (attempts h root (homesOf output)) (attempt root) >>= fun _ =>
        throw (.exit (.int 1)) : Act Unit).run (h.afterRun listing) := by
  have hsupporting := supporting_run (h := h.afterRun listing) hfiles hwalk
  have hplace (t : Tool) : t.place? (h.afterRun listing) root = t.place? h root := rfl
  simp only [hplace] at hsupporting
  rw [buildProject, run_bind_of_ok (javaHomes_run hlisting), ← forM_tryHomes_eq]
  split_ifs at hsupporting with hnone
  · rw [run_bind, hsupporting, hnone]
    rfl
  · rw [run_bind_of_ok hsupporting]
    rfl

/-- Attempts that fail leave the program in a place from where the next one may find nothing. -/
theorem forM_attempt_lost {a b : Attempt} {as : List Attempt} (ht : a.tool ∈ tools)
    (hfiles : h.files.WellNamed) (hdone : h.Expects Answer.IsDone)
    (hplace : a.tool.place? h root = some a.place) (hready : a.Ready h)
    (hcode : h.code (a.runs.length - 1) ≠ 0)
    (hlost : { h with cwd := a.place }.shallowest? root b.tool.buildFile = .ok none) :
    (forM (a :: b :: as) (attempt root) >>= fun _ => throw (.exit (.int 1)) : Act Unit).run h =
      (.error .wrongKind, ran h a) := by
  have hfirst := attempt_run ht hfiles hdone hplace hready
  rw [if_neg hcode] at hfirst
  have hlook : (dirOf b.tool.buildFile root).run (ran h a) = (.ok none, ran h a) := dirOf_run hlost
  have hsecond : (attempt root b).run (ran h a) = (.error .wrongKind, ran h a) := by
    rw [attempt, Tool.system, run_bind, run_bind_of_ok hlook]
    rfl
  rw [forM_cons, bind_assoc, run_bind_of_ok hfirst, forM_cons, bind_assoc, run_bind, hsecond]

/-- A project that cannot be searched ends the program in a fault. Otherwise it is built by each tool
that finds its build file, where it is least deep, with each Java installation, until an attempt
passes. The program ends with the code that tells whether one did, if each attempt finds its build
file also from the places of those before it, as it does if the path of the project begins at the
root. An attempt that does not find it from the place of the one before ends the program in a
fault. -/
theorem buildProject_run {h : Host} {root output : String} {c : Int}
    (hfiles : h.files.WellNamed) (hdone : h.Expects Answer.IsDone)
    (hlisting : h.nextAnswer = .done c output)
    (hready : ∀ a ∈ attempts h root (homesOf output), a.Ready h) :
    (∀ f, h.walk root = .error f → (buildProject root).run h = (.error f, h.afterRun listing)) ∧
    ∀ ds, h.walk root = .ok ds →
      (∀ t ∈ tools, (t.place? h root).elim (∀ d ∈ ds, t.buildFile ∉ d.2)
        (h.IsShallowest ds t.buildFile)) ∧
      (FileTree.isAbsolute root = true → Stable h root (attempts h root (homesOf output))) ∧
      (Stable h root (attempts h root (homesOf output)) →
        ∃ h', (buildProject root).run h = (Except.error (.exit (.int
            (trial (fun k => h.code (1 + k)) (attempts h root (homesOf output))).2)), h') ∧
          h'.runs = (h.afterRun listing).runs ++ (trial (fun k => h.code (1 + k))
            (attempts h root (homesOf output))).1.flatMap Attempt.runs) ∧
      ∀ a b more, attempts h root (homesOf output) = a :: b :: more →
        h.code a.runs.length ≠ 0 →
        { h with cwd := a.place }.shallowest? root b.tool.buildFile = .ok none →
          ∃ h', (buildProject root).run h = (Except.error .wrongKind, h') ∧
            h'.runs = (h.afterRun listing).runs ++ a.runs := by
  have hcode : (h.afterRun listing).code = fun k => h.code (1 + k) :=
    Host.code_of_drop drop_one.symm rfl
  have hdone' : (h.afterRun listing).Expects Answer.IsDone := hdone.drop drop_one.symm rfl
  refine ⟨fun f => buildProject_of_walk_error hlisting, fun ds hwalk => ⟨fun t ht => ?_,
    fun hroot => ?_, fun hstable => ?_, fun a b more hattempts hfails hlost => ?_⟩⟩
  · cases hplace : t.place? h root with
    | none =>
      exact (Host.shallowest?_eq_none_iff hwalk).mp
        ((place?_eq_none_iff ht hfiles hwalk).mp hplace)
    | some place =>
      obtain ⟨-, dir, -, hdir⟩ := exists_shallowest?_of_place? hplace
      obtain ⟨place', -, -, hplace', hshallow⟩ := place?_of_shallowest? ht hfiles hwalk hdir
      obtain rfl : place' = place := Option.some.inj (hplace'.symm.trans hplace)
      exact hshallow
  · refine pairwise_of_forall_mem_list fun a _ b hb => ?_
    obtain ⟨ht, hplace, -⟩ := mem_attempts.mp hb
    exact (place?_of_isAbsolute ht hroot h a.place).trans hplace
  · rw [buildProject_eq hfiles hlisting hwalk, ← hcode]
    exact forM_attempt_run (fun a ha => (mem_attempts.mp ha).1) hfiles hdone'
      (fun a ha => (mem_attempts.mp ha).2.1) hstable hready
  · have ha : a ∈ attempts h root (homesOf output) := by simp [hattempts]
    obtain ⟨ht, hplace, -⟩ := mem_attempts.mp ha
    obtain ⟨words, stages, hstages⟩ := exists_stages ht
    have hlength : 1 + (a.runs.length - 1) = a.runs.length := by
      simp [Attempt.runs, hstages, Nat.add_comm]
    refine ⟨ran (h.afterRun listing) a, ?_, rfl⟩
    rw [buildProject_eq hfiles hlisting hwalk, hattempts]
    refine forM_attempt_lost ht hfiles hdone' hplace (hready a ha) ?_ hlost
    rw [hcode]
    dsimp only
    rwa [hlength]

/-- A project for both tools on a host with two Java installations, where the tests pass at the third
attempt. -/
def bothTools : Host where
  files := .folder [("proj", .folder [("pom.xml", .file (.text "")),
    ("app", .folder [("gradlew", .file (.text ""))])])]
  answers := .done 0 "java8 1 /j/8\njava9 2 /j/9\n" :: List.replicate 8 (.done 1 "")

theorem wellNamed_bothTools : bothTools.files.WellNamed := by
  have hname : ∀ name ∈ ["proj", "pom.xml", "app", "gradlew"], IsEntryName name := by decide
  have happ : FileTree.WellNamed (.folder [("gradlew", .file (.text ""))]) :=
    .folder (by decide) (by simp [hname, FileTree.WellNamed.file])
  have hproj : FileTree.WellNamed (.folder [("pom.xml", .file (.text "")),
      ("app", .folder [("gradlew", .file (.text ""))])]) :=
    .folder (by decide) (by simp [hname, FileTree.WellNamed.file, happ])
  exact .folder (by decide) (by simp [hname, hproj])

/-- The attempts at the project, from wherever its path is seen. -/
def bothAttempts : List Attempt :=
  [⟨maven, "/j/8", ["proj"]⟩, ⟨maven, "/j/9", ["proj"]⟩, ⟨gradle, "/j/8", ["proj", "app"]⟩,
    ⟨gradle, "/j/9", ["proj", "app"]⟩]

theorem ready_bothAttempts : ∀ a ∈ bothAttempts, a.Ready bothTools := by
  have hwrapper : ∃ way tree, bothTools.files.resolve ["proj", "app"] wrapper =
    .ok (way, some tree) := ⟨_, _, rfl⟩
  simpa [bothAttempts, Attempt.Ready, maven, gradle] using hwrapper

theorem buildProject_run_bothTools :
    ∃ h', (buildProject "/proj").run bothTools = (Except.error (.exit (.int 0)), h') ∧
      h'.runs.map Run.cwd =
        [] :: List.replicate 8 ["proj"] ++ List.replicate 2 ["proj", "app"] := by
  have hattempts : attempts bothTools "/proj" (homesOf "java8 1 /j/8\njava9 2 /j/9\n") =
      bothAttempts := by decide +kernel
  have hdone : bothTools.Expects Answer.IsDone := by simp [bothTools, Host.Expects, Answer.IsDone]
  have hready : ∀ a ∈ attempts bothTools "/proj" (homesOf "java8 1 /j/8\njava9 2 /j/9\n"),
    a.Ready bothTools := hattempts ▸ ready_bothAttempts
  obtain ⟨-, hsearched⟩ := buildProject_run wellNamed_bothTools hdone rfl hready
  obtain ⟨-, hstable, hrun, -⟩ := hsearched _ (if_pos (by decide +kernel))
  obtain ⟨h', hexit, hruns⟩ := hrun (hstable (by decide))
  rw [hattempts] at hexit hruns
  refine ⟨h', hexit, ?_⟩
  rw [hruns]
  decide +kernel

/-- With the path seen from its parent, the second attempt looks for the project in the project. -/
theorem buildProject_loses_project :
    ∃ h', (buildProject "proj").run bothTools = (Except.error .wrongKind, h') := by
  have hattempts : attempts bothTools "proj" (homesOf "java8 1 /j/8\njava9 2 /j/9\n") =
      bothAttempts := by decide +kernel
  have hdone : (bothTools.afterRun listing).Expects Answer.IsDone := by
    simp [bothTools, Host.afterRun, Host.Expects, Answer.IsDone]
  refine ⟨ran (bothTools.afterRun listing) ⟨maven, "/j/8", ["proj"]⟩, ?_⟩
  rw [buildProject_eq wellNamed_bothTools rfl (if_pos (by decide +kernel)), hattempts]
  exact forM_attempt_lost (by decide) wellNamed_bothTools hdone (by decide +kernel)
    (ready_bothAttempts _ (by decide)) (by decide) rfl

end Maven
end Build
end RegexCorpus
