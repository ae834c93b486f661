import RegexCorpus.Extract.ProjectDir
import RegexCorpus.Proofs.Host.Files
import RegexCorpus.Proofs.Host.Walk

/-!
# The directory of a project

In a tree without links the project is found by going down through folders whose only visible entry is
a folder, and the search ends where this is no longer so. It gives up on a way that is too deep or
whose path is too long.
-/

namespace RegexCorpus
open List

namespace FileTree

variable {root : FileTree} {way cwd : List String} {es : List (String × FileTree)} {path : String}

/-- The only visible entry of the folder is a folder. -/
def HasSole (es : List (String × FileTree)) (name : String) (sub : List (String × FileTree)) : Prop :=
  visible es = [(name, folder sub)]

def LinkFree (t : FileTree) : Prop := ∀ way, NoLink t way

theorem LinkFree.file (c : Content) : LinkFree (file c)
  | [], _ => by simp [find?]
  | _ :: _, _ => by simp [find?_cons, entry?, entries]

theorem LinkFree.folder (hes : ∀ e ∈ es, LinkFree e.2) : LinkFree (folder es)
  | [], _ => by simp [find?]
  | name :: way, target => by
    intro h
    rw [find?_cons, Option.bind_eq_some_iff] at h
    obtain ⟨t, hentry, h⟩ := h
    obtain ⟨e, hfind, rfl⟩ := Option.map_eq_some_iff.mp hentry
    exact hes e (mem_of_find?_eq_some hfind) way target h

theorem LinkFree.find? {t sub : FileTree} (ht : LinkFree t) (hsub : t.find? way = some sub) :
    LinkFree sub := fun below target h => by
  refine ht (way ++ below) target ?_
  rw [find?_append, hsub]
  exact h

theorem LinkFree.entries (hes : LinkFree (.folder es)) (hnodup : (es.map Prod.fst).Nodup) :
    ∀ e ∈ es, LinkFree e.2 := fun e he => by
  have hentry : (FileTree.folder es).find? [e.1] = some e.2 := by
    rw [find?_cons, (entry?_eq_some_iff hnodup).mpr he]
    rfl
  exact hes.find? hentry

theorem LinkFree.ne_link {t : FileTree} (ht : LinkFree t) (target : String) : t ≠ .link target := by
  rintro rfl
  exact ht [] target rfl

end FileTree

namespace Extract
open FileTree

variable {h : Host} {root : String} {way down : List String} {es fs : List (String × FileTree)}

/-- What one folder does to the search: it fails for want of room, goes on in the only visible entry
if that is a folder, and otherwise ends. -/
theorem projectDirWithin_folder (hroot : h.files.resolve h.cwd root = .ok (way, some (folder es)))
    (hes : ∀ e ∈ es, LinkFree e.2) (room : ℕ) :
    (projectDirWithin (room + 2) root).run h =
      match h.fits root, room == 0 && !es.isEmpty, visible es with
      | false, _, _ => (.error .pathTooLong, h)
      | true, true, _ => (.error .tooDeep, h)
      | true, false, [(name, .folder _)] =>
        (projectDirWithin (room + 1) (Path.join root name)).run h
      | true, false, _ => (.ok root, h) := by
  have hscan : (scan root).run h =
      (if h.fits root then .ok es else .error .pathTooLong, h) := by
    rw [scan, run_get_state_bind]
    cases h.fits root with
    | false => rfl
    | true => exact run_bind_of_ok (Host.lookUp_run hroot) _
  rw [projectDirWithin, run_bind, hscan]
  cases h.fits root with
  | false => rfl
  | true =>
    rw [if_pos rfl]
    dsimp only
    cases room == 0 && !es.isEmpty with
    | true => rfl
    | false =>
      rcases hvisible : visible es with _ | ⟨⟨name, t⟩, _ | ⟨e, rest⟩⟩
      · rfl
      · have he : (name, t) ∈ es :=
          mem_of_mem_filter (hvisible ▸ mem_cons_self : (name, t) ∈ visible es)
        cases t with
        | file | folder => rfl
        | link target => exact absurd rfl ((hes _ he).ne_link target)
      · cases t <;> rfl

/-- The calls that the search opens inside one another to come down to a folder with the entries: one
for each folder, one that lists the last one, and one that looks at the names in it. -/
def callsTo (down : List String) (fs : List (String × FileTree)) : ℕ :=
  down.length + if fs = [] then 2 else 3

/-- The way leads down through folders whose only visible entry is a folder, to one that has none. -/
structure IsSoleWay (files : FileTree) (way down : List String) (fs : List (String × FileTree)) :
    Prop where
  passed : ∀ pre name post, down = pre ++ name :: post →
    ∃ gs sub, files.find? (way ++ pre) = some (folder gs) ∧ HasSole gs name sub
  ends : ∀ name sub, ¬HasSole fs name sub

theorem IsSoleWay.isEntryName {files : FileTree} (hfiles : WellNamed files)
    (hdown : IsSoleWay files way down fs) : ∀ n ∈ down, Path.IsEntryName n := by
  intro n hn
  obtain ⟨pre, post, rfl⟩ := append_of_mem hn
  obtain ⟨gs, sub, hfind, hsole⟩ := hdown.passed pre n post rfl
  have he : (n, folder sub) ∈ gs :=
    mem_of_mem_filter (hsole ▸ mem_cons_self : (n, folder sub) ∈ visible gs)
  exact (hfiles _ gs hfind).2 _ he

/-- How a search ends that has to come down to a folder: there if it has the room for it and the path
is not too long, and otherwise in a fault for one of the two reasons. -/
def EndsAt (h : Host) (dir : String) (calls room : ℕ) (run : Outcome String × Host) : Prop :=
  if calls ≤ room ∧ h.fits dir = true then run = (.ok dir, h)
  else ∃ f, run = (.error f, h) ∧
    (f = .tooDeep ∧ room < calls ∨ f = .pathTooLong ∧ h.fits dir = false)

variable {dir : String} {calls room : ℕ} {run : Outcome String × Host}

theorem EndsAt.tooDeep (hroom : room < calls) : EndsAt h dir calls room (.error .tooDeep, h) := by
  rw [EndsAt, if_neg (by omega)]
  exact ⟨_, rfl, .inl ⟨rfl, hroom⟩⟩

theorem EndsAt.pathTooLong (hfits : h.fits dir = false) :
    EndsAt h dir calls room (.error .pathTooLong, h) := by
  rw [EndsAt, if_neg (by simp [hfits])]
  exact ⟨_, rfl, .inr ⟨rfl, hfits⟩⟩

theorem EndsAt.of_ok (hends : EndsAt h dir calls room run) {found : String}
    (hrun : run = (.ok found, h)) : calls ≤ room ∧ h.fits dir = true := by
  rw [EndsAt] at hends
  split_ifs at hends with hroom
  · exact hroom
  · obtain ⟨f, hf, -⟩ := hends
    rw [hrun] at hf
    cases hf

theorem EndsAt.succ (hends : EndsAt h dir calls room run) :
    EndsAt h dir (calls + 1) (room + 1) run := by
  simpa only [EndsAt, Nat.add_le_add_iff_right, Nat.add_lt_add_iff_right] using hends

theorem two_le_callsTo (down : List String) (fs : List (String × FileTree)) :
    down.length + 2 ≤ callsTo down fs := by
  unfold callsTo
  split_ifs <;> omega

/-- A folder without a folder as only visible entry is where the search ends. -/
theorem endsAt_of_not_sole (hroot : h.files.resolve h.cwd root = .ok (way, some (folder es)))
    (hes : ∀ e ∈ es, LinkFree e.2) (hends : ∀ name sub, ¬HasSole es name sub) (room : ℕ) :
    EndsAt h root (callsTo [] es) room ((projectDirWithin room root).run h) := by
  have htwo := two_le_callsTo [] es
  rw [length_nil] at htwo
  rcases room with _ | _ | room
  · exact .tooDeep (by omega)
  · exact .tooDeep (by omega)
  rw [projectDirWithin_folder hroot hes]
  cases hfits : h.fits root with
  | false => exact .pathTooLong hfits
  | true =>
    cases hfew : room == 0 && !es.isEmpty with
    | true =>
      obtain ⟨rfl, hne⟩ : room = 0 ∧ es ≠ [] := by simpa using hfew
      exact .tooDeep (by simp [callsTo, hne])
    | false =>
      have hroom : callsTo [] es ≤ room + 2 := by
        have hone : room = 0 → es = [] := by simpa using hfew
        unfold callsTo
        split_ifs with hnil
        · simp
        · have := mt hone hnil
          simp
          omega
      have hstop : EndsAt h root (callsTo [] es) (room + 2) (.ok root, h) := by
        rw [EndsAt, if_pos ⟨hroom, hfits⟩]
      rcases hvisible : visible es with _ | ⟨⟨name, t⟩, _ | ⟨e, rest⟩⟩
      · exact hstop
      · cases t with
        | folder sub => exact absurd hvisible (hends name sub)
        | file | link => exact hstop
      · cases t <;> exact hstop

/-- The search ends where the way through folders with a folder as only visible entry ends. -/
theorem exists_endsAt (hfiles : WellNamed h.files)
    (hroot : h.files.resolve h.cwd root = .ok (way, some (folder es)))
    (hlinks : LinkFree (folder es)) :
    ∃ down fs, h.files.resolve h.cwd (Path.joinAll root down) = .ok (way ++ down, some (folder fs)) ∧
      IsSoleWay h.files way down fs ∧ ∀ room, EndsAt h (Path.joinAll root down) (callsTo down fs) room
        ((projectDirWithin room root).run h) := by
  generalize ht : folder es = t at hroot hlinks
  induction t using entries_induction generalizing root way es with
  | step t ih =>
    subst ht
    have hfind := find?_of_resolve hroot
    obtain ⟨hnodup, hnames⟩ := hfiles way es hfind
    have hes := hlinks.entries hnodup
    by_cases hsole : ∃ name sub, HasSole es name sub
    · obtain ⟨name, sub, hsole⟩ := hsole
      have he : (name, folder sub) ∈ es :=
        mem_of_mem_filter (hsole ▸ mem_cons_self : (name, folder sub) ∈ visible es)
      have hchild := find?_child hfiles hfind he
      have hnext := resolve_join hroot (hnames _ he) (noLink_of_find? hchild (by simp))
      rw [hchild] at hnext
      obtain ⟨down, fs, hdir, hway, hrun⟩ := ih _ he rfl hnext (hes _ he)
      rw [append_assoc] at hdir
      have hdown : IsSoleWay h.files way (name :: down) fs := by
        refine ⟨fun pre next post hpre => ?_, hway.ends⟩
        cases pre with
        | nil =>
          obtain ⟨rfl, -⟩ := cons.inj hpre
          exact ⟨es, sub, by simpa using hfind, hsole⟩
        | cons first pre =>
          obtain ⟨rfl, hrest⟩ := cons.inj hpre
          simpa using hway.passed pre next post hrest
      have hcalls : callsTo (name :: down) fs = callsTo down fs + 1 := by
        rw [callsTo, callsTo, length_cons, Nat.add_right_comm]
      have htwo := two_le_callsTo down fs
      refine ⟨name :: down, fs, hdir, hdown, fun room => ?_⟩
      rcases room with _ | _ | room
      · exact .tooDeep (by omega)
      · exact .tooDeep (by omega)
      · rw [projectDirWithin_folder hroot hes, hsole, isEmpty_eq_false_iff.mpr (ne_nil_of_mem he)]
        cases hfits : h.fits root with
        | false =>
          refine .pathTooLong ?_
          rw [Bool.eq_false_iff] at hfits ⊢
          exact fun hbelow => hfits (fits_of_fits_joinAll (hdown.isEntryName hfiles) hbelow)
        | true =>
          rcases room with _ | room
          · exact .tooDeep (by omega)
          · rw [hcalls]
            exact (hrun (room + 2)).succ
    · have hends : ∀ name sub, ¬HasSole es name sub := by simpa using hsole
      exact ⟨[], es, by rwa [append_nil], ⟨by simp, hends⟩, endsAt_of_not_sole hroot hes hends⟩

/-- In a tree without links there is one way down from the root through directories whose only visible
entry is a directory, to the first for which this is not so. The project is found there, and again if
it is searched from there, if the directories on the way fit into the calls that may be open at once
and the last path is not too long. Otherwise the search ends in a fault. -/
theorem projectDir_run (hfiles : WellNamed h.files)
    (hroot : h.files.resolve h.cwd root = .ok (way, some (folder es)))
    (hlinks : LinkFree (folder es)) :
    ∃ down fs, h.files.resolve h.cwd (Path.joinAll root down) = .ok (way ++ down, some (folder fs)) ∧
      IsSoleWay h.files way down fs ∧
      EndsAt h (Path.joinAll root down) (callsTo down fs) h.room ((projectDir root).run h) ∧
      ((projectDir root).run h = (.ok (Path.joinAll root down), h) →
        (projectDir (Path.joinAll root down)).run h = (.ok (Path.joinAll root down), h)) := by
  obtain ⟨down, fs, hdir, hdown, hends⟩ := exists_endsAt hfiles hroot hlinks
  refine ⟨down, fs, hdir, hdown, hends h.room, fun hrun => ?_⟩
  obtain ⟨hroom, hfits⟩ := (hends h.room).of_ok hrun
  have hlast := find?_of_resolve hdir
  rw [FileTree.find?_append, find?_of_resolve hroot, Option.bind_some] at hlast
  have hagain := endsAt_of_not_sole hdir ((hlinks.find? hlast).entries
    (hfiles _ fs (find?_of_resolve hdir)).1) hdown.ends h.room
  have hcalls : callsTo [] fs ≤ callsTo down fs := by
    rw [callsTo, callsTo, length_nil, Nat.zero_add]
    exact Nat.le_add_left _ _
  rwa [EndsAt, if_pos ⟨hcalls.trans hroom, hfits⟩] at hagain

/-- An archive whose project is one directory down, beside a hidden file. -/
def archive : List (String × FileTree) := [(".x", .file (.text "")),
  ("a", .folder [("b", .file (.text "")), ("c", .file (.text ""))])]

def unpackedHost : Host := { files := .folder [("u", .folder archive)] }

theorem wellNamed_unpackedHost : WellNamed unpackedHost.files := by
  have hname : ∀ name ∈ ["u", ".x", "a", "b", "c"], Path.IsEntryName name := by decide
  have hproject : WellNamed (.folder [("b", .file (.text "")), ("c", .file (.text ""))]) :=
    .folder (by decide) (by simp [hname, WellNamed.file])
  have harchive : WellNamed (.folder archive) :=
    .folder (by decide) (by simp [archive, hname, WellNamed.file, hproject])
  exact .folder (by decide) (by simp [hname, harchive])

/-- The project is found beside the hidden file. -/
theorem projectDir_run_unpackedHost : LinkFree (.folder archive) ∧
    (projectDir "u").run unpackedHost = (.ok "u/a", unpackedHost) ∧
    (projectDir "u/a").run unpackedHost = (.ok "u/a", unpackedHost) := by
  have hlinks : LinkFree (.folder archive) :=
    .folder (by simp [archive, LinkFree.folder, LinkFree.file])
  have hroot : unpackedHost.files.resolve unpackedHost.cwd "u" =
      .ok (["u"], some (folder archive)) := rfl
  have hrun : (projectDir "u").run unpackedHost = (.ok "u/a", unpackedHost) := rfl
  obtain ⟨down, fs, -, -, hends, hagain⟩ := projectDir_run wellNamed_unpackedHost hroot hlinks
  have hsame : Path.joinAll "u" down = "u/a" := by
    have hroom := hends.of_ok hrun
    rw [EndsAt, if_pos hroom] at hends
    exact Except.ok.inj (Prod.mk.inj (hends.symm.trans hrun)).1
  rw [hsame] at hagain
  exact ⟨hlinks, hrun, hagain hrun⟩

/-- With room for three calls the search does not come down into the directory that holds the project,
and neither does it where paths may have two bytes. -/
theorem projectDir_gives_up :
    (projectDir "u").run { unpackedHost with room := 3 } =
      (.error .tooDeep, { unpackedHost with room := 3 }) ∧
    (projectDir "u").run { unpackedHost with longestPath := 2 } =
      (.error .pathTooLong, { unpackedHost with longestPath := 2 }) := ⟨rfl, rfl⟩

end Extract
end RegexCorpus
