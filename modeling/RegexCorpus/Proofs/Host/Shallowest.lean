import RegexCorpus.Proofs.Host.Walk
import RegexCorpus.Proofs.Path.RoundTrip

/-!
# The shallowest directory with a file

Depths are compared by the slashes of paths. A slash at the end of the root's path makes the root
seem as deep as the directories in it, but a walk meets the root first, so no choice is changed.

A walk that nests too deep fails, and directories whose paths are too long are not seen.
-/

open RegexCorpus.Path

namespace RegexCorpus
open List FileTree

variable {h : Host} {root path name : String} {place way : List String}
  {es : List (String × FileTree)} {d : String × List String}

/-! ### Ways to directories -/

namespace FileTree

mutual

/-- The ways to the directories of a tree, each before those that go on from it. -/
def ways : FileTree → List (List String)
  | folder es => [] :: waysIn es
  | _ => []

def waysIn : List (String × FileTree) → List (List String)
  | [] => []
  | (name, tree) :: rest => tree.ways.map (name :: ·) ++ waysIn rest

end

variable {files tree : FileTree}

theorem mem_waysIn : way ∈ waysIn es ↔ ∃ e ∈ es, ∃ down ∈ e.2.ways, e.1 :: down = way := by
  induction es with
  | nil => simp [waysIn]
  | cons e es ih => simp [waysIn, ih]

theorem isEntryName_of_mem_ways (hfiles : files.WellNamed)
    (hplace : files.find? place = some tree) (hway : way ∈ tree.ways) :
    ∀ n ∈ way, IsEntryName n := by
  induction tree using entries_induction generalizing place way with
  | step tree ih =>
    cases tree with
    | file | link => cases hway
    | folder es =>
      rw [ways, mem_cons, mem_waysIn] at hway
      obtain rfl | ⟨e, he, down, hdown, rfl⟩ := hway
      · simp
      · exact forall_mem_cons.mpr
          ⟨(hfiles place es hplace).2 e he, ih e he (find?_child hfiles hplace he) hdown⟩

/-- The directories that a walk meets are those whose paths are not too long. -/
theorem map_fst_walk (hfiles : files.WellNamed) (hplace : files.find? place = some tree) :
    (walk h.fits h.leadsToFolder path tree).map Prod.fst =
      (tree.ways.filter fun way => h.fits (joinAll path way)).map (joinAll path) := by
  induction tree using entries_induction generalizing place path with
  | step tree ih =>
    cases tree with
    | file | link => rfl
    | folder es =>
      have hentries (es' : List (String × FileTree)) (hes : ∀ e ∈ es', e ∈ es) :
          (walkEntries h.fits h.leadsToFolder path es').map Prod.fst =
            ((waysIn es').filter fun way => h.fits (joinAll path way)).map (joinAll path) := by
        induction es' with
        | nil => rfl
        | cons e es' ih' =>
          rw [forall_mem_cons] at hes
          rw [walkEntries, waysIn, map_append, filter_append, map_append, ih' hes.2,
            ih e hes.1 (find?_child hfiles hplace hes.1), filter_map, map_map]
          rfl
      rw [walk, ways]
      by_cases hfits : h.fits path = true
      · rw [if_pos hfits, filter_cons_of_pos (by exact hfits), map_cons, map_cons,
          hentries es fun _ => id]
        rfl
      · -- all that is in the directory has a longer path
        rw [if_neg hfits, map_nil, eq_comm, map_eq_nil_iff, filter_eq_nil_iff]
        intro way hway hbelow
        exact hfits (fits_of_fits_joinAll (isEntryName_of_mem_ways hfiles hplace hway) hbelow)

/-- A walk opens a call for each directory on the way to one that it meets, and one that lists it. -/
theorem le_walkCalls (hfiles : files.WellNamed) (hplace : files.find? place = some tree)
    (hway : way ∈ tree.ways) (hfits : h.fits (joinAll path way)) :
    way.length + 2 ≤ tree.walkCalls h.fits h.leadsToFolder path := by
  induction tree using entries_induction generalizing place path way with
  | step tree ih =>
    cases tree with
    | file | link => cases hway
    | folder es =>
      have hnames := isEntryName_of_mem_ways hfiles hplace hway
      rw [walkCalls, if_pos (fits_of_fits_joinAll hnames hfits)]
      rw [ways, mem_cons, mem_waysIn] at hway
      have hleast (es' : List (String × FileTree)) :
          1 ≤ entriesCalls h.fits h.leadsToFolder path es' := by
        induction es' with
        | nil => exact le_rfl
        | cons e es' ih' => exact ih'.trans (le_max_right _ _)
      obtain rfl | ⟨e, he, down, hdown, rfl⟩ := hway
      · have := hleast es
        simp
        omega
      · have hbelow := ih e he (find?_child hfiles hplace he) hdown hfits
        have hmax : e.2.walkCalls h.fits h.leadsToFolder (join path e.1) ≤
            entriesCalls h.fits h.leadsToFolder path es := by
          clear ih hplace hnames hleast
          induction es with
          | nil => cases he
          | cons e' es ih' =>
            obtain rfl | he := mem_cons.mp he
            · exact le_max_left _ _
            · exact (ih' he).trans (le_max_right _ _)
        rw [length_cons]
        omega

end FileTree

namespace Host

/-! ### Depth -/

theorem depth_of_toList {xs : List Char} (hpath : path.toList = xs ++ '/' :: name.toList)
    (hname : IsEntryName name) : depth path = (Text.split '/' xs).length + 1 := by
  rw [depth, Text.splitOn, hpath, Text.split_append, Text.split_of_not_mem hname.no_slash]
  simp

theorem depth_joinAll (hpath : IsOpen path) (hway : ∀ n ∈ way, IsEntryName n) :
    depth (joinAll path way) = depth path + way.length := by
  induction way generalizing path with
  | nil => rfl
  | cons name way ih =>
    obtain ⟨hname, hway⟩ := forall_mem_cons.mp hway
    have hjoin := depth_of_toList (toList_join hpath hname.head?) hname
    change depth (joinAll (join path name) way) = _
    rw [ih (isOpen_join hpath.1 ⟨hname.ne_empty, hname.no_slash⟩) hway, hjoin, depth, Text.splitOn,
      length_map, length_cons]
    omega

/-- Below a root the depth grows with the way, and the root is no deeper than what is in it. -/
theorem exists_depth (hroot : root ≠ "") :
    ∃ k, depth root ≤ k ∧ ∀ name way, (∀ n ∈ name :: way, IsEntryName n) →
      depth (joinAll root (name :: way)) = k + way.length := by
  obtain ⟨xs, hxs, hjoin⟩ := exists_join_eq hroot
  refine ⟨(Text.split '/' xs).length + 1, ?_, fun name way hnames => ?_⟩
  · rw [depth, Text.splitOn, length_map]
    rcases hxs with hxs | ⟨hxs, -⟩ <;> rw [hxs]
    · rw [Text.split_append, length_append]
      rfl
    · exact Nat.le_succ _
  · obtain ⟨hname, hway⟩ := forall_mem_cons.mp hnames
    rw [← depth_of_toList (hjoin name hname.head?) hname]
    exact depth_joinAll (isOpen_join hroot ⟨hname.ne_empty, hname.no_slash⟩) hway

/-! ### Files -/

/-- The directory at a path has a file of the name, or a link that is not seen to lead to a
directory. -/
def hasFile (h : Host) (dir name : String) : Bool :=
  match (h.at? dir).bind fun t => t.entry? name with
  | some (.file _) => true
  | some (.link _) => !h.leadsToFolder (join dir name)
  | _ => false

theorem mem_names_iff (hfiles : h.files.WellNamed)
    (hplace : h.files.resolve h.cwd path = .ok (place, some (.folder es)))
    (hhead : (FileTree.walk h.fits h.leadsToFolder path (.folder es)).head? = some d) :
    name ∈ d.2 ↔ h.hasFile path name = true := by
  have hnodup := (hfiles place es (find?_of_resolve hplace)).1
  have hat : h.at? path = some (.folder es) := by rw [at?, hplace]
  rw [FileTree.walk] at hhead
  split_ifs at hhead
  · obtain rfl := Option.some.inj hhead
    simp only [mem_map, mem_filter, Prod.exists, exists_and_right, exists_eq_right,
      ← entry?_eq_some_iff hnodup]
    rw [hasFile, hat, Option.bind_some]
    rcases FileTree.entry? (folder es) name with _ | t | es' | target <;> simp
  · cases hhead

theorem resolve_dirname_of_hasFile (hfiles : h.files.WellNamed)
    (hfile : h.hasFile path name = true) :
    h.files.resolve h.cwd (dirname (join path name)) = h.files.resolve h.cwd path := by
  unfold hasFile at? at hfile
  rcases hplace : h.files.resolve h.cwd path with f | ⟨place, _ | _ | es | _⟩ <;>
    rw [hplace] at hfile <;> try cases hfile
  have hentries := hfiles place es (find?_of_resolve hplace)
  cases hentry : FileTree.entry? (folder es) name with
  | none => simp [hentry] at hfile
  | some t =>
    have he := (entry?_eq_some_iff hentries.1).mp hentry
    exact resolve_dirname_join hplace (hentries.2 _ he)

/-! ### The choice -/

/-- The ways from a root to the directories below it whose paths are not too long, as a walk meets
them. -/
def waysBelow (h : Host) (root : String) : List (List String) :=
  ((h.at? root).elim [] ways).filter fun way => h.fits (joinAll root way)

/-- Those of them that lead to a directory with a file of the name. -/
def holders (h : Host) (root name : String) : List (List String) :=
  (h.waysBelow root).filter fun way => h.hasFile (joinAll root way) name

/-- Of two directories, the one that a walk meets later has fewer slashes on its path exactly when
it is less deep. -/
theorem pairwise_waysBelow (hfiles : h.files.WellNamed) (root : String) :
    (h.waysBelow root).Pairwise fun way way' =>
      (depth (joinAll root way') < depth (joinAll root way) ↔ way'.length < way.length) := by
  refine Pairwise.filter _ ?_
  unfold at?
  rcases hroot : h.files.resolve h.cwd root with f | ⟨place, _ | _ | es | _⟩
  case ok.some.folder =>
    have hne : root ≠ "" := by
      rintro rfl
      cases hroot
    obtain ⟨k, hk, hdepth⟩ := exists_depth hne
    have hbelow (way : List String) (hway : way ∈ waysIn es) :
        ∃ n, depth (joinAll root way) = k + n ∧ way.length = n + 1 := by
      have hnames := isEntryName_of_mem_ways hfiles (find?_of_resolve hroot)
        (mem_cons_of_mem _ hway)
      obtain ⟨e, -, down, -, rfl⟩ := mem_waysIn.mp hway
      exact ⟨down.length, hdepth e.1 down hnames, rfl⟩
    -- the root may seem too deep, but it is never the later of the two
    refine pairwise_cons.mpr ⟨fun way hway => ?_, pairwise_of_forall_mem_list ?_⟩
    · obtain ⟨n, hn, hlength⟩ := hbelow way hway
      rw [hn, hlength]
      exact iff_of_false (not_lt.mpr (hk.trans (Nat.le_add_right k n))) (Nat.not_lt_zero _)
    · intro way hway way' hway'
      obtain ⟨n, hn, hlength⟩ := hbelow way hway
      obtain ⟨n', hn', hlength'⟩ := hbelow way' hway'
      omega
  all_goals exact .nil

theorem shallowest?_eq (hfiles : h.files.WellNamed) (hroom : h.walkCalls root ≤ h.room) :
    h.shallowest? root name = .ok ((leastDeep? ((h.holders root name).map (joinAll root))).map
      fun dir => dirname (join dir name)) := by
  have hwalk := walk_eq_ok_iff.mpr ⟨hroom, rfl⟩
  generalize hds : (h.at? root).elim [] (·.walk h.fits h.leadsToFolder root) = ds at hwalk
  have hpaths : ds.map Prod.fst = (h.waysBelow root).map (joinAll root) := by
    rw [← hds, waysBelow]
    cases hroot : h.at? root with
    | none => rfl
    | some tree =>
      obtain ⟨place, hplace⟩ := exists_resolve_of_at? hroot
      exact map_fst_walk hfiles (find?_of_resolve hplace)
  have hholders : (h.holders root name).map (joinAll root) =
      (ds.filter ((h.hasFile · name) ∘ Prod.fst)).map Prod.fst := by
    rw [← filter_map, hpaths, filter_map]
    rfl
  rw [shallowest?_of_walk hwalk, hholders]
  congr 4
  refine filter_congr fun d hd => ?_
  obtain ⟨place, tree, hroot, hmet⟩ := (mem_walk hwalk).mp hd
  obtain ⟨place', es, hplace, hhead⟩ := exists_of_mem_walk hfiles hroot hmet
  rw [Bool.eq_iff_iff, contains_iff_mem, mem_names_iff hfiles hplace hhead]
  rfl

theorem le_walkCalls_of_mem_waysBelow (hfiles : h.files.WellNamed) (hway : way ∈ h.waysBelow root) :
    way.length + 2 ≤ h.walkCalls root := by
  obtain ⟨hway, hfits⟩ := mem_filter.mp hway
  rw [walkCalls]
  cases hroot : h.at? root with
  | none =>
    rw [hroot] at hway
    cases hway
  | some tree =>
    rw [hroot] at hway
    obtain ⟨place, hplace⟩ := exists_resolve_of_at? hroot
    exact le_walkCalls hfiles (find?_of_resolve hplace) hway hfits

/-- The search fails exactly when the walk opens too many calls inside one another, as it does for a
directory that is too many levels down. Otherwise a directory below the root that has a file of the
name is found exactly when there is one; those that the walk meets before it are deeper, and those
after it are no less deep. -/
theorem shallowest?_first (hfiles : h.files.WellNamed) (root name : String) :
    (h.shallowest? root name = .error .tooDeep ↔ h.room < h.walkCalls root) ∧
    (∀ way ∈ h.waysBelow root, way.length + 2 ≤ h.walkCalls root) ∧
    (h.walkCalls root ≤ h.room →
      (h.shallowest? root name = .ok none ↔ h.holders root name = []) ∧
      (h.holders root name ≠ [] → ∃ dir before way after,
        h.shallowest? root name = .ok (some dir) ∧
        h.holders root name = before ++ way :: after ∧
        h.files.resolve h.cwd dir = h.files.resolve h.cwd (joinAll root way) ∧
        (∀ way' ∈ before, way.length < way'.length) ∧
        ∀ way' ∈ after, way.length ≤ way'.length)) := by
  refine ⟨?_, fun way => le_walkCalls_of_mem_waysBelow hfiles, fun hroom => ?_⟩
  · by_cases hroom : h.walkCalls root ≤ h.room
    · rw [shallowest?_eq hfiles hroom]
      simp [hroom]
    · rw [shallowest?_of_walk_error (if_neg hroom)]
      simpa using hroom
  rw [shallowest?_eq hfiles hroom, Except.ok.injEq, Option.map_eq_none_iff, leastDeep?_eq_none_iff,
    map_eq_nil_iff]
  refine ⟨Iff.rfl, fun hsome => ?_⟩
  obtain ⟨path, hpath⟩ :
      ∃ path, leastDeep? ((h.holders root name).map (joinAll root)) = some path := by
    rw [← Option.ne_none_iff_exists', ne_eq, leastDeep?_eq_none_iff, map_eq_nil_iff]
    exact hsome
  obtain ⟨before, after, hpaths, hfirst, hleast⟩ := leastDeep?_spec hpath
  obtain ⟨before, rest, hholders, rfl, hrest⟩ := map_eq_append_iff.mp hpaths
  obtain ⟨way, after, rfl, rfl, rfl⟩ := map_eq_cons_iff.mp hrest
  have hmem : way ∈ h.holders root name := by simp [hholders]
  have hpair := (pairwise_waysBelow hfiles root).filter fun way => h.hasFile (joinAll root way) name
  rw [← holders, hholders, pairwise_append, pairwise_cons] at hpair
  refine ⟨_, before, way, after, by rw [hpath]; rfl, hholders,
    resolve_dirname_of_hasFile hfiles (mem_filter.mp hmem).2, fun way' hway' => ?_,
    fun way' hway' => ?_⟩
  · exact (hpair.2.2 way' hway' way mem_cons_self).mp (hfirst _ (mem_map_of_mem hway'))
  · have hle := hleast (joinAll root way') (mem_map_of_mem (by simp [hholders, hway']))
    rw [← not_lt, ← hpair.2.1.1 way' hway']
    exact not_lt.mpr hle

def withFile : FileTree := .folder [("x", .file (.text ""))]

/-- A directory deep down, and after it two of one depth. -/
def threeHolders : Host where
  files := .folder [("p", .folder [("a", .folder [("b", withFile)]), ("c", withFile),
    ("d", withFile)])]

theorem wellNamed_threeHolders : threeHolders.files.WellNamed := by
  have hname : ∀ name ∈ ["p", "a", "b", "c", "d", "x"], IsEntryName name := by decide
  have hfile : withFile.WellNamed :=
    .folder (by decide) (by simp [hname, FileTree.WellNamed.file])
  have ha : FileTree.WellNamed (.folder [("b", withFile)]) :=
    .folder (by decide) (by simp [hname, hfile])
  have hp : FileTree.WellNamed (.folder [("a", .folder [("b", withFile)]), ("c", withFile),
      ("d", withFile)]) :=
    .folder (by decide) (by simp [hname, hfile, ha])
  exact .folder (by decide) (by simp [hname, hp])

/-- Of three directories the first of the two less deep ones is found. -/
theorem shallowest?_first_threeHolders :
    threeHolders.holders "/p/" "x" = [["a", "b"], ["c"], ["d"]] ∧
    ∃ before way after, threeHolders.shallowest? "/p/" "x" = .ok (some "/p/c") ∧
      [["a", "b"], ["c"], ["d"]] = before ++ way :: after ∧
      threeHolders.files.resolve [] "/p/c" = threeHolders.files.resolve [] (joinAll "/p/" way) ∧
      (∀ way' ∈ before, way.length < way'.length) ∧ ∀ way' ∈ after, way.length ≤ way'.length := by
  have hholders : threeHolders.holders "/p/" "x" = [["a", "b"], ["c"], ["d"]] := by decide +kernel
  have hdir : threeHolders.shallowest? "/p/" "x" = .ok (some "/p/c") := by rfl
  obtain ⟨-, -, hfound⟩ := shallowest?_first wellNamed_threeHolders "/p/" "x"
  obtain ⟨dir, before, way, after, hsome, hfirst⟩ :=
    (hfound (by decide +kernel)).2 (by rw [hholders]; simp)
  obtain rfl : "/p/c" = dir := Option.some_inj.mp (Except.ok.inj (hdir.symm.trans hsome))
  rw [hholders] at hfirst
  exact ⟨hholders, before, way, after, hsome, hfirst⟩

/-- A directory that is not seen because its path has a byte too many, and one for which a walk that
may open three calls inside one another goes too deep. -/
theorem shallowest?_misses_holder :
    ({ threeHolders with longestPath := 3 }.hasFile "/p/c" "x" = true ∧
      { threeHolders with longestPath := 3 }.shallowest? "/p" "x" = .ok none) ∧
    { threeHolders with room := 3 }.shallowest? "/p" "x" = .error .tooDeep := by
  refine ⟨⟨by decide +kernel, rfl⟩, rfl⟩

end Host
end RegexCorpus
