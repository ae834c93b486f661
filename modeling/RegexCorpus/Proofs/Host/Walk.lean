import RegexCorpus.Build.System
import RegexCorpus.Proofs.Host.FileTree
import RegexCorpus.Proofs.Path

/-!
# Directories that a walk finds

A walk down a tree names each directory by a path, joined from the path where it began and the names
on the way. The paths lead back to the directories, from where the walk was made; those that begin
at the root lead there from everywhere.
-/

namespace RegexCorpus
open List FileTree

/-! ### Joined paths -/

namespace Path

variable {path name : String}

/-- The text is the name of something in a folder. -/
structure IsEntryName (name : String) : Prop where
  ne_empty : name ≠ ""
  ne_dot : name ≠ "."
  ne_dots : name ≠ ".."
  no_slash : '/' ∉ name.toList

instance : Decidable (IsEntryName name) :=
  decidable_of_iff (name ≠ "" ∧ name ≠ "." ∧ name ≠ ".." ∧ '/' ∉ name.toList)
    ⟨fun ⟨h, hd, hds, hs⟩ => ⟨h, hd, hds, hs⟩, fun ⟨h, hd, hds, hs⟩ => ⟨h, hd, hds, hs⟩⟩

theorem IsEntryName.head? (hname : IsEntryName name) : name.toList.head? ≠ some '/' :=
  fun h => hname.no_slash (mem_of_mem_head? h)

theorem splitOn_join (hpath : path ≠ "") (hname : IsEntryName name) :
    ∃ ps, Text.splitOn '/' (join path name) = ps ++ [name] ∧ ps.filter isName = names path := by
  have hfilter := filter_directories_join hpath hname.head?
  obtain ⟨xs, -, hjoin⟩ := exists_join_eq hpath
  have hsplit : Text.splitOn '/' (join path name) =
      (Text.split '/' xs).map String.ofList ++ [name] := by
    rw [Text.splitOn, hjoin name hname.head?, Text.split_append,
      Text.split_of_not_mem hname.no_slash, map_append, map_singleton,
      String.ofList_toList]
  rw [directories, hsplit, dropLast_concat, directories, Text.splitOn,
    Text.split_of_not_mem hname.no_slash, map_singleton, dropLast_singleton,
    filter_nil, append_nil] at hfilter
  exact ⟨_, hsplit, hfilter⟩

theorem isAbsolute_join (hpath : path ≠ "") (hname : name.toList.head? ≠ some '/') :
    isAbsolute (join path name) = isAbsolute path := by
  obtain ⟨xs, hxs, hjoin⟩ := exists_join_eq hpath
  rw [isAbsolute, isAbsolute, hjoin name hname]
  rcases hxs with hxs | ⟨hxs, -⟩
  · rw [hxs]
    cases xs <;> rfl
  · rw [hxs]
    cases xs with
    | nil => exact absurd (String.toList_eq_nil_iff.mp hxs) hpath
    | cons => rfl

theorem isAbsolute_join_left (hpath : isAbsolute path = true) (name : String) :
    isAbsolute (join path name) = true := by
  by_cases hname : name.toList.head? = some '/'
  · rw [join, if_pos (by simpa using hname)]
    simpa [isAbsolute] using hname
  · rwa [isAbsolute_join (by rintro rfl; cases hpath) hname]

theorem trimHead_concat_ne_nil (xs : List Char) : trimHead (xs ++ ['/']) ≠ [] := by
  unfold trimHead
  split_ifs with hall
  · simp
  · intro hnil
    have hslash := rdropWhile_eq_nil_iff.mp hnil
    exact hall (all_eq_true.mpr hslash)

theorem slash_mem_join (hpath : path ≠ "") (hname : IsEntryName name) :
    '/' ∈ (join path name).toList := by
  obtain ⟨xs, -, hjoin⟩ := exists_join_eq hpath
  simp [hjoin name hname.head?]

/-- The head of a path with a slash begins like the path. -/
theorem dirname_begins (h : '/' ∈ path.toList) :
    dirname path ≠ "" ∧ isAbsolute (dirname path) = isAbsolute path := by
  obtain ⟨-, hslash⟩ | ⟨xs, -, -, hhead⟩ := split_cases path
  · exact absurd h hslash
  · have hne : (split path).1.toList ≠ [] := hhead ▸ trimHead_concat_ne_nil xs
    refine ⟨fun hempty => hne (by rw [← dirname, hempty]; rfl), ?_⟩
    obtain ⟨rest, hrest⟩ := isPrefix_head path
    rw [isAbsolute, isAbsolute, ← hrest, head?_append_of_ne_nil _ hne]
    rfl

end Path

variable {d : String × List String} {t : FileTree}

namespace FileTree
open RegexCorpus.Path

variable {root : FileTree} {start xs ys way way' cwd : List String}
  {es : List (String × FileTree)} {path target name : String} {links : ℕ}
  {tree : Option FileTree}

theorem names_eq_filter (path : String) : names path = (Path.names path).filter (· != ".") := by
  rw [Path.names, ← filter_pieces, filter_filter, names, Text.splitOn]
  refine filter_congr fun n hn => ?_
  obtain ⟨p, hp, rfl⟩ := mem_map.mp hn
  have hroot : String.ofList p ≠ "/" := by
    intro he
    have hslash : '/' ∈ (String.ofList p).toList := by simp [he]
    exact Text.not_mem_of_mem_split hp (by simpa using hslash)
  rw [isName, bne_iff_ne.mpr hroot, Bool.and_true, Bool.and_comm]

theorem steps_join (hpath : path ≠ "") (hname : IsEntryName name) :
    steps (join path name) = names path ++ [name] := by
  obtain ⟨ps, hsplit, hps⟩ := splitOn_join hpath hname
  have hends : endsInFolder (join path name) = false := by
    rw [endsInFolder, hsplit, getLast?_concat]
    simp [hname.ne_empty, hname.ne_dot]
  have hslash : name ≠ "/" := by
    rintro rfl
    exact hname.no_slash (by simp)
  have hnames : names (join path name) = names path ++ [name] := by
    rw [names_eq_filter, names_eq_filter path, Path.names, ← filter_pieces, ← Text.splitOn, hsplit,
      filter_append, filter_append, hps]
    simp [isName, hname.ne_empty, hname.ne_dot, hslash]
  rw [steps, hends, hnames]
  simp

theorem names_dirname_join (hpath : path ≠ "") (hname : IsEntryName name) :
    names (dirname (join path name)) = names path := by
  obtain ⟨ps, hsplit, hps⟩ := splitOn_join hpath hname
  rw [names_eq_filter, names_eq_filter path, dirname, ← filter_directories, directories, hsplit,
    dropLast_concat, hps]

/-! ### Walks that go on -/

theorem advance_append_of_place (h : advance root start xs = .place way (some (folder es)))
    (ys : List String) : advance root start (xs ++ ys) = advance root way.reverse ys := by
  fun_induction advance root start xs with
  | case1 start =>
    obtain ⟨rfl, -⟩ := Arrival.place.inj h
    rw [reverse_reverse, nil_append]
  | case2 start rest ih | case3 start rest ih =>
    rw [cons_append, advance]
    exact ih h
  | case4 | case6 | case7 | case8 | case9 => cases h
  | case5 start name rest hdot hdots es hf ih =>
    rw [cons_append, advance_folder hdot hdots hf]
    exact ih h

theorem advance_append_of_link (h : advance root start xs = .link way target ys)
    (zs : List String) : advance root start (xs ++ zs) = .link way target (ys ++ zs) := by
  fun_induction advance root start xs with
  | case1 | case6 | case7 | case8 | case9 => cases h
  | case2 start rest ih | case3 start rest ih =>
    rw [cons_append, advance]
    exact ih h
  | case4 start name rest hdot hdots target hf =>
    cases h
    rw [cons_append, advance, hf]
    · exact hdot
    · exact hdots
  | case5 start name rest hdot hdots es hf ih =>
    rw [cons_append, advance_folder hdot hdots hf]
    exact ih h

theorem follow_append (h : follow root links start xs = .ok (way, some (folder es)))
    (hys : advance root way.reverse ys = .place way' tree) :
    follow root links start (xs ++ ys) = .ok (way', tree) := by
  fun_induction follow root links start xs with
  | case1 | case3 => cases h
  | case2 links start xs way tree' ha =>
    cases h
    rw [follow, advance_append_of_place ha, hys]
  | case4 links start xs stop target rest ha ih =>
    rw [follow, advance_append_of_link ha]
    dsimp only
    rw [← append_assoc]
    exact ih h

theorem advance_dot (h : root.find? way = tree) :
    advance root way.reverse ["."] = .place way tree := by
  rw [advance, advance, reverse_reverse, h]

/-- A last step that stays in place changes nothing where it can be made. -/
theorem advance_concat_dot (root : FileTree) (start xs : List String) :
    (∃ f, advance root start (xs ++ ["."]) = .fault f) ∨
      (∃ way target rest, advance root start xs = .link way target rest) ∨
      advance root start (xs ++ ["."]) = advance root start xs := by
  fun_induction advance root start xs with
  | case1 => exact .inr (.inr (by rw [nil_append, advance, advance]))
  | case2 start rest ih | case3 start rest ih =>
    rw [cons_append, advance]
    exact ih
  | case4 => exact .inr (.inl ⟨_, _, _, rfl⟩)
  | case5 start name rest hdot hdots es hf ih =>
    rw [cons_append, advance_folder hdot hdots hf]
    exact ih
  | case6 start name rest hdot hdots c hf _ | case7 start name rest hdot hdots c hf _
  | case8 start name rest hdot hdots hf _ | case9 start name rest hdot hdots hf _ =>
    left
    rw [cons_append, advance, hf]
    · exact ⟨_, if_neg (by simp)⟩
    · exact hdot
    · exact hdots

theorem follow_concat_dot_iff :
    follow root links start (xs ++ ["."]) = .ok (way, some (folder es)) ↔
      follow root links start xs = .ok (way, some (folder es)) := by
  constructor
  · intro h
    induction links generalizing start xs with
    | zero => cases h
    | succ links ih =>
      obtain ⟨f, ha⟩ | ⟨stop, target, rest, ha⟩ | ha := advance_concat_dot root start xs
      · rw [follow, ha] at h
        cases h
      · rw [follow, advance_append_of_link ha] at h
        dsimp only at h
        rw [← append_assoc] at h
        rw [follow, ha]
        exact ih h
      · rw [follow, ha] at h
        rw [follow]
        exact h
  · intro h
    exact follow_append h (advance_dot (find?_of_follow h))

theorem resolve_folder_iff :
    resolve root cwd path = .ok (way, some (folder es)) ↔
      path ≠ "" ∧ follow root (maxLinks + 1) (if isAbsolute path then [] else cwd.reverse)
        (names path) = .ok (way, some (folder es)) := by
  unfold resolve steps
  by_cases hempty : path = ""
  · simp [hempty]
  · rw [if_neg (by simpa using hempty), and_iff_right hempty]
    cases endsInFolder path
    · simp
    · exact follow_concat_dot_iff

theorem resolve_join (h : resolve root cwd path = .ok (way, some (folder es)))
    (hname : IsEntryName name) (hlink : NoLink root (way ++ [name])) :
    resolve root cwd (join path name) = .ok (way ++ [name], root.find? (way ++ [name])) := by
  obtain ⟨hpath, hfollow⟩ := resolve_folder_iff.mp h
  have hlast : (name :: way.reverse).reverse = way ++ [name] := by simp
  have hnext := advance_last hname.ne_dot hname.ne_dots (hlast ▸ hlink)
  rw [hlast] at hnext
  have hempty : ¬(join path name == "") = true := by
    simpa using join_ne_empty hpath hname.head?
  rw [resolve, if_neg hempty, isAbsolute_join hpath hname.head?, steps_join hpath hname]
  exact follow_append hfollow hnext

theorem resolve_dirname_join (h : resolve root cwd path = .ok (way, some (folder es)))
    (hname : IsEntryName name) :
    resolve root cwd (dirname (join path name)) = .ok (way, some (folder es)) := by
  obtain ⟨hpath, hfollow⟩ := resolve_folder_iff.mp h
  obtain ⟨hne, habs⟩ := dirname_begins (slash_mem_join hpath hname)
  rw [resolve_folder_iff, habs, isAbsolute_join hpath hname.head?, names_dirname_join hpath hname]
  exact ⟨hne, hfollow⟩

theorem resolve_of_isAbsolute (h : isAbsolute path = true) (cwd cwd' : List String) :
    resolve root cwd path = resolve root cwd' path := by
  rw [resolve, resolve, h]
  rfl

/-! ### The directories of a tree -/

theorem entries_induction {P : FileTree → Prop} (step : ∀ t, (∀ e ∈ t.entries, P e.2) → P t) :
    ∀ t, P t
  | file _ | link _ => step _ (by simp [ entries])
  | folder es => step _ fun e he => entries_induction step e.2
termination_by t => t
decreasing_by
  have := sizeOf_lt_of_mem (show e ∈ es from he)
  cases e
  simp_all
  omega

/-- The names in a folder are different, and such as can stand on a path. -/
def WellNamed (root : FileTree) : Prop :=
  ∀ way es, root.find? way = some (folder es) →
    (es.map Prod.fst).Nodup ∧ ∀ e ∈ es, IsEntryName e.1

theorem WellNamed.file (c : Content) : WellNamed (.file c)
  | [], _, h => by cases h
  | _ :: _, _, h => by cases h

theorem WellNamed.folder (hnodup : (es.map Prod.fst).Nodup)
    (hes : ∀ e ∈ es, IsEntryName e.1 ∧ WellNamed e.2) : WellNamed (.folder es)
  | [], _, h => by
    cases h
    exact ⟨hnodup, fun e he => (hes e he).1⟩
  | name :: way, es', h => by
    rw [find?_cons, Option.bind_eq_some_iff] at h
    obtain ⟨t, hentry, h⟩ := h
    obtain ⟨e, hfind, rfl⟩ := Option.map_eq_some_iff.mp hentry
    exact (hes e (mem_of_find?_eq_some hfind)).2 way es' h

theorem entry?_eq_some_iff (hnodup : (es.map Prod.fst).Nodup) :
    entry? (folder es) name = some t ↔ (name, t) ∈ es := by
  unfold entry? entries
  constructor
  · intro h
    obtain ⟨e, hfind, rfl⟩ := Option.map_eq_some_iff.mp h
    obtain rfl : e.1 = name := by simpa using find?_some hfind
    exact mem_of_find?_eq_some hfind
  · intro he
    induction es with
    | nil => cases he
    | cons e' es ih =>
      rw [map_cons, nodup_cons] at hnodup
      obtain rfl | he := mem_cons.mp he
      · simp
      · have hne : (e'.1 == name) = false := by
          rw [beq_eq_false_iff_ne]
          intro heq
          exact hnodup.1 (heq ▸ mem_map_of_mem he)
        rw [List.find?_cons, hne]
        exact ih hnodup.2 he

theorem find?_child (hroot : WellNamed root) (h : root.find? way = some (folder es))
    {e : String × FileTree} (he : e ∈ es) : root.find? (way ++ [e.1]) = some e.2 := by
  rw [find?_append, h, Option.bind_some, find?_cons,
    (entry?_eq_some_iff (hroot way es h).1).mpr he]
  rfl

variable {h : Host} {fits leads : String → Bool}

/-- Going on from a path never makes it shorter. -/
theorem fits_of_fits_join (hname : name.toList.head? ≠ some '/') (hfits : h.fits (join path name)) :
    h.fits path = true := by
  have hle : path.utf8ByteSize ≤ (join path name).utf8ByteSize := by
    rw [join, if_neg (by simpa using hname)]
    split_ifs <;> simp only [String.utf8ByteSize_append] <;> omega
  simp only [Host.fits, decide_eq_true_eq] at hfits ⊢
  exact hle.trans hfits

theorem fits_of_fits_joinAll (hway : ∀ n ∈ way, IsEntryName n)
    (hfits : h.fits (joinAll path way)) : h.fits path = true := by
  induction way generalizing path with
  | nil => exact hfits
  | cons n way ih =>
    rw [forall_mem_cons] at hway
    exact fits_of_fits_join hway.1.head? (ih hway.2 hfits)

theorem mem_walkEntries :
    d ∈ walkEntries fits leads path es ↔ ∃ e ∈ es, d ∈ walk fits leads (join path e.1) e.2 := by
  induction es with
  | nil => simp [walkEntries]
  | cons e es ih => simp [walkEntries, ih]

/-- A walk meets a directory whose path is not too long, and then what is in it. -/
theorem mem_walk_folder (hd : d ∈ walk fits leads path (folder es)) :
    fits path = true ∧ ((walk fits leads path (folder es)).head? = some d ∧ d.1 = path ∨
      ∃ e ∈ es, d ∈ walk fits leads (join path e.1) e.2) := by
  rw [walk] at hd ⊢
  split_ifs at hd ⊢ with hfits
  · refine ⟨hfits, (mem_cons.mp hd).imp (fun hd => ?_) mem_walkEntries.mp⟩
    rw [hd]
    exact ⟨rfl, rfl⟩
  · cases hd

/-- The directories of a walk are found by their paths, and a walk from there tells the same of
them. -/
theorem exists_of_mem_walk (hroot : WellNamed root)
    (hway : resolve root cwd path = .ok (way, some t)) (hd : d ∈ walk fits leads path t) :
    ∃ way' es', resolve root cwd d.1 = .ok (way', some (folder es')) ∧
      (walk fits leads d.1 (folder es')).head? = some d := by
  induction t using entries_induction generalizing path way with
  | step t ih =>
    cases t with
    | file | link => cases hd
    | folder es =>
      obtain ⟨-, ⟨hhead, hpath⟩ | ⟨⟨name, t⟩, he, hd⟩⟩ := mem_walk_folder hd
      · rw [hpath]
        exact ⟨way, es, hway, hhead⟩
      · have hfind := find?_of_resolve hway
        have hchild := find?_child hroot hfind he
        cases t with
        | file | link => cases hd
        | folder es' =>
          have hnext := resolve_join hway ((hroot way es hfind).2 _ he)
            (noLink_of_find? hchild (by simp))
          rw [hchild] at hnext
          exact ih _ he hnext hd

theorem isAbsolute_of_mem_walk (hpath : isAbsolute path = true) (hd : d ∈ walk fits leads path t) :
    isAbsolute d.1 = true := by
  induction t using entries_induction generalizing path with
  | step t ih =>
    cases t with
    | file | link => cases hd
    | folder es =>
      obtain ⟨-, ⟨-, hsame⟩ | ⟨e, he, hd⟩⟩ := mem_walk_folder hd
      · rwa [hsame]
      · exact ih e he (isAbsolute_join_left hpath e.1) hd

/-- What leads to a folder matters only below the path where the walk begins. -/
theorem walk_congr (fits : String → Bool) {leads' : String → Bool}
    (hleads : ∀ path, isAbsolute path = true → leads path = leads' path) (t : FileTree)
    (hpath : isAbsolute path = true) :
    walk fits leads path t = walk fits leads' path t ∧
      walkCalls fits leads path t = walkCalls fits leads' path t := by
  induction t using entries_induction generalizing path with
  | step t ih =>
    cases t with
    | file => exact ⟨rfl, rfl⟩
    | link =>
      rw [walkCalls, walkCalls, hleads path hpath]
      exact ⟨rfl, rfl⟩
    | folder es =>
      have hentries (es' : List (String × FileTree)) (hes : ∀ e ∈ es', e ∈ es) :
          walkEntries fits leads path es' = walkEntries fits leads' path es' ∧
            entriesCalls fits leads path es' = entriesCalls fits leads' path es' := by
        induction es' with
        | nil => exact ⟨rfl, rfl⟩
        | cons e es' ih' =>
          rw [forall_mem_cons] at hes
          obtain ⟨hwalk, hcalls⟩ := ih e hes.1 (isAbsolute_join_left hpath e.1)
          obtain ⟨hwalks, hothers⟩ := ih' hes.2
          rw [walkEntries, walkEntries, entriesCalls, entriesCalls, hwalk, hcalls, hwalks, hothers]
          exact ⟨rfl, rfl⟩
      obtain ⟨hwalks, hcalls⟩ := hentries es fun _ => id
      rw [walk, walk, walkCalls, walkCalls, hwalks, hcalls]
      simp only [hleads _ (isAbsolute_join_left hpath _), and_self]

end FileTree

namespace Host
open RegexCorpus.Path

variable {h h' : Host} {root name dir : String} {ds : List (String × List String)}

theorem leastDeep?_eq_none_iff {ps : List String} : leastDeep? ps = none ↔ ps = [] := by
  fun_cases leastDeep? ps <;> simp

theorem leastDeep?_spec {ps : List String} (hdir : leastDeep? ps = some dir) :
    ∃ before after, ps = before ++ dir :: after ∧ (∀ p ∈ before, depth dir < depth p) ∧
      ∀ p ∈ ps, depth dir ≤ depth p := by
  fun_induction leastDeep? ps generalizing dir with
  | case1 => cases hdir
  | case2 p ps other hrest hlt ih =>
    cases hdir
    obtain ⟨before, after, rfl, hfirst, hleast⟩ := ih hrest
    exact ⟨p :: before, after, rfl, forall_mem_cons.mpr ⟨hlt, hfirst⟩,
      forall_mem_cons.mpr ⟨hlt.le, hleast⟩⟩
  | case3 p ps other hrest hlt ih =>
    cases hdir
    obtain ⟨-, -, -, -, hleast⟩ := ih hrest
    refine ⟨[], ps, rfl, by simp, forall_mem_cons.mpr ⟨le_rfl, fun q hq => ?_⟩⟩
    exact (not_lt.mp hlt).trans (hleast q hq)
  | case4 p ps hrest _ =>
    cases hdir
    rw [leastDeep?_eq_none_iff.mp hrest]
    exact ⟨[], [], rfl, by simp, by simp⟩

/-- The place is one of the directories, it has a file of the name, and none that has one is
shallower. -/
def IsShallowest (h : Host) (ds : List (String × List String)) (name : String)
    (place : List String) : Prop :=
  ∃ d ∈ ds, name ∈ d.2 ∧ (∀ d' ∈ ds, name ∈ d'.2 → depth d.1 ≤ depth d'.1) ∧
    ∃ es, h.files.resolve h.cwd d.1 = .ok (place, some (.folder es))

theorem walk_eq_ok_iff :
    h.walk root = .ok ds ↔ h.walkCalls root ≤ h.room ∧
      (h.at? root).elim [] (·.walk h.fits h.leadsToFolder root) = ds := by
  unfold walk
  split_ifs with hroom <;> simp [hroom]

theorem exists_resolve_of_at? {path : String} (hat : h.at? path = some t) :
    ∃ way, h.files.resolve h.cwd path = .ok (way, some t) := by
  unfold at? at hat
  split at hat
  · rename_i way tree hresolve
    exact ⟨way, hat ▸ hresolve⟩
  · cases hat

theorem mem_walk (hwalk : h.walk root = .ok ds) :
    d ∈ ds ↔ ∃ way t, h.files.resolve h.cwd root = .ok (way, some t) ∧
      d ∈ t.walk h.fits h.leadsToFolder root := by
  rw [← (walk_eq_ok_iff.mp hwalk).2]
  unfold at?
  rcases h.files.resolve h.cwd root with f | ⟨way, _ | t⟩ <;> simp

theorem shallowest?_of_walk (hwalk : h.walk root = .ok ds) :
    h.shallowest? root name = .ok ((leastDeep? ((ds.filter fun d =>
      d.2.contains name).map Prod.fst)).map fun dir => dirname (join dir name)) := by
  rw [shallowest?, hwalk]
  rfl

theorem shallowest?_of_walk_error {f : Fault} (hwalk : h.walk root = .error f) :
    h.shallowest? root name = .error f := by
  rw [shallowest?, hwalk]
  rfl

theorem shallowest?_cases (hwalk : h.walk root = .ok ds)
    (hdir : h.shallowest? root name = .ok (some dir)) :
    ∃ d ∈ ds, name ∈ d.2 ∧ (∀ d' ∈ ds, name ∈ d'.2 → depth d.1 ≤ depth d'.1) ∧
      dir = dirname (join d.1 name) := by
  rw [shallowest?_of_walk hwalk, Except.ok.injEq] at hdir
  obtain ⟨path, hpath, rfl⟩ := Option.map_eq_some_iff.mp hdir
  obtain ⟨before, after, hps, -, hleast⟩ := leastDeep?_spec hpath
  obtain ⟨d, hd, rfl⟩ := mem_map.mp (hps ▸ mem_append_right before mem_cons_self)
  rw [mem_filter, contains_iff_mem] at hd
  refine ⟨d, hd.1, hd.2, fun d' hd' hname' => ?_, rfl⟩
  exact hleast d'.1 (mem_map_of_mem (mem_filter.mpr ⟨hd', by simpa using hname'⟩))

theorem shallowest?_eq_none_iff (hwalk : h.walk root = .ok ds) :
    h.shallowest? root name = .ok none ↔ ∀ d ∈ ds, name ∉ d.2 := by
  rw [shallowest?_of_walk hwalk, Except.ok.injEq, Option.map_eq_none_iff, leastDeep?_eq_none_iff]
  simp

theorem exists_walk (hdir : h.shallowest? root name = .ok (some dir)) :
    ∃ ds, h.walk root = .ok ds := by
  cases hwalk : h.walk root with
  | ok ds => exact ⟨ds, rfl⟩
  | error f =>
    rw [shallowest?_of_walk_error hwalk] at hdir
    cases hdir

theorem resolve_shallowest? (hfiles : h.files.WellNamed) (hname : IsEntryName name)
    (hwalk : h.walk root = .ok ds) (hdir : h.shallowest? root name = .ok (some dir)) :
    ∃ place es, h.files.resolve h.cwd dir = .ok (place, some (.folder es)) ∧
      h.IsShallowest ds name place := by
  obtain ⟨d, hd, hmem, hleast, rfl⟩ := shallowest?_cases hwalk hdir
  obtain ⟨way, t, hroot, hmet⟩ := (mem_walk hwalk).mp hd
  obtain ⟨place, es, hplace, -⟩ := exists_of_mem_walk hfiles hroot hmet
  exact ⟨place, es, resolve_dirname_join hplace hname, d, hd, hmem, hleast, es, hplace⟩

theorem isAbsolute_shallowest? (hroot : isAbsolute root = true)
    (hdir : h.shallowest? root name = .ok (some dir)) (hname : IsEntryName name) :
    isAbsolute dir = true := by
  obtain ⟨ds, hwalk⟩ := exists_walk hdir
  obtain ⟨d, hd, -, -, rfl⟩ := shallowest?_cases hwalk hdir
  obtain ⟨way, t, -, hmet⟩ := (mem_walk hwalk).mp hd
  have habs := isAbsolute_of_mem_walk hroot hmet
  have hne : d.1 ≠ "" := by
    intro hempty
    rw [hempty] at habs
    cases habs
  rw [(dirname_begins (slash_mem_join hne hname)).2, isAbsolute_join hne hname.head?, habs]

theorem shallowest?_of_isAbsolute (hroot : isAbsolute root = true) (h : Host)
    (cwd : List String) : { h with cwd }.shallowest? root name = h.shallowest? root name := by
  have hat (path : String) (hpath : isAbsolute path = true) :
      { h with cwd }.at? path = h.at? path := by
    rw [at?, at?, resolve_of_isAbsolute hpath cwd h.cwd]
  have hleads (path : String) (hpath : isAbsolute path = true) :
      { h with cwd }.leadsToFolder path = h.leadsToFolder path := by
    rw [leadsToFolder, leadsToFolder, isFolder, isFolder, hat path hpath]
    rfl
  have hwalk : { h with cwd }.walk root = h.walk root := by
    rw [walk, walk, walkCalls, walkCalls, hat root hroot]
    cases h.at? root with
    | none => rfl
    | some tree =>
      obtain ⟨hsame, hcalls⟩ := walk_congr h.fits hleads tree hroot
      change (if tree.walkCalls h.fits _ root ≤ h.room then Except.ok (tree.walk h.fits _ root)
        else _) = _
      rw [hsame, hcalls]
      rfl
  rw [shallowest?, shallowest?, hwalk]

end Host
end RegexCorpus
