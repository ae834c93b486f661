import RegexCorpus.Proofs.Path
import Mathlib.Logic.Function.Iterate

/-!
# Paths cut and joined

Cutting off the last component ends at the root or at nothing, except on paths that begin with two
slashes. Where it ends, joining the components gives the path back, and components that are names
are found again on the path that is joined of them.
-/

namespace RegexCorpus.Path
open List

variable {path name : String} {cs : List String}

/-! ### Cutting down to the root -/

theorem componentsFrom_mono {fuel fuel' : ℕ} {found : List String} (hfuel : fuel ≤ fuel')
    (h : componentsFrom fuel path found = some cs) : componentsFrom fuel' path found = some cs := by
  induction fuel generalizing fuel' path found with
  | zero => cases h
  | succ fuel ih =>
    obtain ⟨fuel', rfl⟩ : ∃ n, fuel' = n + 1 := ⟨fuel' - 1, by omega⟩
    by_cases hempty : path = ""
    · rw [hempty] at h ⊢
      exact h
    · by_cases hroot : path = "/"
      · rw [hroot] at h ⊢
        exact h
      · rw [componentsFrom_succ hempty hroot] at h ⊢
        exact ih (by omega) h

theorem components?_split (hempty : path ≠ "") (hroot : path ≠ "/") :
    components? path = (components? (dirname path)).map (· ++ [basename path]) := by
  by_cases htwice : BeginsTwice path
  · rw [components?_eq_none_iff.mpr htwice,
      components?_eq_none_iff.mpr (show BeginsTwice (dirname path) from beginsTwice_head htwice)]
    rfl
  · have hlt : (dirname path).length < path.length := length_split_lt hempty hroot htwice
    obtain ⟨cs, hcs⟩ : ∃ cs, components? (dirname path) = some cs :=
      exists_components (not_beginsTwice_head htwice)
    have hmore : componentsFrom (path.length + 1) (dirname path) [] = some cs :=
      componentsFrom_mono (by omega) hcs
    rw [components?, componentsFrom_succ hempty hroot, ← nil_append [(split path).2],
      componentsFrom_append, hcs]
    exact congrArg (Option.map _) hmore

theorem beginsTwice_iterate (h : BeginsTwice path) (n : ℕ) : BeginsTwice (dirname^[n] path) := by
  induction n with
  | zero => exact h
  | succ n ih =>
    rw [Function.iterate_succ_apply']
    exact beginsTwice_head ih

theorem iterate_dirname_ne (h : BeginsTwice path) (n : ℕ) :
    ¬(dirname^[n] path = "" ∨ dirname^[n] path = "/") := by
  have hstill := beginsTwice_iterate h n
  rintro (hn | hn) <;> simp [BeginsTwice, hn] at hstill

theorem exists_iterate_dirname (h : ¬BeginsTwice path) :
    ∃ n ≤ path.length, dirname^[n] path = "" ∨ dirname^[n] path = "/" := by
  induction hlength : path.length using Nat.strong_induction_on generalizing path with
  | _ length ih =>
    by_cases hend : path = "" ∨ path = "/"
    · exact ⟨0, Nat.zero_le _, hend⟩
    · rw [not_or] at hend
      have hlt : (dirname path).length < length := hlength ▸ length_split_lt hend.1 hend.2 h
      have hhead : ¬BeginsTwice (dirname path) := not_beginsTwice_head h
      obtain ⟨n, hn, hroot⟩ := ih _ hlt hhead rfl
      exact ⟨n + 1, by omega, by rwa [Function.iterate_succ_apply]⟩

/-- Cutting off last components ends at the root or at nothing exactly when the path does not begin
with two slashes. Then there are no more cuts than characters, and the path has components; otherwise
no number of cuts is enough. -/
theorem iterate_dirname_ends_iff (path : String) :
    ((∃ n, dirname^[n] path = "" ∨ dirname^[n] path = "/") ↔ ¬BeginsTwice path) ∧
      (¬BeginsTwice path →
        (∃ n ≤ path.length, dirname^[n] path = "" ∨ dirname^[n] path = "/") ∧
          ∃ cs, components? path = some cs) ∧
      (BeginsTwice path → ∀ fuel, componentsFrom fuel path [] = none) := by
  refine ⟨⟨?_, fun h => ?_⟩, fun h => ⟨exists_iterate_dirname h, exists_components h⟩,
    fun h fuel => componentsFrom_of_beginsTwice h fuel []⟩
  · rintro ⟨n, hn⟩ htwice
    exact iterate_dirname_ne htwice n hn
  · obtain ⟨n, -, hn⟩ := exists_iterate_dirname h
    exact ⟨n, hn⟩

/-- From two slashes there is no way to the root. -/
theorem iterate_dirname_slashes : ¬∃ n, dirname^[n] "//" = "" ∨ dirname^[n] "//" = "/" := by
  rintro ⟨n, hn⟩
  exact iterate_dirname_ne (by decide) n hn

/-! ### Joining -/

/-- Components joined to a path, which takes at least one. -/
def joined? : List String → Option String
  | [] => none
  | first :: rest => some (joinAll first rest)

theorem joined?_concat (h : joined? cs = some path) (name : String) :
    joined? (cs ++ [name]) = some (join path name) := by
  cases cs with
  | nil => cases h
  | cons first rest =>
    obtain rfl := Option.some.inj h
    exact congrArg some foldl_append

/-- The text is a component that stands between slashes. -/
structure IsComponent (name : String) : Prop where
  ne_empty : name ≠ ""
  no_slash : '/' ∉ name.toList

/-- A path to which a slash is put before a component is joined. -/
def IsOpen (path : String) : Prop := path ≠ "" ∧ path.toList.getLast? ≠ some '/'

theorem IsComponent.isOpen (h : IsComponent name) : IsOpen name :=
  ⟨h.ne_empty, fun hlast => h.no_slash (mem_of_getLast? hlast)⟩

theorem IsComponent.head? (h : IsComponent name) : name.toList.head? ≠ some '/' :=
  fun hhead => h.no_slash (mem_of_mem_head? hhead)

theorem toList_join (hpath : IsOpen path) (hname : name.toList.head? ≠ some '/') :
    (join path name).toList = path.toList ++ '/' :: name.toList := by
  obtain ⟨xs, hxs, hjoin⟩ := exists_join_eq hpath.1
  rw [hjoin name hname]
  rcases hxs with hxs | ⟨hxs, -⟩
  · exact absurd (by simp [hxs]) hpath.2
  · rw [hxs]

theorem toList_join_root (hname : name.toList.head? ≠ some '/') :
    (join "/" name).toList = '/' :: name.toList := by
  rw [join, if_neg (by simpa using hname)]
  simp

/-- The last slash is taken off a path that goes on before it. -/
theorem trimHead_concat {xs : List Char} (hxs : xs ≠ []) (hlast : xs.getLast? ≠ some '/') :
    trimHead (xs ++ ['/']) = xs := by
  have hend : ¬(xs.getLast hxs == '/') = true := by
    rw [getLast?_eq_some_getLast hxs] at hlast
    simpa using hlast
  have hall : ((xs ++ ['/']).all (· == '/')) = false := by
    rw [all_eq_false]
    exact ⟨_, mem_append_left _ (getLast_mem hxs), hend⟩
  rw [trimHead, hall]
  exact (rdropWhile_concat_pos _ _ _ rfl).trans (rdropWhile_eq_self_iff.mpr fun _ => hend)

theorem split_of_toList {xs tail : List Char} (hpath : path.toList = xs ++ '/' :: tail)
    (htail : '/' ∉ tail) :
    split path = (String.ofList (trimHead (xs ++ ['/'])), String.ofList tail) := by
  rw [split, hpath, cut_append xs htail]

theorem split_join (hpath : IsOpen path ∨ path = "/") (hname : IsComponent name) :
    split (join path name) = (path, name) := by
  rcases hpath with hpath | rfl
  · rw [split_of_toList (toList_join hpath hname.head?) hname.no_slash,
      trimHead_concat (by simpa using hpath.1) hpath.2, String.ofList_toList, String.ofList_toList]
  · have hlist : (join "/" name).toList = [] ++ '/' :: name.toList := toList_join_root hname.head?
    rw [split_of_toList hlist hname.no_slash, String.ofList_toList]
    rfl

theorem isOpen_join (hpath : path ≠ "") (hname : IsComponent name) : IsOpen (join path name) := by
  obtain ⟨xs, -, hjoin⟩ := exists_join_eq hpath
  refine ⟨join_ne_empty hpath hname.head?, ?_⟩
  rw [hjoin name hname.head?, append_cons, getLast?_append_of_ne_nil _ (by simpa using hname.ne_empty)]
  exact hname.isOpen.2

theorem components?_join (hpath : IsOpen path ∨ path = "/") (hname : IsComponent name) :
    components? (join path name) = (components? path).map (· ++ [name]) := by
  have hne : path ≠ "" := hpath.elim And.left (by rintro rfl; decide)
  have hopen := isOpen_join hne hname
  have hroot : join path name ≠ "/" := fun h => hopen.2 (by rw [h]; rfl)
  rw [components?_split hopen.1 hroot, dirname, basename, split_join hpath hname]

theorem components?_name (hname : IsComponent name) : components? name = some [name] := by
  have hroot : name ≠ "/" := by
    rintro rfl
    exact hname.no_slash (by simp)
  obtain ⟨hsplit, -⟩ | ⟨xs, hxs, -⟩ := split_cases name
  · rw [components?_split hname.ne_empty hroot, dirname, basename, hsplit]
    rfl
  · exact absurd (by simp [hxs]) hname.no_slash

theorem exists_joined {start names : List String} (hstart : start = [] ∨ start = ["/"])
    (hnames : ∀ n ∈ names, IsComponent n) (hne : start ++ names ≠ []) :
    ∃ path, joined? (start ++ names) = some path ∧ (IsOpen path ∨ path = "/") ∧
      components? path = some (start ++ names) := by
  induction names using List.reverseRecOn with
  | nil =>
    rcases hstart with rfl | rfl
    · exact absurd rfl hne
    · exact ⟨"/", rfl, .inr rfl, rfl⟩
  | append_singleton names name ih =>
    rw [forall_mem_append, forall_mem_singleton] at hnames
    obtain ⟨hbefore, hname⟩ := hnames
    rw [← append_assoc]
    by_cases hnil : start ++ names = []
    · rw [hnil, nil_append]
      exact ⟨name, rfl, .inl hname.isOpen, components?_name hname⟩
    · obtain ⟨path, hjoined, hpath, hcomponents⟩ := ih hbefore hnil
      have hempty : path ≠ "" := hpath.elim And.left (by rintro rfl; decide)
      refine ⟨join path name, joined?_concat hjoined name, .inl (isOpen_join hempty hname), ?_⟩
      rw [components?_join hpath hname, hcomponents]
      rfl

/-! ### Paths without two slashes in a row -/

theorem join_split (hslash : '/' ∈ path.toList) (h : ¬['/', '/'] <:+: path.toList) :
    dirname path ≠ "" ∧ join (dirname path) (basename path) = path := by
  obtain ⟨-, hnone⟩ | ⟨xs, hpath, htail, hhead⟩ := split_cases path
  · exact absurd hslash hnone
  · have hname : (basename path).toList.head? ≠ some '/' := fun hf => htail (mem_of_mem_head? hf)
    have hback : path.toList = xs ++ '/' :: (basename path).toList := hpath
    by_cases hxs : xs = []
    · rw [hxs] at hhead hback
      have hroot : dirname path = "/" := String.toList_injective hhead
      rw [hroot]
      refine ⟨by decide, String.toList_injective ?_⟩
      rw [toList_join_root hname, hback]
      rfl
    · have hlast : xs.getLast? ≠ some '/' := by
        intro hlast
        obtain ⟨ys, rfl⟩ := getLast?_eq_some_iff.mp hlast
        exact h ⟨ys, (basename path).toList, by rw [hback]; simp⟩
      have hdir : (dirname path).toList = xs := hhead.trans (trimHead_concat hxs hlast)
      have hopen : IsOpen (dirname path) := by
        refine ⟨?_, hdir ▸ hlast⟩
        intro hempty
        rw [hempty] at hdir
        exact hxs hdir.symm
      refine ⟨hopen.1, String.toList_injective ?_⟩
      rw [toList_join hopen hname, hdir, hback]

theorem exists_components_joined (hempty : path ≠ "") (h : ¬['/', '/'] <:+: path.toList) :
    ∃ cs, components? path = some cs ∧ joined? cs = some path := by
  induction hlength : path.length using Nat.strong_induction_on generalizing path with
  | _ length ih =>
    by_cases hroot : path = "/"
    · rw [hroot]
      exact ⟨["/"], rfl, rfl⟩
    · by_cases hslash : '/' ∈ path.toList
      · obtain ⟨hdir, hjoin⟩ := join_split hslash h
        have htwice : ¬BeginsTwice path := fun ht => h ht.isInfix
        have hlt : (dirname path).length < length := hlength ▸ length_split_lt hempty hroot htwice
        have hhead : ¬['/', '/'] <:+: (dirname path).toList := fun hi =>
          h (hi.trans (isPrefix_head path).isInfix)
        obtain ⟨cs, hcs, hjoined⟩ := ih _ hlt hdir hhead rfl
        refine ⟨cs ++ [basename path], ?_, ?_⟩
        · rw [components?_split hempty hroot, hcs]
          rfl
        · rw [joined?_concat hjoined, hjoin]
      · exact ⟨[path], components?_name ⟨hempty, hslash⟩, rfl⟩

/-- Components that are not empty and hold no slash are found again on the path that is joined of
them, with the root before them or without it. A path that is not empty and has no two slashes in a
row is joined of its components, also when it ends in a slash. -/
theorem components?_joined? :
    (∀ start names : List String, start = [] ∨ start = ["/"] → names ≠ [] →
      (∀ n ∈ names, n ≠ "" ∧ '/' ∉ n.toList) →
        ∃ path, joined? (start ++ names) = some path ∧
          components? path = some (start ++ names)) ∧
    ∀ path : String, path ≠ "" → ¬['/', '/'] <:+: path.toList →
      ∃ cs, components? path = some cs ∧ joined? cs = some path := by
  refine ⟨fun start names hstart hne hnames => ?_, fun path => exists_components_joined⟩
  obtain ⟨path, hjoined, -, hcomponents⟩ :=
    exists_joined hstart (fun n hn => ⟨(hnames n hn).1, (hnames n hn).2⟩) (by simp [hne])
  exact ⟨path, hjoined, hcomponents⟩

theorem components?_joined?_slash :
    (∃ path, joined? (["/"] ++ ["tmp", "..", "a b"]) = some path ∧
      components? path = some ["/", "tmp", "..", "a b"]) ∧
    ∃ cs, components? "/tmp/a/" = some cs ∧ joined? cs = some "/tmp/a/" :=
  ⟨components?_joined?.1 ["/"] _ (.inr rfl) (by decide) (by decide),
    components?_joined?.2 "/tmp/a/" (by decide) (by decide)⟩

/-- A path without components cannot be put together again. -/
theorem components?_empty : ¬∃ cs, components? "" = some cs ∧ joined? cs = some "" := by
  rintro ⟨cs, hcs, hjoined⟩
  cases hcs
  cases hjoined

end RegexCorpus.Path
