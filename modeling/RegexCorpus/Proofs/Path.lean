import RegexCorpus.Path
import Mathlib.Data.List.DropRight
import Mathlib.Data.List.Infix

/-!
# Components of a path

A path is cut at its last slash, then its head is cut in the same way, until the root is left or
nothing is. Apart from the root and from empty components this gives the pieces between slashes.
-/

namespace RegexCorpus
open List Text

/-! ### Pieces -/

namespace Text

variable {sep : Char}
variable {cs : List Char}

theorem splitFrom_append (piece xs ys : List Char) :
    splitFrom sep piece (xs ++ sep :: ys) = splitFrom sep piece xs ++ split sep ys := by
  induction xs generalizing piece with
  | nil => simp [splitFrom, split]
  | cons c xs ih =>
    by_cases hc : c = sep
    · simp [splitFrom, hc, ih]
    · simp [splitFrom, hc, ih]

theorem split_append (xs ys : List Char) :
    split sep (xs ++ sep :: ys) = split sep xs ++ split sep ys :=
  splitFrom_append [] xs ys

theorem splitFrom_of_not_mem (h : sep ∉ cs) (piece : List Char) :
    splitFrom sep piece cs = [piece.reverse ++ cs] := by
  induction cs generalizing piece with
  | nil => simp [splitFrom]
  | cons c cs ih =>
    rw [mem_cons, not_or] at h
    have hc : (c == sep) = false := by simpa using Ne.symm h.1
    simp [splitFrom, hc, ih h.2]

theorem split_of_not_mem (h : sep ∉ cs) : split sep cs = [cs] :=
  splitFrom_of_not_mem h []

theorem not_mem_of_mem_splitFrom {piece p : List Char} (hpiece : sep ∉ piece)
    (hp : p ∈ splitFrom sep piece cs) : sep ∉ p := by
  induction cs generalizing piece with
  | nil =>
    obtain rfl : p = piece.reverse := by simpa [splitFrom] using hp
    simpa using hpiece
  | cons c cs ih =>
    by_cases hc : c = sep
    · simp only [splitFrom, hc, beq_self_eq_true, if_true, mem_cons] at hp
      rcases hp with rfl | hp
      · simpa using hpiece
      · exact ih (by simp) hp
    · simp only [splitFrom, beq_eq_false_iff_ne.mpr hc, Bool.false_eq_true, if_false] at hp
      exact ih (by simp [hpiece, Ne.symm hc]) hp

theorem not_mem_of_mem_split {p : List Char} (h : p ∈ split sep cs) : sep ∉ p :=
  not_mem_of_mem_splitFrom (by simp) h

theorem splitOn_ne_nil (c : Char) (s : String) : splitOn c s ≠ [] := by
  have hsplit (piece cs : List Char) : splitFrom c piece cs ≠ [] := by
    fun_induction splitFrom c piece cs with
    | case1 | case2 => simp
    | case3 _ _ _ _ ih => exact ih
  rw [splitOn, Ne, map_eq_nil_iff]
  exact hsplit [] s.toList

def fullPieces (sep : Char) (cs : List Char) : List (List Char) :=
  (split sep cs).filter (!·.isEmpty)

theorem fullPieces_append (xs ys : List Char) :
    fullPieces sep (xs ++ sep :: ys) = fullPieces sep xs ++ fullPieces sep ys := by
  rw [fullPieces, split_append, filter_append]
  rfl

/-- Separators at the end bring in nothing but empty pieces. -/
theorem fullPieces_append_seps (xs : List Char) {ys : List Char} (h : ∀ c ∈ ys, c = sep) :
    fullPieces sep (xs ++ ys) = fullPieces sep xs := by
  induction ys generalizing xs with
  | nil => rw [append_nil]
  | cons c ys ih =>
    rw [forall_mem_cons] at h
    obtain ⟨rfl, h⟩ := h
    have hsep : fullPieces c (xs ++ [c]) = fullPieces c xs := by
      rw [fullPieces_append]
      exact append_nil _
    rw [append_cons, ih _ h, hsep]

end Text

namespace Path
open Text (fullPieces fullPieces_append fullPieces_append_seps)

variable {path root rel : String}

/-! ### The last slash -/

theorem ne_slash_of_mem_reverse {cs : List Char} (h : '/' ∉ cs) :
    ∀ c ∈ cs.reverse, (c != '/') = true := by
  intro c hc
  rw [mem_reverse] at hc
  simpa using ne_of_mem_of_not_mem hc h

theorem cut_of_not_mem {cs : List Char} (h : '/' ∉ cs) : cut cs = ([], cs) := by
  have htail : (cs.reverse.takeWhile (· != '/')).reverse = cs := by
    rw [takeWhile_eq_self_iff.mpr (ne_slash_of_mem_reverse h), reverse_reverse]
  simp [cut, htail]

theorem cut_append (xs : List Char) {tail : List Char} (h : '/' ∉ tail) :
    cut (xs ++ '/' :: tail) = (xs ++ ['/'], tail) := by
  have htail : ((xs ++ '/' :: tail).reverse.takeWhile (· != '/')).reverse = tail := by
    have hreverse : (xs ++ '/' :: tail).reverse = tail.reverse ++ '/' :: xs.reverse := by simp
    rw [hreverse, takeWhile_append_of_pos (ne_slash_of_mem_reverse h)]
    simp
  have hlength : (xs ++ '/' :: tail).length - tail.length = (xs ++ ['/']).length := by
    simp only [length_append, length_cons, length_nil]
    omega
  have htake : (xs ++ '/' :: tail).take (xs ++ ['/']).length = xs ++ ['/'] := by
    rw [append_cons xs '/' tail, take_left' rfl]
  rw [cut, htail, hlength, htake]

/-- Characters without a slash, or what stands before the last slash and what stands behind it. -/
theorem slash_cases (cs : List Char) :
    '/' ∉ cs ∨ ∃ xs tail, cs = xs ++ '/' :: tail ∧ '/' ∉ tail := by
  by_cases h : '/' ∈ cs
  · right
    obtain ⟨ys, zs, hys, hnot⟩ := eq_append_cons_of_mem (mem_reverse.mpr h)
    refine ⟨zs.reverse, ys.reverse, ?_, by simpa using hnot⟩
    have hcs := congrArg List.reverse hys
    simpa using hcs
  · exact .inl h

theorem isPrefix_trimHead (head : List Char) : trimHead head <+: head := by
  unfold trimHead
  split_ifs
  · exact prefix_rfl
  · exact rdropWhile_prefix (· == '/') head

theorem fullPieces_trimHead (head : List Char) :
    fullPieces '/' (trimHead head) = fullPieces '/' head := by
  unfold trimHead
  split_ifs
  · rfl
  · have hslashes : ∀ c ∈ head.rtakeWhile (· == '/'), c = '/' := by
      intro c hc
      simpa using mem_rtakeWhile_imp hc
    have htrim := fullPieces_append_seps (head.rdropWhile (· == '/')) hslashes
    rw [rdropWhile_append_rtakeWhile] at htrim
    exact htrim.symm

/-! ### Head and last component -/

theorem toList_head (path : String) : (split path).1.toList = trimHead (cut path.toList).1 := by
  simp [split]

theorem toList_tail (path : String) : (split path).2.toList = (cut path.toList).2 := by
  simp [split]

/-- A path is its last component alone, or something with a slash before its last component. -/
theorem split_cases (path : String) :
    (split path = ("", path) ∧ '/' ∉ path.toList) ∨
      ∃ xs, path.toList = xs ++ '/' :: (split path).2.toList ∧ '/' ∉ (split path).2.toList ∧
        (split path).1.toList = trimHead (xs ++ ['/']) := by
  obtain h | ⟨xs, tail, hpath, htail⟩ := slash_cases path.toList
  · left
    simp [split, cut_of_not_mem h, trimHead, h]
  · right
    have hcut : cut path.toList = (xs ++ ['/'], tail) := by rw [hpath, cut_append xs htail]
    refine ⟨xs, ?_, ?_, ?_⟩
    · rw [toList_tail, hcut, hpath]
    · rwa [toList_tail, hcut]
    · rw [toList_head, hcut]

theorem not_slash_mem_tail (path : String) : '/' ∉ (split path).2.toList := by
  obtain ⟨hsplit, hpath⟩ | ⟨_, -, htail, -⟩ := split_cases path
  · rwa [hsplit]
  · exact htail

theorem isPrefix_head (path : String) : (split path).1.toList <+: path.toList := by
  obtain ⟨hsplit, -⟩ | ⟨xs, hpath, -, hhead⟩ := split_cases path
  · simp [hsplit]
  · have hfirst : xs ++ ['/'] <+: path.toList := ⟨(split path).2.toList, by simp [← hpath]⟩
    rw [hhead]
    exact (isPrefix_trimHead _).trans hfirst

/-- Two slashes or more stand at the front. -/
def BeginsTwice (path : String) : Prop := ['/', '/'] <+: path.toList

instance (path : String) : Decidable (BeginsTwice path) :=
  inferInstanceAs (Decidable (['/', '/'] <+: path.toList))

/-- The slash at the end is taken off, unless all are slashes. -/
theorem length_trimHead_lt {xs : List Char} (h : ¬∀ c ∈ xs, c = '/') :
    (trimHead (xs ++ ['/'])).length < (xs ++ ['/']).length := by
  have hall : ((xs ++ ['/']).all (· == '/')) = false := by
    simpa using h
  have hdrop : trimHead (xs ++ ['/']) = xs.rdropWhile (· == '/') := by
    rw [trimHead, hall]
    exact rdropWhile_concat_pos _ _ _ rfl
  rw [hdrop, length_append, length_singleton]
  exact Nat.lt_succ_of_le ( rdropWhile_prefix _ _).length_le

/-- A path without two slashes at the front is longer than its head, unless it is the root or
empty. -/
theorem length_split_lt (hempty : path ≠ "") (hroot : path ≠ "/") (htwice : ¬BeginsTwice path) :
    (split path).1.length < path.length := by
  rw [← String.length_toList, ← String.length_toList]
  obtain ⟨hsplit, -⟩ | ⟨xs, hpath, -, hhead⟩ := split_cases path
  · rw [hsplit]
    simpa [String.length_toList, Nat.pos_iff_ne_zero] using hempty
  · have hlength : path.toList.length = (xs ++ ['/']).length + (split path).2.toList.length := by
      rw [hpath, append_cons, length_append]
    rw [hhead, hlength]
    by_cases hall : ∀ c ∈ xs, c = '/'
    · cases xs with
      | nil =>
        -- the root is the head, and something follows it
        have htail : (split path).2.toList ≠ [] := by
          intro hnil
          rw [hnil] at hpath
          exact hroot (String.toList_injective hpath)
        have hpos := length_pos_iff.mpr htail
        simpa [trimHead] using hpos
      | cons c xs =>
        rw [forall_mem_cons] at hall
        refine absurd ?_ htwice
        rw [BeginsTwice, hpath, hall.1]
        cases xs with
        | nil => exact ⟨_, rfl⟩
        | cons d xs =>
          rw [hall.2 d (by simp)]
          exact ⟨_, rfl⟩
    · have hlt := length_trimHead_lt hall
      omega

/-! ### All components -/

theorem not_beginsTwice_head (h : ¬BeginsTwice path) : ¬BeginsTwice (split path).1 :=
  fun hhead => h (hhead.trans (isPrefix_head path))

theorem componentsFrom_succ (hempty : path ≠ "") (hroot : path ≠ "/") (fuel : ℕ)
    (found : List String) :
    componentsFrom (fuel + 1) path found =
      componentsFrom fuel (split path).1 ((split path).2 :: found) := by
  rw [componentsFrom, if_neg (by simpa using hempty), if_neg (by simpa using hroot)]

theorem exists_componentsFrom {fuel : ℕ} (hfuel : path.length < fuel) (h : ¬BeginsTwice path)
    (found : List String) : ∃ cs, componentsFrom fuel path found = some cs := by
  -- each cut shortens the path, so that the fuel outlasts it
  induction fuel generalizing path found with
  | zero => omega
  | succ fuel ih =>
    by_cases hempty : path = ""
    · exact ⟨found, by rw [hempty]; rfl⟩
    · by_cases hroot : path = "/"
      · exact ⟨"/" :: found, by rw [hroot]; rfl⟩
      · have hlt := length_split_lt hempty hroot h
        rw [componentsFrom_succ hempty hroot]
        exact ih (by omega) (not_beginsTwice_head h) _

theorem exists_components (h : ¬BeginsTwice path) : ∃ cs, components? path = some cs :=
  exists_componentsFrom (by omega) h []

/-- Two slashes at the front are never cut off. -/
theorem beginsTwice_head (h : BeginsTwice path) : BeginsTwice (split path).1 := by
  obtain ⟨-, hpath⟩ | ⟨xs, hpath, htail, hhead⟩ := split_cases path
  · exact absurd (h.subset (by simp)) hpath
  · have hfirst : ['/', '/'] <+: xs ++ ['/'] := by
      rw [BeginsTwice, hpath] at h
      rcases xs with _ | ⟨c, _ | ⟨d, xs⟩⟩
      · -- the path would have one slash only
        have hslash : ['/'] <+: (split path).2.toList := (cons_prefix_cons.mp h).2
        exact absurd (hslash.subset (by simp)) htail
      · rw [← (cons_prefix_cons.mp h).1]
        exact prefix_rfl
      · obtain ⟨rfl, hd⟩ := cons_prefix_cons.mp h
        obtain ⟨rfl, -⟩ := cons_prefix_cons.mp hd
        exact ⟨xs ++ ['/'], rfl⟩
    rw [BeginsTwice, hhead]
    unfold trimHead
    split_ifs with hall
    · exact hfirst
    · -- what is left ends with another character, so it is longer than the two slashes
      have hnonempty : (xs ++ ['/']).rdropWhile (· == '/') ≠ [] := by
        rw [Ne, rdropWhile_eq_nil_iff]
        simpa using hall
      rcases prefix_or_prefix_of_prefix hfirst ( rdropWhile_prefix (· == '/') _) with
        hlong | hshort
      · exact hlong
      · have hlast := hshort.subset (getLast_mem hnonempty)
        exact absurd (by simpa using hlast) (rdropWhile_last_not _ _ hnonempty)

theorem componentsFrom_of_beginsTwice (h : BeginsTwice path) (fuel : ℕ) (found : List String) :
    componentsFrom fuel path found = none := by
  induction fuel generalizing path found with
  | zero => rfl
  | succ fuel ih =>
    have hempty : path ≠ "" := by
      rintro rfl
      simp [BeginsTwice] at h
    have hroot : path ≠ "/" := by
      rintro rfl
      simp [BeginsTwice] at h
    rw [componentsFrom_succ hempty hroot]
    exact ih (beginsTwice_head h) _

theorem components?_eq_none_iff : components? path = none ↔ BeginsTwice path := by
  constructor
  · intro hnone
    by_contra h
    obtain ⟨cs, hcs⟩ := exists_components h
    rw [hnone] at hcs
    cases hcs
  · exact fun h => componentsFrom_of_beginsTwice h _ []

theorem componentsFrom_append (fuel : ℕ) (path : String) (found more : List String) :
    componentsFrom fuel path (found ++ more) =
      (componentsFrom fuel path found).map (· ++ more) := by
  induction fuel generalizing path found with
  | zero => rfl
  | succ fuel ih =>
    by_cases hempty : path = ""
    · rw [hempty]
      rfl
    · by_cases hroot : path = "/"
      · rw [hroot]
        rfl
      · rw [componentsFrom_succ hempty hroot, componentsFrom_succ hempty hroot]
        exact ih _ (_ :: found)

/-- A component that names something: neither the root nor empty. -/
def isName (c : String) : Bool := c != "" && c != "/"

/-- The names on a path: the pieces between its slashes, empty ones aside. -/
def names (path : String) : List String := (fullPieces '/' path.toList).map String.ofList

/-- A text without slashes is a name, unless it is empty. -/
theorem names_of_not_mem {c : String} (h : '/' ∉ c.toList) : names c = [c].filter isName := by
  have hroot : c ≠ "/" := by
    rintro rfl
    simp at h
  rw [names, fullPieces, split_of_not_mem h]
  by_cases hempty : c = ""
  · simp [hempty, isName]
  · have hname : isName c = true := by simp [isName, hempty, hroot]
    simp [hempty, hname]

theorem names_split (path : String) :
    names path = names (split path).1 ++ [(split path).2].filter isName := by
  rw [← names_of_not_mem (not_slash_mem_tail path)]
  obtain ⟨hsplit, -⟩ | ⟨xs, hpath, -, hhead⟩ := split_cases path
  · rw [hsplit]
    rfl
  · rw [names, names, names, hhead, fullPieces_trimHead, ← map_append, hpath,
      fullPieces_append, fullPieces_append]
    simp [fullPieces, Text.split, Text.splitFrom]

theorem filter_componentsFrom {fuel : ℕ} {found cs : List String}
    (h : componentsFrom fuel path found = some cs) :
    cs.filter isName = names path ++ found.filter isName := by
  induction fuel generalizing path found with
  | zero => simp [componentsFrom] at h
  | succ fuel ih =>
    by_cases hempty : path = ""
    · subst hempty
      cases h
      rfl
    · by_cases hroot : path = "/"
      · subst hroot
        cases h
        rfl
      · rw [componentsFrom_succ hempty hroot] at h
        rw [ih h, names_split path, append_assoc, ← filter_append, singleton_append]

/-! ### The directories of a path -/

def directories (path : String) : List String := (Text.splitOn '/' path).dropLast

theorem filter_pieces (cs : List Char) :
    ((Text.split '/' cs).map String.ofList).filter isName =
      (fullPieces '/' cs).map String.ofList := by
  rw [fullPieces, filter_map]
  congr 1
  refine filter_congr fun p hp => ?_
  have hroot : (String.ofList p != "/") = true := by
    rw [bne_iff_ne]
    intro he
    have hslash : '/' ∈ p := by
      rw [← String.toList_ofList (l := p), he]
      simp
    exact not_mem_of_mem_split hp hslash
  rw [Function.comp_apply, isName, hroot, Bool.and_true]
  cases p <;> simp

theorem filter_directories (path : String) :
    (directories path).filter isName = names (split path).1 := by
  obtain ⟨hsplit, hpath⟩ | ⟨xs, hpath, htail, hhead⟩ := split_cases path
  · rw [directories, Text.splitOn, split_of_not_mem hpath, hsplit]
    rfl
  · have hpieces : directories path = (Text.split '/' xs).map String.ofList := by
      rw [directories, Text.splitOn, hpath, split_append, split_of_not_mem htail, map_append]
      exact dropLast_concat
    rw [hpieces, filter_pieces, names, hhead, fullPieces_trimHead,
      fullPieces_append_seps xs (by simp)]

theorem exists_components_concat {cs : List String} (hempty : path ≠ "")
    (h : components? path = some cs) :
    ∃ ds last, cs = ds ++ [last] ∧ ds.filter isName = (directories path).filter isName := by
  rw [filter_directories]
  by_cases hroot : path = "/"
  · subst hroot
    cases h
    exact ⟨[], "/", rfl, rfl⟩
  · rw [components?, componentsFrom_succ hempty hroot, ← nil_append [(split path).2],
      componentsFrom_append, Option.map_eq_some_iff] at h
    obtain ⟨ds, hds, rfl⟩ := h
    exact ⟨ds, _, rfl, by rw [filter_componentsFrom hds, filter_nil, append_nil]⟩

/-! ### Joined paths -/

theorem exists_join_eq (hroot : root ≠ "") :
    ∃ xs, (root.toList = xs ++ ['/'] ∨ root.toList = xs ∧ xs.getLast? ≠ some '/') ∧
      ∀ rel : String, rel.toList.head? ≠ some '/' →
        (join root rel).toList = xs ++ '/' :: rel.toList := by
  have hempty : root.isEmpty = false := by simpa using hroot
  by_cases hlast : root.toList.getLast? = some '/'
  · obtain ⟨xs, hxs⟩ := getLast?_eq_some_iff.mp hlast
    refine ⟨xs, .inl hxs, fun rel hrel => ?_⟩
    rw [join, if_neg (by simpa using hrel), hempty, Bool.false_or, if_pos (by simpa using hlast),
      String.toList_append, hxs, append_assoc]
    rfl
  · refine ⟨root.toList, .inr ⟨rfl, hlast⟩, fun rel hrel => ?_⟩
    rw [join, if_neg (by simpa using hrel), hempty, Bool.false_or, if_neg (by simpa using hlast),
      String.toList_append, String.toList_append, append_assoc]
    rfl

theorem join_injective {rel' : String} (hroot : root ≠ "") (hrel : rel.toList.head? ≠ some '/')
    (hrel' : rel'.toList.head? ≠ some '/') (h : join root rel = join root rel') : rel = rel' := by
  obtain ⟨xs, -, hjoin⟩ := exists_join_eq hroot
  have hlist := congrArg String.toList h
  rw [hjoin rel hrel, hjoin rel' hrel', append_cancel_left_eq, cons_inj_right] at hlist
  exact String.toList_injective hlist

theorem join_ne_empty (hroot : root ≠ "") (hrel : rel.toList.head? ≠ some '/') :
    join root rel ≠ "" := by
  obtain ⟨xs, -, hjoin⟩ := exists_join_eq hroot
  intro hempty
  have hlist := hjoin rel hrel
  rw [hempty] at hlist
  simp at hlist

theorem filter_directories_join (hroot : root ≠ "") (hrel : rel.toList.head? ≠ some '/') :
    (directories (join root rel)).filter isName =
      names root ++ (directories rel).filter isName := by
  obtain ⟨xs, hxs, hjoin⟩ := exists_join_eq hroot
  have hnames : fullPieces '/' root.toList = fullPieces '/' xs := by
    rcases hxs with hxs | ⟨hxs, -⟩
    · rw [hxs, fullPieces_append_seps xs (by simp)]
    · rw [hxs]
  have hpieces : directories (join root rel) =
      (Text.split '/' xs).map String.ofList ++ directories rel := by
    rw [directories, Text.splitOn, hjoin rel hrel, split_append, map_append]
    exact dropLast_append_of_ne_nil (Text.splitOn_ne_nil '/' rel)
  rw [hpieces, filter_append, filter_pieces, names, hnames]

/-- Only the first path can bring two slashes to the front. -/
theorem beginsTwice_join (hroot : root ≠ "") (hrel : rel.toList.head? ≠ some '/') :
    BeginsTwice (join root rel) ↔ BeginsTwice root := by
  obtain ⟨xs, hxs, hjoin⟩ := exists_join_eq hroot
  rw [BeginsTwice, BeginsTwice, hjoin rel hrel]
  rcases xs with _ | ⟨c, _ | ⟨d, xs⟩⟩
  · rcases hxs with hxs | ⟨hxs, -⟩
    · rw [hxs]
      cases hlist : rel.toList with
      | nil => simp
      | cons r rs =>
        rw [hlist] at hrel
        simpa [eq_comm] using hrel
    · exact absurd (String.toList_injective hxs) hroot
  · rcases hxs with hxs | ⟨hxs, hlast⟩
    · rw [hxs]
      simp
    · rw [hxs]
      simpa [eq_comm] using hlast
  · rcases hxs with hxs | ⟨hxs, -⟩ <;> rw [hxs] <;> simp

end Path
end RegexCorpus
