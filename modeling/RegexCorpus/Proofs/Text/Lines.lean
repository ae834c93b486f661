import RegexCorpus.Text.Search

/-!
# Lines

Texts that hold no line break are recovered as the lines of the text that they make up.
-/

namespace RegexCorpus.Text
open List

variable {ls : List String}

def unlines (ls : List String) : String := String.ofList (ls.flatMap fun l => l.toList ++ ['\n'])

def IsOneLine (l : String) : Prop := '\n' ∉ l.toList ∧ '\r' ∉ l.toList

theorem unlines_append (ls ms : List String) : unlines (ls ++ ms) = unlines ls ++ unlines ms := by
  apply String.toList_injective
  simp [unlines]

theorem unlines_cons (l : String) (ls : List String) :
    unlines (l :: ls) = l ++ "\n" ++ unlines ls := by
  apply String.toList_injective
  simp [unlines]

theorem unlines_concat (ls : List String) (l : String) :
    unlines (ls ++ [l]) = unlines ls ++ (l ++ "\n") := by
  apply String.toList_injective
  simp [unlines]

theorem unifyLineEnds_eq_self {cs : List Char} (h : '\r' ∉ cs) : unifyLineEnds cs = cs := by
  fun_induction unifyLineEnds cs with
  | case1 => rfl
  | case2 cs ih => simp at h
  | case3 c cs _ ih =>
    rw [mem_cons, not_or] at h
    rw [ih h.2, if_neg (by simpa using Ne.symm h.1)]

theorem fullLinesFrom_append {l : List Char} (h : '\n' ∉ l) (line cs : List Char) :
    fullLinesFrom line (l ++ '\n' :: cs) =
      (line.reverse ++ l ++ ['\n']) :: fullLinesFrom [] cs := by
  induction l generalizing line with
  | nil => simp [fullLinesFrom]
  | cons c l ih =>
    rw [mem_cons, not_or] at h
    have hc : (c == '\n') = false := by simpa using Ne.symm h.1
    rw [cons_append, fullLinesFrom, hc, if_neg (by simp), ih h.2]
    simp

theorem fullLinesFrom_flatMap (h : ∀ l ∈ ls, '\n' ∉ l.toList) :
    fullLinesFrom [] (ls.flatMap fun l => l.toList ++ ['\n']) =
      ls.map fun l => l.toList ++ ['\n'] := by
  induction ls with
  | nil => rfl
  | cons l ls ih =>
    rw [forall_mem_cons] at h
    rw [flatMap_cons, append_assoc, singleton_append, fullLinesFrom_append h.1, ih h.2]
    rfl

theorem fullLines_unlines (h : ∀ l ∈ ls, IsOneLine l) :
    (fullLines (unifyLineEnds (unlines ls).toList)).map String.ofList = ls.map (· ++ "\n") := by
  have hreturn : '\r' ∉ (unlines ls).toList := by
    simp only [unlines, String.toList_ofList, mem_flatMap, not_exists, not_and]
    intro l hl
    simpa using (h l hl).2
  rw [unifyLineEnds_eq_self hreturn, unlines, String.toList_ofList, fullLines,
    fullLinesFrom_flatMap fun l hl => (h l hl).1, map_map]
  refine map_congr_left fun l _ => String.toList_injective ?_
  simp

theorem linesFrom_append {l : List Char} (h : '\n' ∉ l ∧ '\r' ∉ l) (line cs : List Char) :
    linesFrom line (l ++ '\n' :: cs) = (line.reverse ++ l) :: linesFrom [] cs := by
  induction l generalizing line with
  | nil => simp [linesFrom]
  | cons c l ih =>
    rw [mem_cons, not_or, mem_cons, not_or] at h
    have hc : (c == '\n' || c == '\r') = false := by simp [Ne.symm h.1.1, Ne.symm h.2.1]
    rw [cons_append, linesFrom, hc, if_neg (by simp), ih ⟨h.1.2, h.2.2⟩]
    · simp
    · exact fun _ hreturn => absurd hreturn.symm h.2.1

theorem lines_unlines (h : ∀ l ∈ ls, IsOneLine l) : lines (unlines ls) = ls := by
  rw [lines, unlines, String.toList_ofList]
  induction ls with
  | nil => rfl
  | cons l ls ih =>
    rw [forall_mem_cons] at h
    rw [flatMap_cons, append_assoc, singleton_append, linesFrom_append h.1, map_cons, ih h.2]
    simp

end RegexCorpus.Text
