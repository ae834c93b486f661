import RegexCorpus.Proofs.Path
import RegexCorpus.Proofs.Text.Digit

/-!
# Joining and cutting

Texts that were joined are recovered by cutting: at the separator, if none of them holds it, and at
blanks, if they are words.
-/

namespace RegexCorpus.Text
open List

variable {ss : List String} {c : Char} {sep w : String}

theorem join_cons (sep s : String) (h : ss ≠ []) :
    join sep (s :: ss) = s ++ sep ++ join sep ss := by
  cases ss with
  | nil => exact absurd rfl h
  | cons s' ss => rfl

/-! ### Pieces -/

theorem splitOn_of_not_mem {s : String} (h : c ∉ s.toList) : splitOn c s = [s] := by
  rw [splitOn, split_of_not_mem h, map_singleton, String.ofList_toList]

theorem splitOn_append (hsep : sep.toList = [c]) (s s' : String) :
    splitOn c (s ++ sep ++ s') = splitOn c s ++ splitOn c s' := by
  rw [splitOn, String.toList_append, String.toList_append, hsep, append_assoc,
    singleton_append, split_append, map_append]
  rfl

theorem splitOn_join (hsep : sep.toList = [c]) (hne : ss ≠ []) (h : ∀ s ∈ ss, c ∉ s.toList) :
    splitOn c (join sep ss) = ss := by
  induction ss with
  | nil => exact absurd rfl hne
  | cons s ss ih =>
    rw [forall_mem_cons] at h
    by_cases hss : ss = []
    · subst hss
      exact splitOn_of_not_mem h.1
    · rw [join_cons sep s hss, splitOn_append hsep, splitOn_of_not_mem h.1, ih hss h.2]
      rfl

theorem not_mem_join (hsep : c ∉ sep.toList) (h : ∀ s ∈ ss, c ∉ s.toList) :
    c ∉ (join sep ss).toList := by
  fun_induction join sep ss with
  | case1 => simp
  | case2 s => exact h s (by simp)
  | case3 s rest _ ih =>
    rw [forall_mem_cons] at h
    simp only [String.toList_append, mem_append, not_or]
    exact ⟨⟨h.1, hsep⟩, ih h.2⟩

/-! ### Words -/

/-- A text that is not empty and holds no blank. -/
structure IsWord (w : String) : Prop where
  ne_empty : w ≠ ""
  not_blank : ∀ c ∈ w.toList, isBlank c = false

instance (w : String) : Decidable (IsWord w) :=
  decidable_of_iff (w ≠ "" ∧ w.toList.all (!isBlank ·) = true) <| by
    simp only [all_eq_true, Bool.not_eq_true']
    exact ⟨fun ⟨hne, hblank⟩ => ⟨hne, hblank⟩, fun h => ⟨h.ne_empty, h.not_blank⟩⟩

theorem wordsFrom_append {w : List Char} (hw : ∀ c ∈ w, isBlank c = false) (word cs : List Char) :
    wordsFrom word (w ++ cs) = wordsFrom (w.reverse ++ word) cs := by
  induction w generalizing word with
  | nil => rfl
  | cons c w ih =>
    rw [forall_mem_cons] at hw
    rw [cons_append, wordsFrom, if_neg (by simp [hw.1]), ih hw.2, reverse_cons,
      append_assoc, singleton_append]

theorem IsWord.toList_ne_nil (h : IsWord w) : w.toList ≠ [] :=
  fun hnil => h.ne_empty (String.toList_eq_nil_iff.mp hnil)

theorem words_word (h : IsWord w) : words w.toList = [w.toList] := by
  have hword := wordsFrom_append h.not_blank [] []
  rw [append_nil, append_nil] at hword
  rw [words, hword, wordsFrom, if_neg (by simpa using h.toList_ne_nil), reverse_reverse]

theorem words_append (h : IsWord w) (s : String) :
    words (w ++ " " ++ s).toList = w.toList :: words s.toList := by
  have hspace : (" " : String).toList = [' '] := rfl
  rw [String.toList_append, String.toList_append, hspace, append_assoc,
    singleton_append, words, wordsFrom_append h.not_blank, append_nil, wordsFrom,
    if_pos (by decide), if_neg (by simpa using h.toList_ne_nil), reverse_reverse]
  rfl

/-- Words are recovered from the text in which single spaces stand between them. -/
theorem words_join {ws : List String} (h : ∀ w ∈ ws, IsWord w) :
    (words (join " " ws).toList).map String.ofList = ws := by
  induction ws with
  | nil => rfl
  | cons w ws ih =>
    rw [forall_mem_cons] at h
    by_cases hws : ws = []
    · subst hws
      rw [join, words_word h.1, map_singleton, String.ofList_toList]
    · rw [join_cons " " w hws, words_append h.1, map_cons, ih h.2, String.ofList_toList]

end RegexCorpus.Text
