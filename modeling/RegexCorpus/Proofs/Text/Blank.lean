import Mathlib.Data.List.DropRight
import RegexCorpus.Text.Blank

/-!
# Trimming

A text is its blanks at both ends around the trimmed text. Blanks added at the end change nothing
in the trimmed text, and neither does trimming it again.
-/

namespace RegexCorpus.Text
open List

variable (cs : List Char)

theorem trimChars_append {pre cs post : List Char} (hpre : ∀ c ∈ pre, isBlank c = true)
    (hpost : ∀ c ∈ post, isBlank c = true) {first last : Char} (hfirst : cs.head? = some first)
    (hlast : cs.getLast? = some last) (hf : isBlank first = false) (hl : isBlank last = false) :
    trimChars (pre ++ cs ++ post) = cs := by
  have hdrop : (pre ++ cs ++ post).dropWhile isBlank = cs ++ post := by
    rw [append_assoc, dropWhile_append_of_pos hpre]
    obtain ⟨tail, rfl⟩ := head?_eq_some_iff.mp hfirst
    simp [hf]
  have hback : ∀ c ∈ post.reverse, isBlank c = true := by simpa using hpost
  rw [trimChars, hdrop, reverse_append, dropWhile_append_of_pos hback]
  obtain ⟨init, rfl⟩ := getLast?_eq_some_iff.mp hlast
  simp [hl]

theorem trimChars_blanks {cs : List Char} (h : ∀ c ∈ cs, isBlank c = true) : trimChars cs = [] := by
  rw [trimChars, dropWhile_eq_nil_iff.mpr h]
  rfl

theorem blanks_or_framed :
    (∀ c ∈ cs, isBlank c = true) ∨
      ∃ pre mid post first last, cs = pre ++ mid ++ post ∧ (∀ c ∈ pre, isBlank c = true) ∧
        (∀ c ∈ post, isBlank c = true) ∧ mid.head? = some first ∧ mid.getLast? = some last ∧
        isBlank first = false ∧ isBlank last = false := by
  -- blanks are taken off in front first, and then behind what is left
  match hrest : cs.dropWhile isBlank with
  | [] => exact .inl (dropWhile_eq_nil_iff.mp hrest)
  | first :: tail =>
    right
    have hf : isBlank first = false := by
      have hhead := head_dropWhile_not isBlank (l := cs) (by simp [hrest])
      simpa [hrest] using hhead
    have hmid : (first :: tail).rdropWhile isBlank ≠ [] := by
      rw [Ne, rdropWhile_eq_nil_iff]
      exact fun h => by simp [hf] at h
    have hhead : ((first :: tail).rdropWhile isBlank).head? = some first := by
      obtain ⟨post, hpost⟩ := rdropWhile_prefix isBlank (l := first :: tail)
      match hcase : (first :: tail).rdropWhile isBlank with
      | [] => exact absurd hcase hmid
      | c :: mid =>
        rw [hcase, cons_append] at hpost
        rw [head?_cons, (List.cons.inj hpost).1]
    refine ⟨cs.takeWhile isBlank, _, (first :: tail).rtakeWhile isBlank, first, _, ?_,
      fun c hc => mem_takeWhile_imp hc, fun c hc => mem_rtakeWhile_imp hc, hhead,
      getLast?_eq_some_getLast hmid, hf, ?_⟩
    · rw [append_assoc, rdropWhile_append_rtakeWhile, ← hrest, takeWhile_append_dropWhile]
    · simpa using rdropWhile_last_not isBlank _ hmid

theorem trimChars_trimChars : trimChars (trimChars cs) = trimChars cs := by
  obtain h | ⟨pre, mid, post, first, last, rfl, hpre, hpost, hfirst, hlast, hf, hl⟩ :=
    blanks_or_framed cs
  · rw [trimChars_blanks h]
    rfl
  · rw [trimChars_append hpre hpost hfirst hlast hf hl]
    have hmid : trimChars ([] ++ mid ++ []) = mid :=
      trimChars_append (by simp) (by simp) hfirst hlast hf hl
    rwa [nil_append, append_nil] at hmid

theorem trimChars_append_blanks {bs : List Char} (h : ∀ c ∈ bs, isBlank c = true) :
    trimChars (cs ++ bs) = trimChars cs := by
  obtain hcs | ⟨pre, mid, post, first, last, rfl, hpre, hpost, hfirst, hlast, hf, hl⟩ :=
    blanks_or_framed cs
  · rw [trimChars_blanks hcs, trimChars_blanks (forall_mem_append.mpr ⟨hcs, h⟩)]
  · rw [trimChars_append hpre hpost hfirst hlast hf hl, append_assoc,
      trimChars_append hpre (forall_mem_append.mpr ⟨hpost, h⟩) hfirst hlast hf hl]

theorem trim_trim (s : String) : trim (trim s) = trim s := by
  rw [trim, trim, String.toList_ofList, trimChars_trimChars]

theorem trim_append_blanks (s : String) {b : String} (h : ∀ c ∈ b.toList, isBlank c = true) :
    trim (s ++ b) = trim s := by
  rw [trim, trim, String.toList_append, trimChars_append_blanks _ h]

end RegexCorpus.Text
