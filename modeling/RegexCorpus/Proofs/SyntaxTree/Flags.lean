import RegexCorpus.Proofs.Number.Render
import RegexCorpus.Proofs.SyntaxTree.Nodes
import RegexCorpus.SyntaxTree.Flags

/-!
# The text of flags

The flags of a tree are names of flags and numbers. None of them has the letter `F`, so their text
is told apart from the mark of a function without flags.
-/

namespace RegexCorpus
open List

/-! ### Numbers -/

theorem ofNumbers_unmarked : OfNumbers (· ≠ 'F') where
  digit := by
    rintro c hc rfl
    exact absurd hc (by decide)
  point := by decide
  exponent := by decide
  plus := by decide
  minus := by decide

theorem not_mem_ofInt (n : Int) : 'F' ∉ (Text.ofInt n).toList := fun h =>
  ofNumbers_unmarked.ofInt n 'F' h rfl

theorem not_mem_render (x : Double) : 'F' ∉ x.render.toList := fun h =>
  ofNumbers_unmarked.renderWith (by simp) (by simp) x 'F' h rfl

namespace Tree

theorem not_mem_numberText {t : Option Tree} {s : String} (h : numberText? t = some s) :
    'F' ∉ s.toList := by
  unfold numberText? at h
  split at h <;> cases h
  · exact not_mem_ofInt _
  · exact not_mem_render _
  · rw [imaginaryText, String.toList_ofList, mem_append, not_or]
    refine ⟨fun hmem => ?_, by decide⟩
    split at hmem
    · exact not_mem_render _ (mem_of_mem_take hmem)
    · exact not_mem_render _ hmem

theorem not_mem_flagName {names : List String} {t : Tree} {s : String}
    (h : flagName? names t = some s) : 'F' ∉ s.toList := by
  have hnames : ∀ s ∈ flagNames, 'F' ∉ s.toList := by decide
  simp only [flagName?, Option.bind_eq_bind, Option.bind_eq_some_iff] at h
  obtain ⟨_, _, _, _, name, _, h⟩ := h
  split at h
  · next hname =>
    cases h
    exact hnames _ (by simpa using (Bool.and_eq_true_iff.mp hname).2)
  · cases h

def Unmarked (ss : List String) : Prop := ∀ s ∈ ss, 'F' ∉ s.toList

section

variable {names : List String}
variable {ss : List String}

theorem unmarked_fieldFlags {fs : Fields}
    (h : ∀ f ∈ fs, ∀ ss, flags? names f.2 = some ss → Unmarked ss)
    (hss : fieldFlags? names fs = some ss) : Unmarked ss := by
  induction fs generalizing ss with
  | nil =>
    cases hss
    simp [Unmarked]
  | cons f fs ih =>
    rw [forall_mem_cons] at h
    simp only [fieldFlags?, Option.bind_eq_bind, Option.bind_eq_some_iff] at hss
    obtain ⟨first, hfirst, rest, hrest, he⟩ := hss
    cases he
    exact forall_mem_append.mpr ⟨h.1 first hfirst, ih h.2 hrest⟩

theorem unmarked_itemFlags {ts : List Tree}
    (h : ∀ t ∈ ts, ∀ ss, flags? names t = some ss → Unmarked ss)
    (hss : itemFlags? names ts = some ss) : Unmarked ss := by
  induction ts generalizing ss with
  | nil =>
    cases hss
    simp [Unmarked]
  | cons t ts ih =>
    rw [forall_mem_cons] at h
    cases t with
    | node kind fs =>
      simp only [itemFlags?, Option.bind_eq_bind, Option.bind_eq_some_iff] at hss
      obtain ⟨first, hfirst, rest, hrest, he⟩ := hss
      cases he
      exact forall_mem_append.mpr ⟨h.1 first hfirst, ih h.2 hrest⟩
    | list us | leaf v => exact ih h.2 hss

theorem flags?_node {kind : String} {fs : Fields}
    (h : flags? names (node kind fs) = some ss) :
    (∃ s, 'F' ∉ s.toList ∧ [s] = ss) ∨ fieldFlags? names fs = some ss := by
  unfold flags? at h
  split at h
  · obtain ⟨s, hs, rfl⟩ := Option.map_eq_some_iff.mp h
    exact .inl ⟨s, not_mem_flagName hs, rfl⟩
  · obtain ⟨s, hs, rfl⟩ := Option.map_eq_some_iff.mp h
    exact .inl ⟨s, not_mem_numberText hs, rfl⟩
  · next he =>
    cases he
    split at h
    · exact .inr h
    · cases h
  iterate 3
    · next he =>
      cases he
      exact .inr h
  · cases h
  iterate 2
    · next he => cases he

theorem unmarked_flags (t : Tree) : ∀ ss, flags? names t = some ss → Unmarked ss := by
  induction t using parts_induction with
  | hnode kind fs ih =>
    intro ss hss
    obtain ⟨s, hs, rfl⟩ | hss := flags?_node hss
    · simpa [Unmarked] using hs
    · exact unmarked_fieldFlags ih hss
  | hlist ts ih =>
    intro ss hss
    rw [flags?] at hss
    exact unmarked_itemFlags ih hss
  | hleaf v =>
    intro ss hss
    rw [flags?, Option.some.injEq] at hss
    rw [← hss]
    simp [Unmarked]

end

end Tree
end RegexCorpus
