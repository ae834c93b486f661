import RegexCorpus.Pattern.CSharp
import RegexCorpus.Proofs.Pattern.Brace
import RegexCorpus.Proofs.Pattern.Group
import RegexCorpus.Proofs.Pattern.InlineFlag
import RegexCorpus.Proofs.Pattern.Passes

/-!
# Quoted text in the notation of C#

In escaped text every character with a meaning in patterns has a backslash right before it. The
steps that come after the expansion of quotes look for an opening parenthesis with a question mark
right after it, or for a brace that has no backslash before it. They find neither in escaped text,
whatever has been quoted.
-/

namespace RegexCorpus.Pattern
open List

variable {q u v w : List Char} {c : Char}

/-! ### Escaped text -/

/-- Escaped text is cut in two between two characters, or after the backslash of one. -/
def IsCut (q u w : List Char) : Prop :=
  (∃ q₁ q₂, q = q₁ ++ q₂ ∧ u = escapeText q₁ ∧ w = escapeText q₂) ∨
    ∃ q₁ c q₂, q = q₁ ++ c :: q₂ ∧ u = escapeText q₁ ++ ['\\'] ∧ w = c :: escapeText q₂

theorem IsCut.cons (h : IsCut q u w) (d : Char) : IsCut (d :: q) (escapeChar d ++ u) w := by
  rcases h with ⟨q₁, q₂, rfl, rfl, rfl⟩ | ⟨q₁, c, q₂, rfl, rfl, rfl⟩
  · exact .inl ⟨d :: q₁, q₂, rfl, escapeText_cons.symm, rfl⟩
  · exact .inr ⟨d :: q₁, c, q₂, rfl, by rw [escapeText_cons, append_assoc], rfl⟩

theorem isCut_of_append (h : escapeText q = u ++ w) : IsCut q u w := by
  induction q generalizing u with
  | nil =>
    obtain ⟨rfl, rfl⟩ := append_eq_nil_iff.mp h.symm
    exact .inl ⟨[], [], rfl, rfl, rfl⟩
  | cons d q ih =>
    cases u with
    | nil => exact .inl ⟨[], d :: q, rfl, rfl, h.symm⟩
    | cons a u =>
      rw [escapeText_cons] at h
      rcases escapeChar_cases d with ⟨hd, -⟩ | ⟨hd, -⟩
      · -- the first character is escaped, and the cut may be after its backslash
        rw [hd] at h
        obtain ⟨rfl, htail⟩ := cons.inj h
        cases u with
        | nil => exact .inr ⟨[], d, q, rfl, rfl, htail.symm⟩
        | cons b u =>
          obtain ⟨rfl, hrest⟩ := cons.inj htail
          have hcut := (ih hrest).cons d
          rwa [hd] at hcut
      · rw [hd] at h
        obtain ⟨rfl, hrest⟩ := cons.inj h
        have hcut := (ih hrest).cons d
        rwa [hd] at hcut

/-- In escaped text a character with a meaning has a backslash right before it. -/
theorem escapeText_special (h : escapeText q = u ++ c :: v) (hc : c ∈ specials) (hne : c ≠ '\\') :
    ['\\'] <:+ u := by
  rcases isCut_of_append h with ⟨q₁, q₂, -, -, hq₂⟩ | ⟨q₁, d, q₂, -, rfl, -⟩
  · cases q₂ with
    | nil => cases hq₂
    | cons d q₂ =>
      exfalso
      rw [escapeText_cons, escapeChar] at hq₂
      split_ifs at hq₂ with hd
      · exact hne (cons.inj hq₂).1
      · obtain ⟨rfl, -⟩ := cons.inj hq₂
        exact hd (contains_iff_mem.mpr hc)
  · exact suffix_append _ _

theorem escapeText_ne (hq : '\\' ∉ q) : escapeText q ≠ u ++ '\\' :: 'Q' :: v := by
  intro h
  rcases isCut_of_append h with ⟨q₁, q₂, -, -, hq₂⟩ | ⟨q₁, c, q₂, rfl, -, hc⟩
  · refine escapeText_append_ne (t := q₂) (y := []) ?_ (by rw [append_nil, ← hq₂])
    rintro rfl
    cases hq₂
  · obtain ⟨rfl, -⟩ := cons.inj hc
    simp at hq

theorem escapeText_ne_parenthesis : escapeText q ≠ u ++ '(' :: '?' :: v := by
  intro h
  rw [append_cons] at h
  have hlast := escapeText_special h (by decide) (by decide)
  rw [singleton_suffix_iff_getLast?_eq_some, getLast?_concat] at hlast
  cases hlast

/-! ### The steps -/

theorem expandQuotes_quote {q : String} (hq : '\\' ∉ q.toList) (hline : '\n' ∉ q.toList) :
    (expandQuotes ("\\Q" ++ q ++ "\\E")).toList = escapeText q.toList := by
  have hend : HasNoEnd q.toList := fun h => hq (h.subset (by simp))
  have htext : ("\\Q" ++ q ++ "\\E").toList = '\\' :: 'Q' :: (q.toList ++ '\\' :: 'E' :: []) := by
    simp
  have hclosed : expandClosed false ("\\Q" ++ q ++ "\\E").toList = escapeText q.toList := by
    rw [htext, expandClosed_quote hend hline]
    exact append_nil _
  have hopen := expandOpen_append_eq_iff (t := escapeText q.toList) (x := []) (y := []) (by simp)
  rw [append_nil] at hopen
  rw [expandQuotes, String.toList_ofList, hclosed]
  exact hopen.mpr ⟨rfl, fun u v h => absurd h (escapeText_ne hq)⟩

section
variable {p : String} (hp : p.toList = escapeText q)
include hp

theorem renameGroups_escaped : renameGroups p = p := by
  refine renameGroups_eq_self ?_
  rintro ⟨u, v, h⟩
  rw [hp, markStart, append_assoc] at h
  exact escapeText_ne_parenthesis h.symm

theorem escapeBraces_escaped : escapeBraces p = p := by
  refine escapeBraces_eq_self fun u v h hopens => hopens.1 ?_
  rw [hp] at h
  exact escapeText_special h (by decide) (by decide)

theorem replaceUnicodeFlag_escaped (alternative : String) :
    replaceUnicodeFlag alternative p = p := by
  refine replaceUnicodeFlag_eq_self alternative ?_
  rintro i ⟨hopen, -, hnext⟩
  obtain ⟨hi, hopen⟩ := List.getElem?_eq_some_iff.mp hopen
  obtain ⟨hi', hnext⟩ := List.getElem?_eq_some_iff.mp hnext
  have hcut : p.toList = p.toList.take i ++ '(' :: '?' :: p.toList.drop (i + 2) := by
    rw [← hopen, ← hnext, ← drop_eq_getElem_cons, ← drop_eq_getElem_cons, take_append_drop]
  rw [hp] at hcut
  exact escapeText_ne_parenthesis hcut

end

/-- A quoted text without backslashes and line feeds comes out escaped, whatever it looks like, and
whatever is to take the place of the Unicode flag. -/
theorem toTarget_quote {q : String} (hq : '\\' ∉ q.toList) (hline : '\n' ∉ q.toList)
    (alternative : Value) :
    toTarget alternative (.str "C#") (.str ("\\Q" ++ q ++ "\\E")) =
      .ok (String.ofList (escapeText q.toList)) := by
  have hp := expandQuotes_quote hq hline
  have htext : expandQuotes ("\\Q" ++ q ++ "\\E") = String.ofList (escapeText q.toList) := by
    rw [← String.toList_inj, hp, String.toList_ofList]
  have hsteps : escapeBraces (renameGroups (expandQuotes ("\\Q" ++ q ++ "\\E"))) =
      String.ofList (escapeText q.toList) := by
    rw [renameGroups_escaped hp, escapeBraces_escaped hp, htext]
  have hflags (a : String) : replaceUnicodeFlag a (String.ofList (escapeText q.toList)) =
      String.ofList (escapeText q.toList) :=
    replaceUnicodeFlag_escaped String.toList_ofList a
  show replaceUnicodeFlagBy alternative
    (escapeBraces (renameGroups (expandQuotes ("\\Q" ++ q ++ "\\E")))) = _
  rw [hsteps]
  unfold replaceUnicodeFlagBy
  split
  · rw [hflags]
  · rw [hflags, if_pos (beq_self_eq_true _)]

/-- A quoted text with a named group, braces, an inline flag and a reference in it. -/
theorem toTarget_quote_marks :
    '\\' ∉ "(?P<a>\x7bb\x7d(?u)(?P=a)".toList ∧ '\n' ∉ "(?P<a>\x7bb\x7d(?u)(?P=a)".toList ∧
      toTarget .null (.str "C#") (.str "\\Q(?P<a>\x7bb\x7d(?u)(?P=a)\\E") =
        .ok "\\(\\?P<a>\\\x7bb\\\x7d\\(\\?u\\)\\(\\?P=a\\)" := by
  have hq : '\\' ∉ "(?P<a>\x7bb\x7d(?u)(?P=a)".toList := by decide
  have hline : '\n' ∉ "(?P<a>\x7bb\x7d(?u)(?P=a)".toList := by decide
  have htext : "\\Q" ++ "(?P<a>\x7bb\x7d(?u)(?P=a)" ++ "\\E" =
      "\\Q(?P<a>\x7bb\x7d(?u)(?P=a)\\E" := by decide
  have hescaped : String.ofList (escapeText "(?P<a>\x7bb\x7d(?u)(?P=a)".toList) =
      "\\(\\?P<a>\\\x7bb\\\x7d\\(\\?u\\)\\(\\?P=a\\)" := by decide
  have h := toTarget_quote hq hline .null
  rw [htext, hescaped] at h
  exact ⟨hq, hline, h⟩

end RegexCorpus.Pattern
