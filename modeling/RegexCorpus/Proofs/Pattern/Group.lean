import RegexCorpus.Pattern.Group
import Mathlib.Tactic.Cases

/-!
# Named groups among other text

A pattern with named groups is written with texts and marks in turn. Each mark opens a group or
refers back to one, and no text holds the three characters with which all marks start. Renaming
takes two passes, first over the openers and then over the references. Neither pass finds a mark
that reaches from one piece into the next, so that each piece can be renamed by itself.
-/

namespace RegexCorpus.Pattern
open List

variable {c : Char} {cs r t : List Char}

/-! ### Patterns with named groups -/

def markStart : List Char := ['(', '?', 'P']

structure GroupName where
  chars : List Char
  nonempty : chars ≠ []
  plain : ∀ c ∈ chars, c ≠ '(' ∧ c ≠ ')' ∧ c ≠ '>'

structure PlainText where
  chars : List Char
  plain : ¬markStart <:+: chars

/-- A mark opens a group or refers back to one. -/
inductive GroupMark where
  | opener (name : GroupName)
  | reference (name : GroupName)

/-- A pattern with named groups: a text, and any number of marks, each with the text after it. -/
structure GroupedPattern where
  first : PlainText
  rest : List (GroupMark × PlainText)

namespace GroupMark

def text : GroupMark → List Char
  | opener n => '(' :: '?' :: 'P' :: '<' :: (n.chars ++ ['>'])
  | reference n => '(' :: '?' :: 'P' :: '=' :: (n.chars ++ [')'])

def renamed : GroupMark → List Char
  | opener n => '(' :: '?' :: '<' :: (n.chars ++ ['>'])
  | reference n => '\\' :: 'k' :: '<' :: (n.chars ++ ['>'])

/-- The mark between the two passes: openers are renamed, references are not yet. -/
def halfRenamed : GroupMark → List Char
  | opener n => (opener n).renamed
  | reference n => (reference n).text

end GroupMark

def GroupedPattern.write (mark : GroupMark → List Char) (g : GroupedPattern) : List Char :=
  g.first.chars ++ g.rest.flatMap fun x => mark x.1 ++ x.2.chars

/-! ### Where no mark starts -/

/-- What may follow a text without making a mark of its last characters. -/
def IsApart (r : List Char) : Prop := r.head? ≠ some '?' ∧ r.head? ≠ some 'P'

theorem not_markStart_of_ne (hc : c ≠ '(') : ¬markStart <+: c :: cs := by
  intro h
  exact hc (cons_prefix_cons.mp h).1.symm

/-- A mark that starts in a text reaches beyond it only if the rest goes on with the mark. -/
theorem not_markStart_append (ht : ¬markStart <:+: c :: t) (hr : IsApart r) :
    ¬markStart <+: c :: (t ++ r) := by
  rintro ⟨rest, h⟩
  obtain ⟨rfl, htail⟩ := cons.inj h
  cases t with
  | nil =>
    have hnext : '?' :: 'P' :: rest = r := htail
    exact hr.1 (by rw [← hnext, head?_cons])
  | cons d t =>
    obtain ⟨rfl, hlast⟩ := cons.inj htail
    cases t with
    | nil =>
      have hnext : 'P' :: rest = r := hlast
      exact hr.2 (by rw [← hnext, head?_cons])
    | cons d t =>
      obtain ⟨rfl, -⟩ := cons.inj hlast
      exact ht ⟨[], t, rfl⟩

/-- A pass that copies the characters at which no mark starts. -/
structure KeepsUnmarked (pass : List Char → List Char) : Prop where
  nil : pass [] = []
  cons : ∀ {c cs}, ¬markStart <+: c :: cs → pass (c :: cs) = c :: pass cs

namespace KeepsUnmarked

variable {pass : List Char → List Char}

theorem append (h : KeepsUnmarked pass) {s : List Char} (hs : '(' ∉ s) (r : List Char) :
    pass (s ++ r) = s ++ pass r := by
  induction s with
  | nil => rfl
  | cons c s ih =>
    rw [mem_cons, not_or] at hs
    rw [cons_append, h.cons (not_markStart_of_ne (Ne.symm hs.1)), ih hs.2, cons_append]

theorem text (h : KeepsUnmarked pass) (t : PlainText) (hr : IsApart r) :
    pass (t.chars ++ r) = t.chars ++ pass r := by
  obtain ⟨t, ht⟩ := t
  induction t with
  | nil => rfl
  | cons c t ih =>
    have ht' : ¬markStart <:+: t := fun hmark => ht (infix_cons hmark)
    show pass (c :: (t ++ r)) = c :: (t ++ pass r)
    rw [h.cons (not_markStart_append ht hr)]
    exact congrArg (c :: ·) (ih ht')

theorem renamed (h : KeepsUnmarked pass) (m : GroupMark) (r : List Char) :
    pass (m.renamed ++ r) = m.renamed ++ pass r := by
  cases m with
  | opener n =>
    have hrest : '(' ∉ '?' :: '<' :: (n.chars ++ ['>']) := by
      simpa using fun hn => (n.plain '(' hn).1 rfl
    show pass ('(' :: ('?' :: '<' :: (n.chars ++ ['>']) ++ r)) = _
    rw [h.cons (by simp [markStart]), h.append hrest]
    rfl
  | reference n =>
    have hmark : '(' ∉ (GroupMark.reference n).renamed := by
      simpa [GroupMark.renamed] using fun hn => (n.plain '(' hn).1 rfl
    exact h.append hmark r

/-- Such a pass, if it turns one way to write a mark into another whatever comes after it, does the
same to whole patterns. -/
theorem write (h : KeepsUnmarked pass) {mark mark' : GroupMark → List Char}
    (hmark : ∀ m r, pass (mark m ++ r) = mark' m ++ pass r)
    (hapart : ∀ m r, IsApart (mark m ++ r)) (g : GroupedPattern) :
    pass (g.write mark) = g.write mark' := by
  have hrest_apart (xs : List (GroupMark × PlainText)) :
      IsApart (xs.flatMap fun x => mark x.1 ++ x.2.chars) := by
    cases xs with
    | nil => simp [IsApart]
    | cons x xs =>
      rw [flatMap_cons, append_assoc]
      exact hapart x.1 _
  have hrest (xs : List (GroupMark × PlainText)) :
      pass (xs.flatMap fun x => mark x.1 ++ x.2.chars) =
        xs.flatMap fun x => mark' x.1 ++ x.2.chars := by
    induction xs with
    | nil => exact h.nil
    | cons x xs ih =>
      rw [flatMap_cons, flatMap_cons, append_assoc, append_assoc, hmark,
        h.text _ (hrest_apart xs), ih]
  unfold GroupedPattern.write
  rw [h.text _ (hrest_apart g.rest), hrest]

end KeepsUnmarked

/-! ### The two passes -/

variable (m : GroupMark)

theorem hasName_append {close : Char} (n : GroupName) (hclose : close ∉ n.chars) (r : List Char) :
    hasName close (n.chars ++ close :: r) = true := by
  obtain ⟨c, cs, hcs⟩ := exists_cons_of_ne_nil n.nonempty
  rw [hcs] at hclose ⊢
  have hc : c ≠ close := fun h => hclose (by simp [h])
  simp [hasName, hc]

theorem keepsUnmarked_renameOpeners : KeepsUnmarked (renameOpeners false) where
  nil := rfl
  cons := by
    intro c cs h
    rw [renameOpeners, Bool.false_and]
    rintro rest rfl rfl
    exact h ⟨'<' :: rest, rfl⟩

theorem keepsUnmarked_renameReferences : KeepsUnmarked (renameReferences false) where
  nil := rfl
  cons := by
    intro c cs h
    rw [renameReferences, if_neg (by simp)]
    rintro rest rfl rfl
    exact h ⟨'=' :: rest, rfl⟩

theorem renameOpeners_name {n : List Char} (hn : ∀ c ∈ n, c ≠ '(' ∧ c ≠ ')' ∧ c ≠ '>')
    (r : List Char) :
    renameOpeners true (n ++ '>' :: r) = n ++ '>' :: renameOpeners false r := by
  induction n with
  | nil => simp [renameOpeners]
  | cons c n ih =>
    rw [forall_mem_cons] at hn
    obtain ⟨⟨hopen, -, hclose⟩, hn⟩ := hn
    have hmark : (true && c != '>') = true := by simp [hclose]
    rw [cons_append, renameOpeners, hmark, ih hn, cons_append]
    simp [hopen]

/-- The second pass copies a name up to its closing mark, which it changes. -/
theorem renameReferences_name {n : List Char} (hn : ∀ c ∈ n, c ≠ '(' ∧ c ≠ ')' ∧ c ≠ '>')
    (r : List Char) :
    renameReferences true (n ++ ')' :: r) = n ++ '>' :: renameReferences false r := by
  induction n with
  | nil => simp [renameReferences]
  | cons c n ih =>
    rw [forall_mem_cons] at hn
    obtain ⟨⟨hopen, hclose, -⟩, hn⟩ := hn
    rw [cons_append, renameReferences, if_neg (by simp [hclose]), ih hn, cons_append]
    simp [hopen]

theorem renameOpeners_mark (r : List Char) :
    renameOpeners false (m.text ++ r) = m.halfRenamed ++ renameOpeners false r := by
  cases m with
  | opener n =>
    have hname : hasName '>' (n.chars ++ '>' :: r) = true :=
      hasName_append n (fun h => (n.plain '>' h).2.2 rfl) r
    simp only [GroupMark.text, GroupMark.halfRenamed, GroupMark.renamed, cons_append,
      append_assoc, nil_append]
    rw [renameOpeners, if_pos (by simp [hname]), renameOpeners_name n.plain]
  | reference n =>
    have hrest : '(' ∉ '?' :: 'P' :: '=' :: (n.chars ++ [')']) := by
      simpa using fun hn => (n.plain '(' hn).1 rfl
    show renameOpeners false ('(' :: ('?' :: 'P' :: '=' :: (n.chars ++ [')']) ++ r)) = _
    rw [renameOpeners, Bool.false_and, keepsUnmarked_renameOpeners.append hrest]
    · rfl
    · simp

theorem renameReferences_mark (r : List Char) :
    renameReferences false (m.halfRenamed ++ r) = m.renamed ++ renameReferences false r := by
  cases m with
  | opener n => exact keepsUnmarked_renameReferences.renamed (.opener n) r
  | reference n =>
    have hname : hasName ')' (n.chars ++ ')' :: r) = true :=
      hasName_append n (fun h => (n.plain ')' h).2.1 rfl) r
    simp only [GroupMark.text, GroupMark.halfRenamed, GroupMark.renamed, cons_append,
      append_assoc, nil_append]
    rw [renameReferences, if_pos (by simp [hname]), renameReferences_name n.plain]

/-! ### Whole patterns -/

theorem toList_renameGroups (p : String) :
    (renameGroups p).toList = renameReferences false (renameOpeners false p.toList) :=
  String.toList_ofList

theorem renameGroups_eq_self {p : String} (h : ¬markStart <:+: p.toList) : renameGroups p = p := by
  have hend : IsApart [] := by simp [IsApart]
  have hkeep {pass : List Char → List Char} (hpass : KeepsUnmarked pass) :
      pass p.toList = p.toList := by
    simpa [hpass.nil] using hpass.text ⟨p.toList, h⟩ hend
  rw [← String.toList_inj, toList_renameGroups, hkeep keepsUnmarked_renameOpeners,
    hkeep keepsUnmarked_renameReferences]

theorem isApart_text (r : List Char) : IsApart (m.text ++ r) := by
  cases m <;> simp [IsApart, GroupMark.text]

theorem isApart_renamed (r : List Char) : IsApart (m.renamed ++ r) := by
  cases m <;> simp [IsApart, GroupMark.renamed]

theorem isApart_halfRenamed (r : List Char) : IsApart (m.halfRenamed ++ r) := by
  cases m with
  | opener n => exact isApart_renamed (.opener n) r
  | reference n => exact isApart_text (.reference n) r

/-- Renaming goes through a pattern mark by mark: every opener and every reference is written in the
other notation, in its place and with its name, and every text stays. What comes out has no marks,
so that renaming it again changes nothing. -/
theorem renameGroups_write (g : GroupedPattern) :
    renameGroups (String.ofList (g.write GroupMark.text)) =
        String.ofList (g.write GroupMark.renamed) ∧
      renameGroups (String.ofList (g.write GroupMark.renamed)) =
        String.ofList (g.write GroupMark.renamed) := by
  have hopeners := keepsUnmarked_renameOpeners
  have hreferences := keepsUnmarked_renameReferences
  simp only [← String.toList_inj, toList_renameGroups, String.toList_ofList]
  constructor
  · rw [hopeners.write renameOpeners_mark isApart_text,
      hreferences.write renameReferences_mark isApart_halfRenamed]
  · rw [hopeners.write hopeners.renamed isApart_renamed,
      hreferences.write hreferences.renamed isApart_renamed]

example : renameGroups "(?(?P<y>\\d)-(?P=y)(?" = "(?(?<y>\\d)-\\k<y>(?" := by decide

end RegexCorpus.Pattern
