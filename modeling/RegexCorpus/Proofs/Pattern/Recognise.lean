import RegexCorpus.Pattern.Recognise
import RegexCorpus.Proofs.Pattern.Quantifier
import RegexCorpus.Proofs.Text.Search

/-!
# What makes a text a pattern

A probe stands in a text exactly when one of the texts that it covers does. Most features of pattern
notation are only found where one of a few characters stands, so that of all the features those
characters, the two kinds of brackets and the quantifiers in braces are left.
-/

namespace RegexCorpus.Pattern
open List Text

variable {cs t : List Char}

/-! ### What probes find -/

namespace Probe

variable {p : Char → Bool} {probe rest : Probe}

/-- The text has the shape of the probe, from its first to its last character. -/
def Covers : Probe → List Char → Prop
  | [], t => t = []
  | .one p :: rest, t => ∃ c u, t = c :: u ∧ p c = true ∧ Covers rest u
  | .run p :: rest, t => ∃ r u, t = r ++ u ∧ (∀ c ∈ r, p c = true) ∧ Covers rest u

theorem afterRun_iff {k : List Char → Bool} :
    afterRun p k cs = true ↔ ∃ r u, cs = r ++ u ∧ (∀ c ∈ r, p c = true) ∧ k u = true := by
  induction cs with
  | nil => simp [afterRun]
  | cons c cs ih =>
    rw [afterRun, Bool.or_eq_true, Bool.and_eq_true, ih]
    constructor
    · rintro (h | ⟨hc, r, u, rfl, hr, hu⟩)
      · exact ⟨[], c :: cs, rfl, by simp, h⟩
      · exact ⟨c :: r, u, rfl, forall_mem_cons.mpr ⟨hc, hr⟩, hu⟩
    · rintro ⟨r, u, hcs, hr, hu⟩
      cases r with
      | nil => exact .inl (hcs ▸ hu)
      | cons d r =>
        obtain ⟨rfl, rfl⟩ := List.cons.inj hcs
        rw [forall_mem_cons] at hr
        exact .inr ⟨hr.1, r, u, rfl, hr.2, hu⟩

theorem fits_iff : probe.fits cs = true ↔ ∃ t, probe.Covers t ∧ t <+: cs := by
  induction probe generalizing cs with
  | nil => simp [fits, Covers]
  | cons step rest ih =>
    cases step with
    | one p =>
      cases cs with
      | nil =>
        simp only [fits, Covers, prefix_nil, Bool.false_eq_true, false_iff]
        rintro ⟨_, ⟨c, u, rfl, -⟩, h⟩
        cases h
      | cons c cs =>
        rw [fits, Bool.and_eq_true, ih]
        constructor
        · rintro ⟨hc, u, hu, hprefix⟩
          exact ⟨c :: u, ⟨c, u, rfl, hc, hu⟩, (prefix_cons_inj c).mpr hprefix⟩
        · rintro ⟨_, ⟨d, u, rfl, hd, hu⟩, hprefix⟩
          obtain ⟨rfl, htail⟩ := cons_prefix_cons.mp hprefix
          exact ⟨hd, u, hu, htail⟩
    | run p =>
      rw [fits, afterRun_iff]
      constructor
      · rintro ⟨r, u, rfl, hr, hu⟩
        obtain ⟨v, hv, hprefix⟩ := ih.mp hu
        exact ⟨r ++ v, ⟨r, v, rfl, hr, hv⟩, (prefix_append_right_inj r).mpr hprefix⟩
      · rintro ⟨_, ⟨r, v, rfl, hr, hv⟩, post, rfl⟩
        exact ⟨r, v ++ post, by simp, hr, ih.mpr ⟨v, hv, prefix_append v post⟩⟩

/-- A probe is found in a text when a text that it covers stands in it. -/
theorem found_iff : probe.found cs = true ↔ ∃ t, probe.Covers t ∧ t <:+: cs := by
  rw [found, afterRun_iff]
  constructor
  · rintro ⟨pre, u, rfl, -, hu⟩
    obtain ⟨t, ht, hprefix⟩ := fits_iff.mp hu
    exact ⟨t, ht, hprefix.isInfix.trans (suffix_append pre u).isInfix⟩
  · rintro ⟨t, ht, pre, post, rfl⟩
    exact ⟨pre, t ++ post, by simp, by simp, fits_iff.mpr ⟨t, ht, prefix_append t post⟩⟩

theorem covers_append :
    (probe ++ rest).Covers t ↔ ∃ u v, t = u ++ v ∧ probe.Covers u ∧ rest.Covers v := by
  induction probe generalizing t with
  | nil => simp [Covers]
  | cons step probe ih =>
    cases step with
    | one p =>
      simp only [cons_append, Covers, ih]
      constructor
      · rintro ⟨c, _, rfl, hc, u, v, rfl, hu, hv⟩
        exact ⟨c :: u, v, rfl, ⟨c, u, rfl, hc, hu⟩, hv⟩
      · rintro ⟨_, v, rfl, ⟨c, u, rfl, hc, hu⟩, hv⟩
        exact ⟨c, u ++ v, rfl, hc, u, v, rfl, hu, hv⟩
    | run p =>
      simp only [cons_append, Covers, ih]
      constructor
      · rintro ⟨r, _, rfl, hr, u, v, rfl, hu, hv⟩
        exact ⟨r ++ u, v, by simp, ⟨r, u, rfl, hr, hu⟩, hv⟩
      · rintro ⟨_, v, rfl, ⟨r, u, rfl, hr, hu⟩, hv⟩
        exact ⟨r, u ++ v, by simp, hr, u, v, rfl, hu, hv⟩

@[simp] theorem covers_word {s : String} : (word s).Covers t ↔ t = s.toList := by
  rw [word]
  induction s.toList generalizing t with
  | nil => simp [Covers]
  | cons c cs ih => simp [Covers, ih]

@[simp] theorem covers_one : Covers [.one p] t ↔ ∃ c, t = [c] ∧ p c = true := by
  simp [Covers]

@[simp] theorem covers_run : Covers [.run p] t ↔ ∀ c ∈ t, p c = true := by
  simp [Covers]

def IsRun (p : Char → Bool) (t : List Char) : Prop := t ≠ [] ∧ ∀ c ∈ t, p c = true

@[simp] theorem covers_some : (some' p).Covers t ↔ IsRun p t := by
  cases t with
  | nil | cons => simp [some', Covers, IsRun]

/-- A run between two words. -/
theorem covers_enclosed {l r : String} :
    (word l ++ some' p ++ word r).Covers t ↔
      ∃ mid, IsRun p mid ∧ t = l.toList ++ (mid ++ r.toList) := by
  simp only [covers_append, covers_word, covers_some]
  constructor
  · rintro ⟨_, _, rfl, ⟨_, mid, rfl, rfl, hmid⟩, rfl⟩
    exact ⟨mid, hmid, append_assoc ..⟩
  · rintro ⟨mid, hmid, rfl⟩
    exact ⟨_, _, (append_assoc ..).symm, ⟨_, mid, rfl, rfl, hmid⟩, rfl⟩

end Probe

open Probe

/-! ### Marks of code -/

/-- The texts that mark a piece of code: some words, a call of a function for patterns, and an
assignment. -/
inductive IsCodeMark : List Char → Prop
  | word {s : String} (h : s ∈ ["(regex)", "<regex>", "[regex]", "RegExp(", "console.log"]) :
      IsCodeMark s.toList
  | call {library : String} {name : List Char} (h : library ∈ ["re.", "preg_"])
      (hname : IsRun Text.isWord name) : IsCodeMark (library.toList ++ (name ++ ['(']))
  | assignment {l r : Char} {before after : List Char} (hl : Text.isWord l = true)
      (hbefore : IsRun Text.isBlank before) (hafter : IsRun Text.isBlank after)
      (hr : Text.isWord r = true) : IsCodeMark (l :: (before ++ '=' :: (after ++ [r])))

def HasCodeMark (cs : List Char) : Prop := ∃ t, IsCodeMark t ∧ t <:+: cs

theorem covers_assignment :
    ([.one isWord] ++ some' isBlank ++ word "=" ++ some' isBlank ++
      [.one isWord] : Probe).Covers t ↔
      ∃ l before after r, isWord l = true ∧ IsRun isBlank before ∧
        IsRun isBlank after ∧ isWord r = true ∧
          t = l :: (before ++ '=' :: (after ++ [r])) := by
  simp only [covers_append, covers_word, covers_some, covers_one]
  constructor
  · rintro ⟨_, _, rfl, ⟨_, after, rfl, ⟨_, _, rfl, ⟨_, before, rfl, ⟨l, rfl, hl⟩, hbefore⟩, rfl⟩,
      hafter⟩, r, rfl, hr⟩
    exact ⟨l, before, after, r, hl, hbefore, hafter, hr, by simp⟩
  · rintro ⟨l, before, after, r, hl, hbefore, hafter, hr, rfl⟩
    refine ⟨[l] ++ before ++ ['='] ++ after, [r], by simp, ?_, r, rfl, hr⟩
    exact ⟨_, after, rfl, ⟨_, _, rfl, ⟨_, before, rfl, ⟨l, rfl, hl⟩, hbefore⟩, rfl⟩, hafter⟩

theorem isCodeMark_iff :
    IsCodeMark t ↔
      (∃ w ∈ snippetWords, t = w.toList) ∨ ∃ probe ∈ snippetProbes, probe.Covers t := by
  simp only [snippetWords, snippetProbes, exists_mem_cons_iff, not_mem_nil, false_and,
    exists_false, or_false, covers_word, covers_enclosed, covers_assignment]
  constructor
  · intro h
    cases h with
    | word h =>
      simp only [mem_cons, not_mem_nil, or_false] at h
      rcases h with rfl | rfl | rfl | rfl | rfl <;> simp
    | @call library name h hname =>
      simp only [mem_cons, not_mem_nil, or_false] at h
      rcases h with rfl | rfl
      · exact .inr (.inl ⟨name, hname, rfl⟩)
      · exact .inr (.inr (.inr (.inl ⟨name, hname, rfl⟩)))
    | assignment hl hbefore hafter hr =>
      exact .inr (.inr (.inr (.inr (.inr ⟨_, _, _, _, hl, hbefore, hafter, hr, rfl⟩))))
  · rintro ((rfl | rfl | rfl) | ⟨name, hname, rfl⟩ | rfl | ⟨name, hname, rfl⟩ | rfl |
      ⟨l, before, after, r, hl, hbefore, hafter, hr, rfl⟩)
    · exact .word (by simp)
    · exact .word (by simp)
    · exact .word (by simp)
    · exact .call (by simp) hname
    · exact .word (by simp)
    · exact .call (by simp) hname
    · exact .word (by simp)
    · exact .assignment hl hbefore hafter hr

/-- A text looks like code exactly when a mark of code stands in it. -/
theorem looksLikeSnippet_iff : looksLikeSnippet cs = true ↔ HasCodeMark cs := by
  simp only [looksLikeSnippet, HasCodeMark, isCodeMark_iff, Bool.or_eq_true, any_eq_true,
    hasInfix_iff, found_iff]
  constructor
  · rintro (⟨w, hw, hinfix⟩ | ⟨probe, hprobe, t, ht, hinfix⟩)
    · exact ⟨_, .inl ⟨w, hw, rfl⟩, hinfix⟩
    · exact ⟨t, .inr ⟨probe, hprobe, ht⟩, hinfix⟩
  · rintro ⟨t, ⟨w, hw, rfl⟩ | ⟨probe, hprobe, ht⟩, hinfix⟩
    · exact .inl ⟨w, hw, hinfix⟩
    · exact .inr ⟨probe, hprobe, t, ht, hinfix⟩

/-! ### Signs of notation -/

/-- The characters that are a sign of notation wherever they stand. -/
def notationChars : List Char := ['+', '*', '.', '^', '$', '|', '?', '\\']

/-- The text shows a sign of notation: one of a few characters, something in parentheses or in
square brackets, or a quantifier in braces. -/
inductive ShowsNotation (cs : List Char) : Prop
  | char {c : Char} (hc : c ∈ notationChars) (h : c ∈ cs)
  | parentheses (h : Text.Encloses '(' ')' cs)
  | brackets (h : Text.Encloses '[' ']' cs)
  | quantifier {t : List Char} (ht : IsQuantifier t) (h : t <:+: cs)

theorem ShowsNotation.mono (h : ShowsNotation t) (ht : t <:+: cs) : ShowsNotation cs := by
  cases h with
  | char hc h => exact .char hc (ht.subset h)
  | parentheses h => exact .parentheses (h.mono ht)
  | brackets h => exact .brackets (h.mono ht)
  | quantifier hq h => exact .quantifier hq (h.trans ht)

/-- The word holds a character that is a sign of notation. -/
def isNoted (s : String) : Bool := s.toList.any notationChars.contains

/-- All but six of the features start with a word that holds a sign of notation. -/
theorem forall_features {P : Probe → Prop}
    (hnoted : ∀ (s : String) (rest : Probe), isNoted s = true → P (word s ++ rest))
    (hgroup : P (word "(" ++ some' anyChar ++ word ")"))
    (hclass : P (word "[" ++ some' anyChar ++ word "]"))
    (hrange : P (word "[" ++ [.run notLineFeed] ++ word "-" ++ [.run notLineFeed] ++ word "]"))
    (hexactly : P (word "\x7b" ++ some' isDigit ++ word "\x7d"))
    (hbetween : P (word "\x7b" ++ some' isDigit ++ word "," ++ some' isDigit ++
      word "\x7d"))
    (hatLeast : P (word "\x7b" ++ some' isDigit ++ word ",\x7d")) :
    ∀ f ∈ features, P f.2 := by
  have hword (s : String) (hs : isNoted s = true) : P (word s) := by
    simpa using hnoted s [] hs
  have hoption : P (word "(?" ++ some' isWord ++ word ")") := by
    rw [append_assoc]
    exact hnoted _ _ (by decide)
  simp only [features, forall_mem_cons, not_mem_nil, false_imp_iff, implies_true, and_true]
  exact ⟨hword "+" (by decide), hgroup, hword "*" (by decide), hclass, hword "." (by decide),
    hrange, hword "^" (by decide), hword "$" (by decide), hword "[^" (by decide),
    hword "\\s" (by decide), hword "|" (by decide), hword "\\d" (by decide), hword "\\w" (by decide), hword "?" (by decide),
    hword "+?" (by decide), hword "*?" (by decide), hword "(?:" (by decide),
    hword "(?P<" (by decide), hexactly, hword "\\S" (by decide), hbetween, hword "(?!" (by decide),
    hword "\\b" (by decide), hword "\\W" (by decide), hatLeast, hword "(?=" (by decide), hoption,
    hword "(?<!" (by decide), hword "(?<=" (by decide), hword "\\Z" (by decide),
    hnoted "\\" _ (by decide), hword "\\D" (by decide), hword "(?P=" (by decide),
    hword "\\v" (by decide), hword "\\B" (by decide), hword "\\" (by decide),
    hnoted "\\" _ (by decide), hnoted "\\" _ (by decide)⟩

theorem showsNotation_of_covers : ∀ f ∈ features, ∀ t, f.2.Covers t → ShowsNotation t := by
  apply forall_features (P := fun probe => ∀ t, probe.Covers t → ShowsNotation t)
  · intro s rest hs t ht
    obtain ⟨u, v, rfl, hu, -⟩ := covers_append.mp ht
    obtain ⟨c, hc, hcontains⟩ := any_eq_true.mp hs
    rw [covers_word.mp hu]
    exact .char (contains_iff_mem.mp hcontains) (mem_append_left v hc)
  · intro t ht
    obtain ⟨mid, hmid, rfl⟩ := covers_enclosed.mp ht
    exact .parentheses (encloses_iff.mpr ⟨mid, hmid.1, infix_rfl⟩)
  · intro t ht
    obtain ⟨mid, hmid, rfl⟩ := covers_enclosed.mp ht
    exact .brackets (encloses_iff.mpr ⟨mid, hmid.1, infix_rfl⟩)
  · intro t ht
    simp only [covers_append, covers_word, covers_run] at ht
    obtain ⟨_, _, rfl, ⟨_, high, rfl, ⟨_, _, rfl, ⟨_, low, rfl, rfl, -⟩, rfl⟩, -⟩, rfl⟩ := ht
    exact .brackets (encloses_iff.mpr ⟨low ++ '-' :: high, by simp, by simp⟩)
  · intro t ht
    obtain ⟨m, hm, rfl⟩ := covers_enclosed.mp ht
    exact .quantifier (.exactly hm) infix_rfl
  · intro t ht
    simp only [covers_append, covers_word, covers_some] at ht
    obtain ⟨_, _, rfl, ⟨_, n, rfl, ⟨_, _, rfl, ⟨_, m, rfl, rfl, hm⟩, rfl⟩, hn⟩, rfl⟩ := ht
    exact .quantifier (.between hm hn) (by simp)
  · intro t ht
    obtain ⟨m, hm, rfl⟩ := covers_enclosed.mp ht
    exact .quantifier (.atLeast hm) infix_rfl

theorem showsFeature_of_covers {probe : Probe} (hf : probe ∈ features.map Prod.snd)
    (ht : probe.Covers t) (h : t <:+: cs) : showsFeature cs = true := by
  obtain ⟨f, hmem, rfl⟩ := mem_map.mp hf
  exact any_eq_true.mpr ⟨f, hmem, found_iff.mpr ⟨t, ht, h⟩⟩

theorem showsFeature_of_enclosed {l r : String} {mid : List Char}
    (hf : word l ++ some' p ++ word r ∈ features.map Prod.snd) (hmid : IsRun p mid)
    (h : l.toList ++ (mid ++ r.toList) <:+: cs) : showsFeature cs = true :=
  showsFeature_of_covers hf (covers_enclosed.mpr ⟨mid, hmid, rfl⟩) h

theorem showsFeature_of_mem {c : Char} (hc : c ∈ notationChars) (h : c ∈ cs) :
    showsFeature cs = true := by
  have hinfix : [c] <:+: cs := (singleton_infix_iff c cs).mpr h
  have hword (s : String) (hf : word s ∈ features.map Prod.snd) (hs : s.toList = [c]) :
      showsFeature cs = true :=
    showsFeature_of_covers hf (covers_word.mpr rfl) (hs ▸ hinfix)
  simp only [notationChars, mem_cons, not_mem_nil, or_false] at hc
  rcases hc with rfl | rfl | rfl | rfl | rfl | rfl | rfl | rfl
  · exact hword "+" (by simp [features]) rfl
  · exact hword "*" (by simp [features]) rfl
  · exact hword "." (by simp [features]) rfl
  · exact hword "^" (by simp [features]) rfl
  · exact hword "$" (by simp [features]) rfl
  · exact hword "|" (by simp [features]) rfl
  · exact hword "?" (by simp [features]) rfl
  · exact hword "\\" (by simp [features]) rfl

theorem showsFeature_iff : showsFeature cs = true ↔ ShowsNotation cs := by
  constructor
  · intro h
    obtain ⟨f, hf, hfound⟩ := any_eq_true.mp h
    obtain ⟨t, ht, hinfix⟩ := found_iff.mp hfound
    exact (showsNotation_of_covers f hf t ht).mono hinfix
  · intro h
    cases h with
    | char hc h => exact showsFeature_of_mem hc h
    | parentheses h =>
      obtain ⟨mid, hmid, hinfix⟩ := encloses_iff.mp h
      exact showsFeature_of_enclosed (l := "(") (r := ")") (p := anyChar) (by simp [features])
        ⟨hmid, fun _ _ => rfl⟩ hinfix
    | brackets h =>
      obtain ⟨mid, hmid, hinfix⟩ := encloses_iff.mp h
      exact showsFeature_of_enclosed (l := "[") (r := "]") (p := anyChar) (by simp [features])
        ⟨hmid, fun _ _ => rfl⟩ hinfix
    | quantifier hq hinfix =>
      cases hq with
      | exactly hm =>
        exact showsFeature_of_enclosed (l := "\x7b") (r := "\x7d") (by simp [features]) hm hinfix
      | atLeast hm =>
        exact showsFeature_of_enclosed (l := "\x7b") (r := ",\x7d") (by simp [features]) hm hinfix
      | @between m n hm hn =>
        have hf : word "\x7b" ++ some' isDigit ++ word "," ++ some' isDigit ++
            word "\x7d" ∈ features.map Prod.snd := by
          simp [features]
        refine showsFeature_of_covers hf ?_ hinfix
        simp only [covers_append, covers_word, covers_some]
        exact ⟨('\x7b' :: m ++ [',']) ++ n, _, by simp,
          ⟨_, n, rfl, ⟨'\x7b' :: m, _, rfl, ⟨_, m, rfl, rfl, hm⟩, rfl⟩, hn⟩, rfl⟩

/-- A text is taken for a pattern exactly when it has no mark of code and shows a sign of notation,
and the signs of notation say as much as all features together. -/
theorem dataLooksLikePattern_iff (s : String) :
    ∃ b, dataLooksLikePattern (.str s) = .ok b ∧
      (b = true ↔ ¬HasCodeMark s.toList ∧ ShowsNotation s.toList) ∧
        ((∃ f ∈ features, f.2.found s.toList = true) ↔ ShowsNotation s.toList) := by
  refine ⟨looksLikePattern s, rfl, ?_, ?_⟩
  · rw [looksLikePattern, Bool.and_eq_true, Bool.not_eq_true', ← Bool.not_eq_true,
      looksLikeSnippet_iff, showsFeature_iff]
  · rw [← showsFeature_iff, showsFeature, any_eq_true]

end RegexCorpus.Pattern
