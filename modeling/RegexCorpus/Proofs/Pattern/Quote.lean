import RegexCorpus.Proofs.Pattern.Passes

/-!
# Expanded quotes against one reading of the pattern

What the two passes give is compared with the expansion of the pattern read once from left to
right. They agree exactly on the readings that the passes do not disturb.
-/

namespace RegexCorpus.Pattern
open List

variable {c : Char} {cs t u r x y z : List Char}

/-! ### Readings that the passes do not disturb -/

namespace Reading

/-- The first pass finds the closed quotes of the reading: none of them breaks over a line, and an
escaped backslash in front of `Q` is not taken for the start of a quote, since no `\E` follows on
its line. -/
structure Settled (r : Reading) : Prop where
  quotes : ∀ t, Piece.quote t ∈ r.pieces → '\n' ∉ t
  escapes : ∀ before after t rest,
    r.pieces = before ++ Piece.escaped '\\' :: Piece.char 'Q' :: after →
    after.flatMap Piece.text ++ r.ending.text = t ++ '\\' :: 'E' :: rest → '\n' ∈ t

/-- The second pass does not disturb the reading either: an open quote stays on its line, and where
`\Q` stands in what has been expanded, a line ends after it. -/
structure Undisturbed (r : Reading) : Prop extends Settled r where
  openQuote : ∀ t, r.ending = .openQuote t → '\n' ∉ t
  expanded : ∀ u v, r.pieces.flatMap Piece.expansion = u ++ '\\' :: 'Q' :: v →
    '\n' ∈ (v ++ r.ending.text).dropLast

theorem Settled.cons {r : Reading} (h : r.Settled) {x : Piece}
    (hquote : ∀ t, x = .quote t → '\n' ∉ t)
    (hescape : x = .escaped '\\' → ∀ rest, r.text = 'Q' :: rest → closes rest = false) :
    (r.cons x).Settled where
  quotes t ht := by
    obtain rfl | ht := mem_cons.mp ht
    · exact hquote t rfl
    · exact h.quotes t ht
  escapes before after t rest hpieces htext := by
    cases before with
    | nil =>
      obtain ⟨rfl, hafter⟩ := cons.inj hpieces
      have htext : after.flatMap Piece.text ++ r.ending.text = t ++ '\\' :: 'E' :: rest := htext
      have hopen := hescape rfl (after.flatMap Piece.text ++ r.ending.text)
        (by rw [text, hafter]; rfl)
      by_contra hline
      rw [htext, closes_append hline] at hopen
      cases hopen
    | cons y before => exact h.escapes before after t rest (cons.inj hpieces).2 htext

theorem Settled.tail {r : Reading} {x : Piece} (h : (r.cons x).Settled) : r.Settled where
  quotes t ht := h.quotes t (mem_cons_of_mem x ht)
  escapes before after t rest hpieces htext :=
    h.escapes (x :: before) after t rest (congrArg (x :: ·) hpieces) htext

end Reading

/-! ### Letters on the first line

A text that is read differently loses a mark `\E` for good. The letter `E` is never escaped, so that
both passes keep its number on the first line. -/

/-- How often `E` stands on the first line. -/
def lineEs : List Char → Nat
  | [] => 0
  | c :: cs => if c = '\n' then 0 else (if c = 'E' then 1 else 0) + lineEs cs

@[simp] theorem lineEs_backslash : lineEs ('\\' :: y) = lineEs y := by simp [lineEs]

@[simp] theorem lineEs_Q : lineEs ('Q' :: y) = lineEs y := by simp [lineEs]

@[simp] theorem lineEs_E : lineEs ('E' :: y) = lineEs y + 1 := by simp [lineEs, Nat.add_comm]

theorem lineEs_escapeChar_append (h : lineEs y = lineEs z) :
    lineEs (escapeChar c ++ y) = lineEs (c :: z) := by
  obtain ⟨hc, -⟩ | ⟨hc, -⟩ := escapeChar_cases c <;> simp [hc, lineEs, h]

theorem lineEs_escapeText_append (t y : List Char) :
    lineEs (escapeText t ++ y) = lineEs (t ++ y) := by
  induction t with
  | nil => rfl
  | cons c t ih =>
    rw [escapeText_cons, append_assoc]
    exact lineEs_escapeChar_append ih

theorem lineEs_escapeRest (x : List Char) : lineEs (escapeRest x) = lineEs x := by
  induction x with
  | nil => rfl
  | cons c x ih =>
    by_cases h : c ≠ '\n' ∨ x ≠ []
    · rw [escapeRest_cons h]
      exact lineEs_escapeChar_append ih
    · simp only [not_or, not_not] at h
      rw [h.1, h.2]
      rfl

theorem lineEs_expandOpen (x : List Char) : lineEs (expandOpen x) = lineEs x := by
  induction x with
  | nil => rfl
  | cons c x ih =>
    by_cases h : c = '\\' ∧ ∃ rest, x = 'Q' :: rest ∧ oneLine rest = true
    · obtain ⟨rfl, rest, rfl, hline⟩ := h
      rw [expandOpen_quote hline, lineEs_escapeRest, lineEs_backslash, lineEs_Q]
    · rw [expandOpen_cons h, lineEs, lineEs, ih]

theorem lineEs_append_le (h : lineEs y ≤ lineEs z) : lineEs (t ++ y) ≤ lineEs (t ++ z) := by
  induction t with
  | nil => exact h
  | cons c t ih =>
    rw [cons_append, cons_append, lineEs, lineEs]
    split_ifs <;> omega

/-! ### Misread texts -/

theorem HasNoEnd.quote (ht : HasNoEnd t) : HasNoEnd ('\\' :: 'Q' :: t) :=
  hasNoEnd_cons.mpr ⟨hasNoEnd_cons.mpr ⟨ht, by simp⟩, by simp⟩

/-- The first pass leaves the first line of a broken quote. -/
theorem expandClosed_brokenQuote (ht : HasNoEnd (t ++ '\n' :: u)) :
    expandClosed false ('\\' :: 'Q' :: (t ++ '\n' :: u ++ x)) =
      '\\' :: 'Q' :: (t ++ '\n' :: expandClosed false (u ++ x)) := by
  rw [append_assoc, cons_append]
  exact expandClosed_append_lineFeed ht.left.quote

theorem expandClosed_escapedBackslash (ht : HasNoEnd t) (hline : '\n' ∉ t) :
    expandClosed false ('\\' :: '\\' :: 'Q' :: (t ++ '\\' :: 'E' :: r)) =
      '\\' :: (escapeText t ++ expandClosed false r) := by
  rw [expandClosed_backslash (by simp), expandClosed_quote ht hline]

theorem expandClosed_escaped (hc : c ≠ 'Q')
    (hescape : c = '\\' → ∀ rest, cs = 'Q' :: rest → closes rest = false) :
    expandClosed false ('\\' :: c :: cs) = '\\' :: c :: expandClosed false cs := by
  rw [expandClosed_backslash (by simp [hc])]
  by_cases hback : c = '\\'
  · rw [hback, expandClosed_backslash (hescape hback)]
  · rw [expandClosed_char hback]
    rfl

theorem escapedBackslash_or (c : Char) (cs : List Char) :
    (c = '\\' ∧ ∃ rest, cs = 'Q' :: rest ∧ closes rest = true) ∨
      (c = '\\' → ∀ rest, cs = 'Q' :: rest → closes rest = false) := by
  by_cases h : c = '\\' ∧ ∃ rest, cs = 'Q' :: rest ∧ closes rest = true
  · exact .inl h
  · refine .inr fun hc rest hrest => ?_
    exact Bool.eq_false_iff.mpr fun hcloses => h ⟨hc, rest, hrest, hcloses⟩

/-- The text is read differently by the first pass: a quote breaks over a line, or an escaped
backslash in front of `Q` is taken for the start of a quote. -/
inductive Misread : List Char → Prop where
  | brokenQuote (t₁ t₂ rest : List Char) : HasNoEnd (t₁ ++ '\n' :: t₂) → '\n' ∉ t₁ →
    Misread ('\\' :: 'Q' :: (t₁ ++ '\n' :: t₂ ++ '\\' :: 'E' :: rest))
  | escapedBackslash (t rest : List Char) : HasNoEnd t → '\n' ∉ t →
    Misread ('\\' :: '\\' :: 'Q' :: (t ++ '\\' :: 'E' :: rest))

/-- The first pass follows the reading to its end, or up to a text that it misreads. -/
def Follows (cs : List Char) : Prop :=
  ((read cs).Settled ∧
    expandClosed false cs = (read cs).pieces.flatMap Piece.expansion ++ (read cs).ending.text) ∨
  (¬(read cs).Settled ∧ ∃ u rest, Misread rest ∧ (read cs).expansion = u ++ (read rest).expansion ∧
    expandClosed false cs = u ++ expandClosed false rest)

theorem Misread.not_settled (h : Misread cs) : ¬(read cs).Settled := by
  intro hset
  cases h with
  | brokenQuote t₁ t₂ rest ht hline =>
    rw [read_quote ht] at hset
    exact hset.quotes (t₁ ++ '\n' :: t₂) (by simp [Reading.cons]) (by simp)
  | escapedBackslash t rest ht hline =>
    rw [read_escaped (by decide), read_char (by decide)] at hset
    exact hline (hset.escapes [] _ t rest rfl (text_read _))

theorem Misread.follows (h : Misread cs) : Follows cs :=
  .inr ⟨h.not_settled, [], cs, h, rfl, rfl⟩

theorem Follows.cons {piece : Piece} (h : Follows x) (hread : read cs = (read x).cons piece)
    (hpass : expandClosed false cs = piece.expansion ++ expandClosed false x)
    (hquote : ∀ t, piece = .quote t → '\n' ∉ t)
    (hescape : piece = .escaped '\\' → ∀ rest, x = 'Q' :: rest → closes rest = false) :
    Follows cs := by
  rw [Follows, hread, hpass]
  obtain ⟨hset, hx⟩ | ⟨hset, u, rest, hmis, hexp, hx⟩ := h
  · refine .inl ⟨hset.cons hquote ?_, ?_⟩
    · rwa [text_read]
    · rw [hx, ← append_assoc]
      rfl
  · refine .inr ⟨fun h => hset h.tail, piece.expansion ++ u, rest, hmis, ?_, ?_⟩
    · rw [Reading.expansion_cons, hexp, append_assoc]
    · rw [hx, append_assoc]

theorem follows (cs : List Char) : Follows cs := by
  induction cs using pattern_induction with
  | nil | backslash => exact .inl ⟨⟨by simp [read, readFrom], by simp [read, readFrom]⟩, rfl⟩
  | char c cs hc ih => exact ih.cons (read_char hc cs) (expandClosed_char hc) (by simp) (by simp)
  | escaped c cs hc ih =>
    obtain ⟨rfl, rest, rfl, hcloses⟩ | hescape := escapedBackslash_or c cs
    · obtain ⟨t, rest, rfl, ht, hline⟩ := exists_of_closes hcloses
      exact (Misread.escapedBackslash t rest ht hline).follows
    · refine ih.cons (read_escaped hc cs) (expandClosed_escaped hc hescape) (by simp) ?_
      rintro ⟨rfl⟩
      exact hescape rfl
  | quote t cs ht ih =>
    by_cases hline : '\n' ∈ t
    · obtain ⟨t₁, t₂, rfl, hfirst⟩ := eq_append_cons_of_mem hline
      exact (Misread.brokenQuote t₁ t₂ cs ht hfirst).follows
    · refine ih.cons (read_quote ht cs) (expandClosed_quote ht hline) ?_ (by simp)
      rintro _ ⟨rfl⟩
      exact hline
  | openQuote t ht =>
    rw [Follows, read_openQuote ht]
    exact .inl ⟨⟨by simp, by simp⟩, expandClosed_of_hasNoEnd ht.quote⟩

/-! ### What is misread stays different -/

/-- The first pass has no more letters `E` on the first line than the reading; the same holds inside
a quote that is closed on this line. -/
structure LosesEs (cs : List Char) : Prop where
  outside : lineEs (expandClosed false cs) ≤ lineEs (read cs).expansion
  inside : closes cs = true → lineEs (expandClosed true cs) ≤ lineEs (read cs).expansion

theorem LosesEs.escaped_outside (h : LosesEs cs) (hc : c ≠ 'Q') :
    lineEs (expandClosed false ('\\' :: c :: cs)) ≤ lineEs ('\\' :: c :: (read cs).expansion) := by
  obtain ⟨rfl, rest, rfl, hcloses⟩ | hescape := escapedBackslash_or c cs
  · have hquoted := h.inside (by rw [closes_cons (by simp), hcloses]; rfl)
    rw [expandClosed_quoted_cons (by simp), lineEs_escapeChar_append rfl] at hquoted
    rw [expandClosed_backslash (by simp), expandClosed, if_neg (by simp), if_pos hcloses]
    simpa using hquoted
  · rw [expandClosed_escaped hc hescape]
    exact lineEs_append_le (t := ['\\', c]) h.outside

theorem LosesEs.escaped_inside (h : LosesEs cs) (hcloses : closes ('\\' :: c :: cs) = true) :
    lineEs (expandClosed true ('\\' :: c :: cs)) ≤ lineEs ('\\' :: c :: (read cs).expansion) := by
  by_cases hE : c = 'E'
  · subst hE
    rw [expandClosed, if_pos rfl, lineEs_backslash, lineEs_E]
    exact Nat.le_succ_of_le h.outside
  rw [closes_cons (by simpa using hE)] at hcloses
  rw [expandClosed_quoted_cons (by simpa using hE), lineEs_escapeChar_append rfl]
  refine lineEs_append_le (t := ['\\']) ?_
  by_cases hend : c = '\\' ∧ ∃ rest, cs = 'E' :: rest
  · -- The backslash is the one of `\E` inside the quote.
    obtain ⟨rfl, rest, rfl⟩ := hend
    have houtside := h.outside
    rw [expandClosed_char (by decide), if_neg (by simp), singleton_append, lineEs_E] at houtside
    rw [expandClosed, if_pos rfl, lineEs_backslash]
    exact Nat.le_of_succ_le houtside
  · rw [closes_cons hend] at hcloses
    rw [expandClosed_quoted_cons hend, lineEs_escapeChar_append rfl]
    refine lineEs_append_le (t := [c]) (h.inside ?_)
    rw [Bool.and_eq_true, Bool.and_eq_true] at hcloses
    exact hcloses.2.2

theorem losesEs (cs : List Char) : LosesEs cs := by
  induction cs using pattern_induction with
  | nil | backslash => exact ⟨Nat.le_refl _, by simp [closes]⟩
  | char c cs hc ih =>
    constructor
    · rw [expansion_read_char hc, expandClosed_char hc]
      exact lineEs_append_le (t := [c]) ih.outside
    · intro hcloses
      rw [closes_cons (by simp [hc]), Bool.and_eq_true] at hcloses
      rw [expansion_read_char hc, expandClosed_quoted_cons (by simp [hc]),
        lineEs_escapeChar_append rfl]
      exact lineEs_append_le (t := [c]) (ih.inside hcloses.2)
  | escaped c cs hc ih =>
    constructor
    · rw [expansion_read_escaped hc]
      exact ih.escaped_outside hc
    · rw [expansion_read_escaped hc]
      exact ih.escaped_inside
  | quote t cs ht ih =>
    constructor
    · rw [expansion_read_quote ht, lineEs_escapeText_append]
      by_cases hline : '\n' ∈ t
      · obtain ⟨t₁, t₂, rfl⟩ := append_of_mem hline
        rw [expandClosed_brokenQuote ht, lineEs_backslash, lineEs_Q, append_assoc]
        exact lineEs_append_le (Nat.zero_le _)
      · rw [expandClosed_quote ht hline, lineEs_escapeText_append]
        exact lineEs_append_le ih.outside
    · intro _
      rw [expansion_read_quote ht, lineEs_escapeText_append]
      have hquoted := expandClosed_quoted (r := cs) ht.quote
      rw [cons_append, cons_append] at hquoted
      rw [hquoted, lineEs_escapeText_append, cons_append, lineEs_backslash, cons_append, lineEs_Q]
      exact lineEs_append_le ih.outside
  | openQuote t ht =>
    constructor
    · have htext := lineEs_escapeText_append t []
      rw [append_nil, append_nil] at htext
      rw [expansion_read_openQuote ht, expandClosed_of_hasNoEnd ht.quote, htext, lineEs_backslash,
        lineEs_Q]
    · intro hcloses
      rw [closes_of_hasNoEnd ht.quote] at hcloses
      cases hcloses

theorem expandOpen_ne_of_lineEs (h : lineEs x < lineEs y) : expandOpen x ≠ y := by
  rintro rfl
  rw [lineEs_expandOpen] at h
  exact Nat.lt_irrefl _ h

/-- The line feed that breaks a quote would have to be escaped. -/
theorem expandOpen_brokenQuote_ne (ht : '\n' ∉ t) :
    expandOpen ('\\' :: 'Q' :: (t ++ '\n' :: x)) ≠ escapeText (t ++ '\n' :: y) ++ z := by
  intro h
  by_cases hline : oneLine (t ++ '\n' :: x) = true
  · rw [expandOpen_quote hline, escapeRest_append ht, escapeText_append, append_assoc] at h
    have hnil : x = [] := by
      by_contra hx
      rw [oneLine_iff, dropLast_append_of_ne_nil (by simp), dropLast_cons_of_ne_nil hx] at hline
      simp at hline
    rw [hnil, escapeText_cons, escapeChar_lineFeed] at h
    exact absurd (append_cancel_left h) (by simp [escapeRest])
  · rw [expandOpen, if_neg hline] at h
    exact escapeText_append_ne (by simp) h.symm

theorem escapeRest_escapeText_append_ne (h : escapeRest y ≠ 'Q' :: z) :
    escapeRest (escapeText t ++ y) ≠ 'Q' :: (escapeText t ++ z) := by
  induction t with
  | nil => exact h
  | cons c t ih =>
    intro heq
    obtain ⟨x', hx', hrest⟩ := escapeRest_eq_letter heq
    obtain hnil | ⟨t', ht', rfl⟩ := escapeText_append_eq_letter hx'
    · cases hnil
    · obtain ⟨rfl, rfl⟩ := cons.inj ht'
      exact ih hrest

/-- The second pass cannot take the rest of a misread text for the start of its reading. -/
theorem escapeRest_expandClosed_ne (cs : List Char) :
    escapeRest (expandClosed false cs) ≠ 'Q' :: (read cs).expansion := by
  induction cs using pattern_induction with
  | nil => simp [expandClosed, escapeRest]
  | backslash => exact escapeRest_backslash_ne
  | char c cs hc ih =>
    rw [expandClosed_char hc, expansion_read_char hc]
    intro heq
    obtain ⟨x', hx', hrest⟩ := escapeRest_eq_letter heq
    obtain ⟨rfl, rfl⟩ := cons.inj hx'
    exact ih hrest
  | escaped c cs hc ih =>
    rw [expandClosed_backslash (by simp [hc])]
    exact escapeRest_backslash_ne
  | quote t cs ht ih =>
    by_cases hline : '\n' ∈ t
    · obtain ⟨t₁, t₂, rfl⟩ := append_of_mem hline
      rw [expandClosed_brokenQuote ht]
      exact escapeRest_backslash_ne
    · rw [expandClosed_quote ht hline, expansion_read_quote ht]
      exact escapeRest_escapeText_append_ne ih
  | openQuote t ht =>
    rw [expandClosed_of_hasNoEnd ht.quote]
    exact escapeRest_backslash_ne

theorem expandOpen_shortQuote_ne (ht : t = [] ∨ t = ['Q'] ∨ t = ['\\']) :
    expandOpen ('\\' :: (escapeText t ++ expandClosed false r)) ≠
      '\\' :: '\\' :: 'Q' :: (read (t ++ '\\' :: 'E' :: r)).expansion := by
  have hcount : lineEs (expandClosed false r) < lineEs (read r).expansion + 1 :=
    Nat.lt_succ_of_le (losesEs r).outside
  refine expandOpen_ne_of_lineEs ?_
  rw [lineEs_backslash, lineEs_escapeText_append, lineEs_backslash, lineEs_backslash, lineEs_Q]
  obtain rfl | rfl | rfl := ht
  · rw [nil_append, nil_append, expansion_read_escaped (by decide), lineEs_backslash, lineEs_E]
    exact hcount
  · rw [singleton_append, singleton_append, lineEs_Q, expansion_read_char (by decide),
      lineEs_Q, expansion_read_escaped (by decide), lineEs_backslash, lineEs_E]
    exact hcount
  · rw [singleton_append, singleton_append, lineEs_backslash,
      expansion_read_escaped (by decide), lineEs_backslash, lineEs_backslash,
      expansion_read_char (by decide), lineEs_E]
    exact hcount

theorem expandOpen_escapedBackslash_ne (ht : HasNoEnd t) :
    expandOpen ('\\' :: (escapeText t ++ expandClosed false r)) ≠
      '\\' :: '\\' :: 'Q' :: (read (t ++ '\\' :: 'E' :: r)).expansion := by
  by_cases hshort : t = [] ∨ t = ['Q'] ∨ t = ['\\']
  · exact expandOpen_shortQuote_ne hshort
  simp only [not_or] at hshort
  obtain ⟨hnil, hletter, hback⟩ := hshort
  intro h
  by_cases hopen : ∃ rest, escapeText t ++ expandClosed false r = 'Q' :: rest ∧ oneLine rest = true
  · obtain ⟨rest, hrest, hline⟩ := hopen
    rw [hrest, expandOpen_quote hline] at h
    obtain ⟨rest, rfl, hnext⟩ := escapeRest_eq_backslashes h
    obtain ⟨rest, rfl, -⟩ := escapeRest_eq_letter hnext
    obtain rfl | ⟨t', rfl, ht'⟩ := escapeText_append_eq_letter hrest
    · exact hnil rfl
    · exact escapeText_append_ne (by simpa using hletter) ht'
  · rw [expandOpen_cons (by simpa using hopen)] at h
    obtain ⟨rest, hrest⟩ | ⟨rest, hrest, hscan⟩ := expandOpen_eq_start (cons.inj h).2
    · exact escapeText_append_ne hnil hrest
    · -- The quote starts with a backslash that the second pass takes for another start.
      obtain rfl | ⟨t', rfl, ht'⟩ := escapeText_append_eq_backslashes hrest
      · exact hnil rfl
      obtain rfl | ⟨t', rfl, hrest'⟩ := escapeText_append_eq_letter ht'
      · exact hback rfl
      have hend := (hasNoEnd_cons.mp (hasNoEnd_cons.mp ht).1).1
      rw [cons_append, cons_append, expansion_read_quote hend] at hscan
      refine escapeRest_escapeText_append_ne (t := t') (escapeRest_expandClosed_ne r) ?_
      rw [hrest', escapeRest_cons (.inl (by decide)), hscan]
      rfl

theorem Misread.expandOpen_ne (h : Misread cs) :
    expandOpen (expandClosed false cs) ≠ (read cs).expansion := by
  cases h with
  | brokenQuote t₁ t₂ rest ht hline =>
    rw [expansion_read_quote ht, expandClosed_brokenQuote ht]
    exact expandOpen_brokenQuote_ne hline
  | escapedBackslash t rest ht hline =>
    rw [expandClosed_escapedBackslash ht hline, expansion_read_escaped (by decide),
      expansion_read_char (by decide)]
    exact expandOpen_escapedBackslash_ne ht

theorem Misread.expandClosed_start (h : Misread cs) (rest : List Char) :
    expandClosed false cs ≠ 'Q' :: rest := by
  cases h with
  | brokenQuote t₁ t₂ rest ht hline =>
    rw [expandClosed_brokenQuote ht]
    simp
  | escapedBackslash t rest ht hline =>
    rw [expandClosed_escapedBackslash ht hline]
    simp

/-! ### Agreement -/

theorem expandOpen_ending_iff (e : Ending) :
    expandOpen e.text = e.expansion ↔ ∀ t, e = .openQuote t → '\n' ∉ t := by
  cases e with
  | complete | backslash => simp [Ending.text, Ending.expansion, expandOpen]
  | openQuote t =>
    have hopen : (∀ t', Ending.openQuote t = .openQuote t' → '\n' ∉ t') ↔ '\n' ∉ t := by simp
    rw [hopen]
    constructor
    · intro h hmem
      obtain ⟨t₁, t₂, rfl, hfirst⟩ := eq_append_cons_of_mem hmem
      exact expandOpen_brokenQuote_ne hfirst (h.trans (append_nil _).symm)
    · intro hline
      have hrest := escapeRest_append (x := []) hline
      rw [append_nil] at hrest
      have hone : oneLine t = true :=
        oneLine_iff.mpr fun h => hline (mem_of_mem_dropLast h)
      rw [Ending.text, expandOpen_quote hone, hrest]
      exact append_nil _

theorem Ending.text_ne (e : Ending) (rest : List Char) : e.text ≠ 'Q' :: rest := by
  cases e <;> simp [Ending.text]

/-- Expanding quotes in two passes gives the expansion of the pattern read once from left to right
exactly when the passes do not disturb the reading. -/
theorem expandQuotes_eq_expansion_iff (p : String) :
    (read p.toList).text = p.toList ∧
      ((expandQuotes p).toList = (read p.toList).expansion ↔ (read p.toList).Undisturbed) := by
  refine ⟨text_read p.toList, ?_⟩
  rw [expandQuotes, String.toList_ofList]
  obtain ⟨hset, hpass⟩ | ⟨hset, u, rest, hmis, hexp, hpass⟩ := follows p.toList
  · rw [hpass, Reading.expansion, expandOpen_append_eq_iff (Ending.text_ne _),
      expandOpen_ending_iff]
    simp only [← Bool.not_eq_true, oneLine_iff, not_not]
    exact ⟨fun h => ⟨hset, h.1, h.2⟩, fun h => ⟨h.openQuote, h.expanded⟩⟩
  · refine iff_of_false (fun h => ?_) fun h => hset h.toSettled
    rw [hpass, hexp, expandOpen_append_eq_iff hmis.expandClosed_start] at h
    exact hmis.expandOpen_ne h.1

/-- The passes differ from the reading on a quote whose text starts another one, on an escaped
backslash, and on a quote over two lines. -/
theorem expandQuotes_rereads :
    (expandQuotes "\\Q\\Qa\\E" = "\\a" ∧
      (read "\\Q\\Qa\\E".toList).expansion = "\\\\Qa".toList) ∧
    (expandQuotes "\\\\Qa\\E" = "\\a" ∧
      (read "\\\\Qa\\E".toList).expansion = "\\\\Qa\\E".toList) ∧
    expandQuotes "\\Qa\nb\\E" = "\\Qa\nb\\E" ∧
      (read "\\Qa\nb\\E".toList).expansion = "a\\\nb".toList := by
  decide

end RegexCorpus.Pattern
