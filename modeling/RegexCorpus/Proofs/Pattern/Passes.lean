import RegexCorpus.Proofs.Pattern.Reading

/-!
# The two passes over quotes

Quotes are expanded in two passes. The first one expands the quotes that are closed on their own
line; it knows nothing of escaped backslashes. The second one reads what the first one has left, and
expands one quote that runs to the end of the last line.
-/

namespace RegexCorpus.Pattern
open List

variable {c : Char} {cs t r u v x y z : List Char}

/-! ### Escaped text -/

theorem escapeText_cons : escapeText (c :: t) = escapeChar c ++ escapeText t :=
  flatMap_cons

theorem escapeText_append : escapeText (t ++ u) = escapeText t ++ escapeText u :=
  flatMap_append

theorem escapeChar_cases (c : Char) :
    (escapeChar c = ['\\', c] ∧ c ≠ 'Q') ∨ (escapeChar c = [c] ∧ c ≠ '\\') := by
  unfold escapeChar
  split_ifs with h
  · refine .inl ⟨rfl, ?_⟩
    rintro rfl
    exact absurd h (by decide)
  · refine .inr ⟨rfl, ?_⟩
    rintro rfl
    exact h (by decide)

theorem escapeChar_lineFeed : escapeChar '\n' = ['\\', '\n'] := if_pos (by decide)

theorem escapeChar_append_ne : escapeChar c ++ y ≠ '\\' :: 'Q' :: z := by
  obtain ⟨h, hc⟩ | ⟨h, hc⟩ := escapeChar_cases c <;> simp [h, hc]

theorem escapeChar_append_eq_letter (h : escapeChar c ++ y = 'Q' :: z) : c = 'Q' ∧ y = z := by
  obtain ⟨hc, -⟩ | ⟨hc, -⟩ := escapeChar_cases c
  · simp [hc] at h
  · simpa [hc] using h

theorem escapeChar_append_eq_backslashes (h : escapeChar c ++ y = '\\' :: '\\' :: z) :
    c = '\\' ∧ y = z := by
  obtain ⟨hc, -⟩ | ⟨hc, hne⟩ := escapeChar_cases c <;> simp_all

theorem escapeText_append_ne (ht : t ≠ []) : escapeText t ++ y ≠ '\\' :: 'Q' :: z := by
  cases t with
  | nil => exact absurd rfl ht
  | cons c t =>
    rw [escapeText_cons, append_assoc]
    exact escapeChar_append_ne

theorem escapeText_append_eq_letter (h : escapeText t ++ y = 'Q' :: z) :
    t = [] ∨ ∃ t', t = 'Q' :: t' ∧ escapeText t' ++ y = z := by
  cases t with
  | nil => exact .inl rfl
  | cons c t =>
    rw [escapeText_cons, append_assoc] at h
    obtain ⟨rfl, hrest⟩ := escapeChar_append_eq_letter h
    exact .inr ⟨t, rfl, hrest⟩

theorem escapeText_append_eq_backslashes (h : escapeText t ++ y = '\\' :: '\\' :: z) :
    t = [] ∨ ∃ t', t = '\\' :: t' ∧ escapeText t' ++ y = z := by
  cases t with
  | nil => exact .inl rfl
  | cons c t =>
    rw [escapeText_cons, append_assoc] at h
    obtain ⟨rfl, hrest⟩ := escapeChar_append_eq_backslashes h
    exact .inr ⟨t, rfl, hrest⟩

theorem escapeRest_cons (h : c ≠ '\n' ∨ cs ≠ []) :
    escapeRest (c :: cs) = escapeChar c ++ escapeRest cs := by
  rw [escapeRest]
  intro hc hcs
  simp [hc, hcs] at h

/-- A text that comes out of the second pass as it starts: its first character is escaped, unless it
is the last line feed. -/
theorem exists_of_escapeRest (h : escapeRest x = c :: y) (hc : c ≠ '\n') :
    ∃ d x', x = d :: x' ∧ escapeChar d ++ escapeRest x' = c :: y := by
  cases x with
  | nil => cases h
  | cons d x =>
    by_cases hd : d ≠ '\n' ∨ x ≠ []
    · exact ⟨d, x, rfl, (escapeRest_cons hd).symm.trans h⟩
    · simp only [not_or, not_not] at hd
      obtain ⟨rfl, rfl⟩ := hd
      exact absurd (cons.inj h).1.symm hc

theorem escapeRest_ne : escapeRest x ≠ '\\' :: 'Q' :: y := by
  intro h
  obtain ⟨d, x', -, hd⟩ := exists_of_escapeRest h (by decide)
  exact escapeChar_append_ne hd

theorem escapeRest_eq_letter (h : escapeRest x = 'Q' :: y) :
    ∃ x', x = 'Q' :: x' ∧ escapeRest x' = y := by
  obtain ⟨d, x', rfl, hd⟩ := exists_of_escapeRest h (by decide)
  obtain ⟨rfl, hrest⟩ := escapeChar_append_eq_letter hd
  exact ⟨x', rfl, hrest⟩

theorem escapeRest_backslash_ne : escapeRest ('\\' :: x) ≠ 'Q' :: y := by
  intro h
  obtain ⟨x', hx', -⟩ := escapeRest_eq_letter h
  cases hx'

theorem escapeRest_eq_backslashes (h : escapeRest x = '\\' :: '\\' :: y) :
    ∃ x', x = '\\' :: x' ∧ escapeRest x' = y := by
  obtain ⟨d, x', rfl, hd⟩ := exists_of_escapeRest h (by decide)
  obtain ⟨rfl, hrest⟩ := escapeChar_append_eq_backslashes hd
  exact ⟨x', rfl, hrest⟩

theorem escapeRest_append (ht : '\n' ∉ t) : escapeRest (t ++ x) = escapeText t ++ escapeRest x := by
  induction t with
  | nil => rfl
  | cons c t ih =>
    rw [mem_cons, not_or] at ht
    rw [cons_append, escapeRest_cons (.inl (Ne.symm ht.1)), ih ht.2, escapeText_cons, append_assoc]

/-! ### Lines -/

theorem oneLine_iff : oneLine x = true ↔ '\n' ∉ x.dropLast := by
  induction x with
  | nil => simp [oneLine]
  | cons c x ih =>
    cases x with
    | nil => simp [oneLine]
    | cons d x =>
      rw [dropLast_cons_of_ne_nil (by simp), mem_cons, not_or, ← ih, oneLine,
        Bool.and_eq_true, bne_iff_ne, ne_comm]
      simp

theorem closes_cons (h : ¬(c = '\\' ∧ ∃ rest, cs = 'E' :: rest)) :
    closes (c :: cs) = (c != '\n' && closes cs) := by
  rw [closes]
  exact fun rest hc hcs => h ⟨hc, rest, hcs⟩

theorem closes_of_hasNoEnd (ht : HasNoEnd t) : closes t = false := by
  induction t with
  | nil => rfl
  | cons c t ih =>
    rw [hasNoEnd_cons] at ht
    rw [closes_cons ht.2, ih ht.1, Bool.and_false]

theorem closes_append (ht : '\n' ∉ t) : closes (t ++ '\\' :: 'E' :: r) = true := by
  induction t with
  | nil => rfl
  | cons c t ih =>
    rw [mem_cons, not_or] at ht
    by_cases hend : c = '\\' ∧ ∃ rest, t ++ '\\' :: 'E' :: r = 'E' :: rest
    · obtain ⟨rfl, rest, hrest⟩ := hend
      rw [cons_append, hrest]
      rfl
    · rw [cons_append, closes_cons hend, ih ht.2, Bool.and_true, bne_iff_ne]
      exact Ne.symm ht.1

theorem closes_append_lineFeed (ht : HasNoEnd t) : closes (t ++ '\n' :: x) = false := by
  induction t with
  | nil => rfl
  | cons c t ih =>
    rw [hasNoEnd_cons] at ht
    rw [cons_append, closes_cons, ih ht.1, Bool.and_false]
    rintro ⟨rfl, rest, hrest⟩
    cases t with
    | nil => cases hrest
    | cons d t =>
      obtain ⟨rfl, -⟩ := cons.inj hrest
      exact ht.2 ⟨rfl, t, rfl⟩

theorem exists_of_closes (h : closes x = true) :
    ∃ t rest, x = t ++ '\\' :: 'E' :: rest ∧ HasNoEnd t ∧ '\n' ∉ t := by
  obtain hnone | ⟨t, rest, rfl, ht⟩ := hasNoEnd_or x
  · rw [closes_of_hasNoEnd hnone] at h
    cases h
  · refine ⟨t, rest, rfl, ht, fun hline => ?_⟩
    obtain ⟨t₁, t₂, rfl⟩ := append_of_mem hline
    rw [append_assoc, cons_append, closes_append_lineFeed ht.left] at h
    cases h

/-! ### The first pass -/

theorem expandClosed_char {q : Bool} (hc : c ≠ '\\') :
    expandClosed q (c :: cs) = (if q then escapeChar c else [c]) ++ expandClosed q cs := by
  rw [expandClosed]
  all_goals simp [hc]

theorem expandClosed_backslash (h : ∀ rest, cs = 'Q' :: rest → closes rest = false) :
    expandClosed false ('\\' :: cs) = '\\' :: expandClosed false cs := by
  cases cs with
  | nil => rfl
  | cons d cs =>
    by_cases hQ : d = 'Q'
    · subst hQ
      rw [expandClosed, if_neg (by simp), if_neg (by simp [h]), expandClosed_char (by decide)]
      rfl
    · by_cases hE : d = 'E'
      · subst hE
        rw [expandClosed, if_neg (by simp), expandClosed_char (by decide)]
        rfl
      · rw [expandClosed]
        all_goals simp [hQ, hE]

theorem expandClosed_quoted_cons (h : ¬(c = '\\' ∧ ∃ rest, cs = 'E' :: rest)) :
    expandClosed true (c :: cs) = escapeChar c ++ expandClosed true cs := by
  by_cases hQ : c = '\\' ∧ ∃ rest, cs = 'Q' :: rest
  · obtain ⟨rfl, rest, rfl⟩ := hQ
    rw [expandClosed, if_pos rfl, expandClosed_char (by decide)]
    rfl
  · rw [expandClosed]
    · rfl
    · exact fun rest hc hcs => hQ ⟨hc, rest, hcs⟩
    · exact fun rest hc hcs => h ⟨hc, rest, hcs⟩

theorem expandClosed_quoted (ht : HasNoEnd t) :
    expandClosed true (t ++ '\\' :: 'E' :: r) = escapeText t ++ expandClosed false r := by
  induction t with
  | nil => rfl
  | cons c t ih =>
    rw [cons_append, expandClosed_quoted_cons (ht.not_end r), ih (hasNoEnd_cons.mp ht).1,
      escapeText_cons, append_assoc]

theorem expandClosed_quote (ht : HasNoEnd t) (hline : '\n' ∉ t) :
    expandClosed false ('\\' :: 'Q' :: (t ++ '\\' :: 'E' :: r)) =
      escapeText t ++ expandClosed false r := by
  rw [expandClosed, if_neg (by simp), if_pos (closes_append hline), expandClosed_quoted ht]

theorem expandClosed_append_lineFeed (ht : HasNoEnd t) :
    expandClosed false (t ++ '\n' :: x) = t ++ '\n' :: expandClosed false x := by
  induction t with
  | nil => exact expandClosed_char (by decide)
  | cons c t ih =>
    have ht' := (hasNoEnd_cons.mp ht).1
    rw [cons_append, cons_append, ← ih ht']
    by_cases hc : c = '\\'
    · subst hc
      refine expandClosed_backslash fun rest hrest => ?_
      cases t with
      | nil => cases hrest
      | cons d t =>
        obtain ⟨-, rfl⟩ := cons.inj hrest
        exact closes_append_lineFeed (hasNoEnd_cons.mp ht').1
    · exact expandClosed_char hc

theorem expandClosed_of_hasNoEnd (ht : HasNoEnd t) : expandClosed false t = t := by
  induction t with
  | nil => rfl
  | cons c t ih =>
    have ht' := (hasNoEnd_cons.mp ht).1
    have hrest : expandClosed false (c :: t) = c :: expandClosed false t := by
      by_cases hc : c = '\\'
      · subst hc
        refine expandClosed_backslash fun rest hrest => ?_
        subst hrest
        exact closes_of_hasNoEnd (hasNoEnd_cons.mp ht').1
      · exact expandClosed_char hc
    rw [hrest, ih ht']

/-! ### The second pass -/

theorem expandOpen_cons (h : ¬(c = '\\' ∧ ∃ rest, cs = 'Q' :: rest ∧ oneLine rest = true)) :
    expandOpen (c :: cs) = c :: expandOpen cs := by
  by_cases hQ : c = '\\' ∧ ∃ rest, cs = 'Q' :: rest
  · obtain ⟨rfl, rest, rfl⟩ := hQ
    have hline : ¬oneLine rest = true := fun hrest => h ⟨rfl, rest, rfl, hrest⟩
    have hletter : expandOpen ('Q' :: rest) = 'Q' :: expandOpen rest := by
      rw [expandOpen]
      simp
    rw [expandOpen, if_neg hline, hletter]
  · rw [expandOpen]
    exact fun rest hc hcs => hQ ⟨hc, rest, hcs⟩

theorem expandOpen_quote (h : oneLine cs = true) :
    expandOpen ('\\' :: 'Q' :: cs) = escapeRest cs := by
  rw [expandOpen, if_pos h]

/-- The second pass keeps a text in front exactly when nothing in it is read as the start of a
quote. -/
theorem expandOpen_append_eq_iff (hx : ∀ rest, x ≠ 'Q' :: rest) :
    expandOpen (t ++ x) = t ++ y ↔
      expandOpen x = y ∧ ∀ u v, t = u ++ '\\' :: 'Q' :: v → oneLine (v ++ x) = false := by
  induction t with
  | nil => simp
  | cons c t ih =>
    by_cases hQ : c = '\\' ∧ ∃ rest, t ++ x = 'Q' :: rest ∧ oneLine rest = true
    · obtain ⟨rfl, rest, hrest, hline⟩ := hQ
      cases t with
      | nil => exact absurd hrest (hx rest)
      | cons d t =>
        obtain ⟨rfl, rfl⟩ := cons.inj hrest
        refine iff_of_false (fun h => ?_) fun h => ?_
        · -- what is escaped never starts with a mark, so that the mark cannot come back
          exact escapeRest_ne ((expandOpen_quote hline).symm.trans h)
        · exact Bool.false_ne_true ((h.2 [] t rfl).symm.trans hline)
    · rw [cons_append, cons_append, expandOpen_cons hQ, cons.injEq, and_iff_right rfl, ih]
      refine and_congr_right fun _ => ⟨fun h u v huv => ?_, fun h u v huv => ?_⟩
      · cases u with
        | nil =>
          obtain ⟨rfl, rfl⟩ := cons.inj huv
          exact Bool.eq_false_iff.mpr fun hline => hQ ⟨rfl, _, rfl, hline⟩
        | cons d u => exact h u v (cons.inj huv).2
      · exact h (c :: u) v (by rw [huv, cons_append])

/-- What the second pass gives starts with `\Q` only if its text does, or if a quote starts after a
backslash. -/
theorem expandOpen_eq_start (h : expandOpen x = '\\' :: 'Q' :: y) :
    (∃ rest, x = '\\' :: 'Q' :: rest) ∨
      ∃ rest, x = '\\' :: '\\' :: 'Q' :: 'Q' :: rest ∧ escapeRest rest = y := by
  cases x with
  | nil => cases h
  | cons c x =>
    by_cases hQ : c = '\\' ∧ ∃ rest, x = 'Q' :: rest ∧ oneLine rest = true
    · obtain ⟨rfl, rest, rfl, -⟩ := hQ
      exact .inl ⟨rest, rfl⟩
    · rw [expandOpen_cons hQ, cons.injEq] at h
      obtain ⟨rfl, hx⟩ := h
      cases x with
      | nil => cases hx
      | cons d x =>
        by_cases hQ' : d = '\\' ∧ ∃ rest, x = 'Q' :: rest ∧ oneLine rest = true
        · obtain ⟨rfl, rest, rfl, hline⟩ := hQ'
          rw [expandOpen_quote hline] at hx
          obtain ⟨rest', rfl, hrest⟩ := escapeRest_eq_letter hx
          exact .inr ⟨rest', rfl, hrest⟩
        · rw [expandOpen_cons hQ', cons.injEq] at hx
          exact .inl ⟨x, by rw [hx.1]⟩

end RegexCorpus.Pattern
