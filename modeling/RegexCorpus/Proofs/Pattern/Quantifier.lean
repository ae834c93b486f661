import RegexCorpus.Proofs.Pattern.Brace

/-!
# Quantifiers among escaped braces

A quantifier such as `{2,5}` never opens a group that is escaped. But a brace somewhere before it
may open a group that is still open at the quantifier, and such a group takes the closing brace of
the quantifier for its own. A quantifier stays as it is exactly when no group is left open before
it.
-/

namespace RegexCorpus.Pattern
open List

variable {r v m before q after : List Char} {c : Char}

def IsNumeral (m : List Char) : Prop := m ≠ [] ∧ ∀ c ∈ m, Text.isDigit c = true

/-- A quantifier in braces: so many times, at least so many times, or between two numbers. -/
inductive IsQuantifier : List Char → Prop
  | exactly {m : List Char} (hm : IsNumeral m) : IsQuantifier ('\x7b' :: (m ++ ['\x7d']))
  | atLeast {m : List Char} (hm : IsNumeral m) : IsQuantifier ('\x7b' :: (m ++ [',', '\x7d']))
  | between {m n : List Char} (hm : IsNumeral m) (hn : IsNumeral n) :
      IsQuantifier ('\x7b' :: (m ++ ',' :: (n ++ ['\x7d'])))

/-- A brace in the text opens a group that no brace in the text closes. -/
def LeavesOpen (before : List Char) : Prop :=
  ∃ u w, before = u ++ '\x7b' :: w ∧ '\x7d' ∉ w ∧ OpensAfter u

/-! ### Bounds -/

/-- What may stand between the braces of a quantifier: digits and commas, at least one of them. -/
def IsBounds (m : List Char) : Prop := m ≠ [] ∧ ∀ c ∈ m, Text.isDigit c = true ∨ c = ','

theorem IsQuantifier.exists_bounds (h : IsQuantifier q) :
    ∃ m, q = '\x7b' :: (m ++ ['\x7d']) ∧ IsBounds m := by
  cases h with
  | @exactly m hm => exact ⟨m, rfl, hm.1, fun c hc => .inl (hm.2 c hc)⟩
  | @atLeast m hm =>
    refine ⟨m ++ [','], by simp, by simp, fun c hc => ?_⟩
    rw [mem_append, mem_singleton] at hc
    exact hc.imp_left (hm.2 c)
  | @between m n hm hn =>
    refine ⟨m ++ ',' :: n, by simp, by simp, fun c hc => ?_⟩
    rw [mem_append, mem_cons] at hc
    obtain hc | rfl | hc := hc
    · exact .inl (hm.2 c hc)
    · exact .inr rfl
    · exact .inl (hn.2 c hc)

theorem IsBounds.not_mem (h : IsBounds m) (hdigit : Text.isDigit c = false) (hcomma : c ≠ ',') :
    c ∉ m := by
  intro hc
  obtain hc | hc := h.2 c hc
  · rw [hdigit] at hc
    cases hc
  · exact hcomma hc

theorem IsBounds.closed (h : IsBounds m) : '\x7d' ∉ m := h.not_mem (by decide) (by decide)

theorem IsBounds.not_isBody (h : IsBounds m) : ¬IsBody m := by
  rintro ⟨-, -, c, hc, hdigit, hcomma⟩
  exact h.not_mem hdigit hcomma hc

/-- The brace of a quantifier and its bounds would do as the end of a group's body. -/
theorem IsBounds.isBody_cons (h : IsBounds m) : IsBody ('\x7b' :: m) := by
  have hbackslash : '\\' ∉ m := h.not_mem (by decide) (by decide)
  refine ⟨by simpa using h.closed, fun hlast => ?_, '\x7b', mem_cons_self, by decide,
    by decide⟩
  have hmem := hlast.subset (mem_singleton_self _)
  simp [hbackslash] at hmem

/-! ### Braces of quantifiers -/

theorem leavesOpen_append : LeavesOpen (r ++ '\x7d' :: v) ↔ LeavesOpen v := by
  have hbraces : '\x7d' ≠ '\x7b' := by decide
  constructor
  · rintro ⟨u, w, htext, hw, hu⟩
    obtain ⟨d, -, rfl⟩ | ⟨d, rfl, rfl⟩ := (append_cons_eq_append_cons hbraces).mp htext
    · simp at hw
    · exact ⟨d, w, rfl, hw, opensAfter_append.mp hu⟩
  · rintro ⟨u, w, rfl, hw, hu⟩
    exact ⟨r ++ '\x7d' :: u, w, by simp, hw, opensAfter_append.mpr hu⟩

theorem IsFirst.of_bounds {u body : List Char} (hm : IsBounds m)
    (h : IsFirst [] (r ++ '\x7b' :: m) u body) : ∃ w, r = u ++ '\x7b' :: w := by
  have hopening : '\x7b' ∉ m := hm.not_mem (by decide) (by decide)
  obtain ⟨d, rfl, hd⟩ | ⟨d, hd, hbody⟩ := append_eq_append_iff.mp h.text
  · obtain ⟨rfl, hbody⟩ | ⟨d, rfl, rfl⟩ := cons_eq_append_iff.mp hd
    · cases hbody
      exact absurd h.isBody hm.not_isBody
    · simp at hopening
  · obtain ⟨rfl, hbody⟩ | ⟨d, rfl, -⟩ := cons_eq_append_iff.mp hbody
    · cases hbody
      exact absurd h.isBody hm.not_isBody
    · exact ⟨d, hd⟩

theorem isGroupBrace_quantifier (hm : IsBounds m) {k : ℕ} (hk : k ≤ m.length + 1) :
    IsGroupBrace (before ++ '\x7b' :: (m ++ '\x7d' :: after)) (before.length + k) ↔
      k = m.length + 1 ∧ LeavesOpen before := by
  induction before using run_induction with
  | run r v hr ih =>
    have hplace : (r ++ '\x7d' :: v).length + k = r.length + 1 + (v.length + k) := by
      simp only [length_append, length_cons]
      omega
    rw [leavesOpen_append, hplace, append_assoc, cons_append, isGroupBrace_append_right hr, ih]
  | last r hr =>
    have hrun : '\x7d' ∉ r ++ '\x7b' :: m := by simpa using ⟨hr, hm.closed⟩
    have hlength : (r ++ '\x7b' :: m).length = r.length + (m.length + 1) := by simp
    rw [← cons_append, ← append_assoc, isGroupBrace_append_left hrun (by omega), hlength]
    constructor
    · rintro ⟨u, body, hfirst, hplace⟩
      obtain ⟨w, rfl⟩ := hfirst.of_bounds hm
      rw [mem_append, mem_cons, not_or, not_or] at hr
      simp only [length_append, length_cons] at hplace
      exact ⟨by omega, u, w, rfl, hr.2.2, hfirst.opens⟩
    · rintro ⟨rfl, u, w, rfl, hw, hu⟩
      obtain ⟨front, body, hfirst, -⟩ | ⟨hnone, -⟩ := escapeAfter_run (u := []) hrun after
      · exact ⟨front, body, hfirst, .inr rfl⟩
      · exact absurd (hm.isBody_cons.append hw) (hnone u _ (by simp) hu)

/-- The groups whose braces are escaped are no quantifiers. A quantifier stays as it is when no
group is open before it; otherwise its closing brace is escaped. -/
theorem escapeBraces_quantifier {p : String} (hp : p.toList = before ++ q ++ after)
    (hq : IsQuantifier q) :
    (escapeBraces p).toList = escapedPiece p.toList 0 before ++
        escapedPiece p.toList before.length q ++
        escapedPiece p.toList (before.length + q.length) after ∧
      (∀ u body v, IsGroup p.toList u body v → ¬IsQuantifier ('\x7b' :: (body ++ ['\x7d']))) ∧
      (¬LeavesOpen before → escapedPiece p.toList before.length q = q) ∧
      (LeavesOpen before →
        escapedPiece p.toList before.length q = q.dropLast ++ ['\\', '\x7d']) := by
  classical
  obtain ⟨m, rfl, hm⟩ := hq.exists_bounds
  have htext : p.toList = before ++ '\x7b' :: (m ++ '\x7d' :: after) := by simp [hp]
  have hplace (k : ℕ) (hk : k ≤ m.length + 1) : IsGroupBrace p.toList (before.length + k) ↔
      k = m.length + 1 ∧ LeavesOpen before := htext ▸ isGroupBrace_quantifier hm hk
  refine ⟨?_, fun u body v hgroup hquantifier => ?_, fun hclosed => ?_, fun hopen => ?_⟩
  · rw [toList_escapeBraces, escapeAfter_eq_escapedPiece]
    nth_rewrite 2 [hp]
    unfold escapedPiece
    rw [escapeAt_append, escapeAt_append, Nat.zero_add, Nat.zero_add, length_append]
  · obtain ⟨m', heq, hm'⟩ := hquantifier.exists_bounds
    obtain rfl : body = m' := by simpa using heq
    exact hm'.not_isBody hgroup.isBody
  · refine escapeAt_eq_self fun k hk => ?_
    rw [hplace k (by simpa [Nat.lt_succ_iff] using hk)]
    exact fun h => hclosed h.2
  · have hfront : ∀ k < ('\x7b' :: m).length, ¬IsGroupBrace p.toList (before.length + k) := by
      intro k hk
      rw [length_cons] at hk
      rw [hplace k hk.le]
      exact fun h => hk.ne h.1
    have hlast : IsGroupBrace p.toList (before.length + ('\x7b' :: m).length) :=
      (hplace _ le_rfl).mpr ⟨rfl, hopen⟩
    rw [escapedPiece, ← cons_append, escapeAt_append, escapeAt_eq_self hfront,
      escapeAt_cons_of_pos hlast, dropLast_concat]
    rfl

theorem isNumeral_singleton (hc : Text.isDigit c = true) : IsNumeral [c] :=
  ⟨by simp, by simpa using hc⟩

/-- After a group that is escaped, a quantifier stays. -/
theorem escapeBraces_quantifier_afterGroup :
    IsQuantifier "\x7b2,\x7d".toList ∧ ¬LeavesOpen "\x7bx\x7da".toList ∧
      escapedPiece "\x7bx\x7da\x7b2,\x7d".toList 4 "\x7b2,\x7d".toList = "\x7b2,\x7d".toList := by
  have htext : "\x7bx\x7da\x7b2,\x7d".toList =
      "\x7bx\x7da".toList ++ "\x7b2,\x7d".toList ++ [] := by decide
  have hq : IsQuantifier "\x7b2,\x7d".toList :=
    .atLeast (isNumeral_singleton (c := '2') (by decide))
  have hclosed : ¬LeavesOpen "\x7bx\x7da".toList := by
    change ¬LeavesOpen (['\x7b', 'x'] ++ '\x7d' :: ['a'])
    rw [leavesOpen_append]
    rintro ⟨u, w, h, -⟩
    have hbrace : '\x7b' ∈ ['a'] := by
      rw [h]
      simp
    simp at hbrace
  exact ⟨hq, hclosed, (escapeBraces_quantifier htext hq).2.2.1 hclosed⟩

/-- A brace in brackets takes the closing brace of a quantifier for its own, and the quantifier is
lost. -/
theorem escapeBraces_loses_quantifier :
    IsQuantifier "\x7b2\x7d".toList ∧
      "[\x7b]a\x7b2\x7d".toList = "[\x7b]a".toList ++ "\x7b2\x7d".toList ∧
      escapeBraces "[\x7b]a\x7b2\x7d" = "[\\\x7b]a\x7b2\\\x7d" ∧
      ¬"\x7b2\x7d".toList <:+: (escapeBraces "[\x7b]a\x7b2\x7d").toList :=
  ⟨.exactly (isNumeral_singleton (c := '2') (by decide)), by decide, by decide, by decide⟩

end RegexCorpus.Pattern
