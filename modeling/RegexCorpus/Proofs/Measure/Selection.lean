import RegexCorpus.Proofs.Measure.Finish

/-!
# The batches of a corpus

What is measured of a file are the patterns used in one of the named languages, or all of them when
no language is named. They keep their order, and are cut into batches from the front: every batch is
full but the last, which has what is left.
-/

namespace RegexCorpus.Measure
open List

/-! ### Cutting a list -/

/-- The list is cut into batches of a size, all of them full but the last. -/
structure CutInto {α : Type} (size : ℕ) (xs : List α) (bs : List (List α)) : Prop where
  flatten : bs.flatten = xs
  ne_nil : ∀ b ∈ bs, b ≠ []
  full : ∀ b ∈ bs.dropLast, b.length = size
  last : ∀ b ∈ bs.getLast?, b.length ≤ size

theorem cutInto_batches {α : Type} {size : ℕ} (hsize : 0 < size) (xs : List α) :
    CutInto size xs (batches size xs) := by
  fun_induction batches size xs with
  | case1 xs hstop =>
    obtain rfl := hstop.resolve_right hsize.ne'
    exact ⟨rfl, by simp, by simp, by simp⟩
  | case2 xs hgo ih =>
    have hxs : xs ≠ [] := fun h => hgo (.inl h)
    refine ⟨?_, ?_, ?_, ?_⟩
    · rw [flatten_cons, ih.flatten, take_append_drop]
    · rw [forall_mem_cons]
      exact ⟨by simp [hxs, hsize.ne'], ih.ne_nil⟩
    · cases hrest : batches size (xs.drop size) with
      | nil => simp
      | cons b bs =>
        -- something is left for another batch, so this one is full
        have hleft : xs.drop size ≠ [] := by
          rw [← ih.flatten, hrest]
          simpa using fun h => absurd h (ih.ne_nil b (by simp [hrest]))
        have hlength : size < xs.length := by simpa using hleft
        rw [dropLast_cons_of_ne_nil (by simp), forall_mem_cons, ← hrest]
        exact ⟨by rw [length_take]; omega, ih.full⟩
    · cases hrest : batches size (xs.drop size) with
      | nil => simp [length_take]
      | cons b bs =>
        rw [getLast?_cons_cons, ← hrest]
        exact ih.last

/-! ### Choosing by language -/

theorem isYes_isWanted (languages : List String) (r : Regex) :
    isYes (isWanted languages r) = (languages.isEmpty || isYes (isUsedIn r languages)) := by
  rw [isWanted]
  cases languages.isEmpty <;> rfl

/-- The batches of a file that can be read are the patterns of the file that are found to be used in
one of the languages, or all of them when no language is named, cut in their order. Languages are
told apart by their letters and not by the case of these. -/
theorem loadBatches_selects {h : Host} {path : String} {c : Content} {lines languages : List String}
    (hpath : h.Holds path c) (hlines : c.lines = (lines, none)) (shareStatic : Bool)
    (hknown : ∀ r ∈ regexesOf shareStatic lines, Sortable languages r) :
    ∃ loaded bs, (load path shareStatic).run h = (Except.ok loaded, h) ∧
      (loadBatches path shareStatic languages).run h = (Except.ok bs, h) ∧
      (languages ≠ [] → ∀ r ∈ loaded,
        ∃ used, isUsedIn r languages = .ok used ∧ (used = true ↔ UsedIn languages r)) ∧
      CutInto batchSize
        (loaded.filter fun r => languages.isEmpty || isYes (isUsedIn r languages)) bs := by
  have hload : (load path shareStatic).run h = (Except.ok (regexesOf shareStatic lines), h) :=
    run_bind_eq_ok.mpr ⟨lines, h, hpath.readLines hlines, rfl⟩
  refine ⟨_, batches batchSize _, hload, ?_, fun hsome r hr => ?_, cutInto_batches (by decide) _⟩
  · have hkept := keepUsed_eq_filter hknown
    simp only [isYes_isWanted] at hkept
    rw [loadBatches, run_bind_of_ok hload, run_lift_bind hkept]
    rfl
  · exact isUsedIn_of_located ((hknown r hr).resolve_left hsome) languages

/-! ### Twelve patterns -/

theorem regexesOf_append (share : Bool) (ls ms : List String) :
    regexesOf share (ls ++ ms) = regexesOf share ls ++ regexesOf share ms := by
  simp [regexesOf]

theorem regexesOf_replicate {share : Bool} {l : String} {s : Regex}
    (h : regexesOf share [l] = [s]) (n : ℕ) :
    regexesOf share (.replicate n l) = .replicate n s := by
  induction n with
  | zero => rfl
  | succ n ih =>
    rw [replicate_succ, ← singleton_append, regexesOf_append, h, ih]
    rfl

theorem languages_of_single {s : Regex} {p : String × String} (hp : p ∈ Registry.languages)
    (htotal : s.total = some (.object [(p.1, .int 1)])) : s.languages = .ok [Text.lower p.2] := by
  rw [languages_of_total htotal]
  change ([(Atom.str p.1, Value.int 1)].mapM fun e => do
    return Text.lower (← Registry.language e.1) : Outcome _) = _
  rw [mapM_cons, Regex.language_of_mem p hp]
  rfl

/-- Of eleven patterns used in Python and one used in Go, the former are measured. -/
theorem loadBatches_selects_eleven :
    ∃ l m s bs, (loadBatches "corpus" false ["pYTHON"]).run (hostOf (.replicate 11 l ++ [m])) =
        (Except.ok bs, hostOf (.replicate 11 l ++ [m])) ∧
      CutInto batchSize (.replicate 11 s) bs := by
  obtain ⟨l, s, hl, hs, -, htotal⟩ := exists_line_counted "pypi"
  obtain ⟨m, t, hm, ht, -, htotal'⟩ := exists_line_counted "godoc"
  have hlangs : s.languages = .ok [Text.lower "Python"] :=
    languages_of_single (p := ("pypi", "Python")) (by decide) htotal
  have hlangs' : t.languages = .ok [Text.lower "Go"] :=
    languages_of_single (p := ("godoc", "Go")) (by decide) htotal'
  have hused : isUsedIn s ["pYTHON"] = .ok true := by
    rw [isUsedIn, hlangs, Outcome.ok_bind]
    exact congrArg Except.ok (by decide +kernel)
  have hused' : isUsedIn t ["pYTHON"] = .ok false := by
    rw [isUsedIn, hlangs', Outcome.ok_bind]
    exact congrArg Except.ok (by decide +kernel)
  have hone : ∀ x ∈ List.replicate 11 l ++ [m], Text.IsOneLine x := by
    simp [hl, hm]
  have hregexes : regexesOf false ((List.replicate 11 l ++ [m]).map (· ++ "\n")) =
      .replicate 11 s ++ [t] := by
    rw [map_append, map_replicate, regexesOf_append, regexesOf_replicate hs]
    exact congrArg _ ht
  have hknown : ∀ r ∈ regexesOf false ((List.replicate 11 l ++ [m]).map (· ++ "\n")),
      Sortable ["pYTHON"] r := by
    rw [hregexes]
    simp [Sortable, located_of_languages hlangs, located_of_languages hlangs']
  obtain ⟨loaded, bs, hload, hbs, -, hcut⟩ :=
    loadBatches_selects (holds_hostOf _) (Content.lines_unlines hone) false hknown
  rw [load_interspersed hone (.refl _) (holds_hostOf _), hregexes] at hload
  cases hload
  refine ⟨l, m, s, bs, hbs, ?_⟩
  simpa [filter_replicate, hused, hused', isYes] using hcut

end RegexCorpus.Measure
