import RegexCorpus.Proofs.Record.Match

/-!
# Witnesses on lines

A witness is read back from its line with the same table of results, the rows of which may come in
another order.
-/

namespace RegexCorpus
open List

namespace Witness

variable {rows : Rows} {room n : ℕ}

/-- Rows of a table: a result, and the languages that gave it. -/
abbrev Rows := List (MatchData × Value)

def tableOf (rows : Rows) : ResultTable := rows.map fun r => (.record r.1.result, r.2)

def membersOf (rows : Rows) : Members := rows.map fun r => (r.1.line, r.2)

/-- A witness that can be written: a table with different results, and data within the limits. -/
structure Storable (w : Witness) (room : ℕ := Json.nestingLimit) : Prop where
  pattern : w.pattern.FitsAt 1 room
  input : w.input.FitsAt 1 room
  results : ∃ rows : Rows, w.results = .inl (tableOf rows) ∧ (rows.map Prod.fst).Nodup ∧
    ∀ r ∈ rows, r.2.FitsAt 2 room

def SameTable (t u : ResultTable) : Prop :=
  (t.map Prod.fst).Perm (u.map Prod.fst) ∧
    ∀ key v w, (key, v) ∈ t → (key, w) ∈ u → Value.Reordered v w

/-- Two witnesses are the same, dictionaries taken as mappings. -/
structure SameAs (w x : Witness) : Prop where
  pattern : w.pattern.Reordered x.pattern
  input : w.input.Reordered x.input
  results : ∃ t u, w.results = .inl t ∧ x.results = .inl u ∧ SameTable t u

/-! ### Rows -/

theorem keys_membersOf (rows : Rows) :
    (membersOf rows).map Prod.fst = (rows.map Prod.fst).map MatchData.line := by
  simp [membersOf]

theorem mem_membersOf {d : MatchData} {v : Value} (h : (d, v) ∈ rows) :
    (d.line, v) ∈ membersOf rows :=
  mem_map.mpr ⟨(d, v), h, rfl⟩

theorem insert_new {d : MatchData} (h : d ∉ rows.map Prod.fst) (languages : Value) :
    ResultTable.insert (.record d.result) languages (tableOf rows) =
      tableOf (rows ++ [(d, languages)]) := by
  induction rows with
  | nil => rfl
  | cons r rows ih =>
    rw [map_cons, mem_cons, not_or] at h
    have hne : ResultTable.sameKey (.record r.1.result) (.record d.result) = false := by
      rw [MatchData.sameKey_result, decide_eq_false_iff_not]
      exact Ne.symm h.1
    have htail := ih h.2
    rw [tableOf] at htail
    rw [tableOf, map_cons, ResultTable.insert, hne, if_neg (by simp), htail]
    rfl

theorem exists_membersOf {ms : Members}
    (h : ∀ m ∈ ms, ∃ d : MatchData, d.line = m.1) : ∃ rows : Rows, ms = membersOf rows := by
  induction ms with
  | nil => exact ⟨[], rfl⟩
  | cons m ms ih =>
    rw [forall_mem_cons] at h
    obtain ⟨⟨d, hd⟩, h⟩ := h
    obtain ⟨rows, rfl⟩ := ih h
    exact ⟨(d, m.2) :: rows, by rw [membersOf, membersOf, map_cons, hd]⟩

theorem exists_rows {ms : Members}
    (h : ((membersOf rows).map Prod.fst).Perm (ms.map Prod.fst)) :
    ∃ rows' : Rows, ms = membersOf rows' ∧ (rows.map Prod.fst).Perm (rows'.map Prod.fst) := by
  have hlines : ∀ m ∈ ms, ∃ d : MatchData, d.line = m.1 := by
    intro m hm
    have hmem := h.mem_iff.mpr (mem_map_of_mem hm)
    rw [keys_membersOf] at hmem
    obtain ⟨d, -, hd⟩ := mem_map.mp hmem
    exact ⟨d, hd⟩
  obtain ⟨rows', rfl⟩ := exists_membersOf hlines
  rw [keys_membersOf, keys_membersOf, map_perm_map_iff MatchData.line_injective] at h
  exact ⟨rows', rfl, h⟩

theorem readResults_run (hn : 2 ≤ n) (done rows : Rows)
    (h : ((done ++ rows).map Prod.fst).Nodup) (w : Witness) :
    (readResults n (entriesOf (membersOf rows))).run { w with results := .inl (tableOf done) } =
      (.ok (), { w with results := .inl (tableOf (done ++ rows)) }) := by
  induction rows generalizing done with
  | nil =>
    rw [append_nil]
    rfl
  | cons r rows ih =>
    -- the next row has a new result, so it becomes the last one of the table
    have hnew : r.1 ∉ done.map Prod.fst := by
      rw [map_append, nodup_append] at h
      intro hr
      exact h.2.2 _ hr _ (by simp) rfl
    have hstep := ih (done ++ [r]) (by simpa using h)
    rw [append_assoc, singleton_append] at hstep
    rw [← hstep, ← insert_new hnew, membersOf, map_cons, entriesOf_cons, readResults,
      run_lift_bind (MatchData.read_line _ hn), run_lift_bind (MatchData.hashable_result _)]
    rfl

/-! ### Lines -/

theorem mapM_toLine (hn : 2 ≤ n) (rows : Rows) :
    ((tableOf rows).mapM fun (key, languages) => do
      return (Atom.str (← (← key.get).toLine n), languages) : Outcome _) =
      .ok (entriesOf (membersOf rows)) := by
  rw [mapM_eq_ok, tableOf, entriesOf, membersOf, map_map, forall₂_map_left_iff,
    forall₂_map_right_iff, forall₂_same]
  intro r _
  change (do return (Atom.str (← r.1.result.toLine n), r.2) : Outcome _) = _
  rw [MatchData.toLine_result _ hn]
  rfl

theorem toLine_eq {w : Witness} (hn : 2 ≤ n) (hrows : w.results = .inl (tableOf rows))
    (hkeys : ((membersOf rows).map Prod.fst).Nodup) :
    w.toLine n = Json.toLine (.object [("pattern", w.pattern), ("input", w.input),
      ("matchResultToLangs", .object (membersOf rows))]) n := by
  have htable : w.table = .ok (tableOf rows) := by rw [table, hrows]
  rw [toLine, htable]
  change ((tableOf rows).mapM fun (key, languages) => do
      return (Atom.str (← (← key.get).toLine n), languages) : Outcome _) >>= _ = _
  rw [mapM_toLine hn]
  change Json.toLine (.object [("pattern", w.pattern), ("input", w.input),
    ("matchResultToLangs", .dict (Entries.ofPairs (entriesOf (membersOf rows))))]) n = _
  rw [Entries.ofPairs_entriesOf hkeys]
  rfl

theorem read_run {line : String} {obj pattern input : Value} (hn : 2 ≤ n)
    (hobj : Json.ofText line n = .ok obj) (hpattern : obj.get "pattern" = .ok pattern)
    (hinput : obj.get "input" = .ok input)
    (hresults : obj.get "matchResultToLangs" = .ok (.object (membersOf rows)))
    (hnodup : (rows.map Prod.fst).Nodup) :
    (Witness.read (.str line) n).run {} =
      (.ok (), { pattern, input, results := .inl (tableOf rows) }) := by
  rw [Witness.read, ofLine_str, run_lift_bind hobj, setFields_cons_bind _ hpattern,
    setFields_cons_bind _ hinput, setFields_nil_bind, run_modify_bind, run_lift_bind hresults]
  exact readResults_run hn [] rows hnodup { pattern, input }

theorem sameTable_tableOf {rows' : Rows} (hkeys : (rows.map Prod.fst).Perm (rows'.map Prod.fst))
    (h : ∀ k v w, (k, v) ∈ membersOf rows → (k, w) ∈ membersOf rows' → Value.Reordered v w) :
    SameTable (tableOf rows) (tableOf rows') := by
  have hfst (l : Rows) : (tableOf l).map Prod.fst =
      (l.map Prod.fst).map fun d => Held.record d.result := by
    simp [tableOf]
  refine ⟨?_, fun key v w hv hw => ?_⟩
  · rw [hfst, hfst]
    exact hkeys.map _
  · obtain ⟨⟨d, _⟩, hd, hkey⟩ := mem_map.mp hv
    obtain ⟨⟨e, _⟩, he, hkey'⟩ := mem_map.mp hw
    obtain ⟨rfl, rfl⟩ := Prod.mk.inj hkey
    obtain ⟨hresult, rfl⟩ := Prod.mk.inj hkey'
    obtain rfl := MatchData.result_injective (Held.record.inj hresult)
    exact h e.line _ _ (mem_membersOf hd) (mem_membersOf he)

theorem Storable.line {w : Witness} (h : w.Storable room) (hroom : 2 ≤ room) :
    ∃ line x, (∀ {n}, room ≤ n →
      w.toLine n = .ok line ∧ (Witness.read (.str line) n).made {} = .ok x) ∧ w.SameAs x := by
  obtain ⟨rows, hrows, hnodup, hlanguages⟩ := h.results
  have hkeys : ((membersOf rows).map Prod.fst).Nodup := by
    rw [keys_membersOf]
    exact hnodup.map MatchData.line_injective
  have hresults : (Value.object (membersOf rows)).FitsAt 1 room := by
    refine .object hroom hkeys fun m hm => ?_
    obtain ⟨r, hr, rfl⟩ := mem_map.mp hm
    exact hlanguages r hr
  have hobject : (Value.object [("pattern", w.pattern), ("input", w.input),
      ("matchResultToLangs", .object (membersOf rows))]).FitsAt 0 room :=
    .object (by omega) (by simp) (by simp [h.pattern, h.input, hresults])
  obtain ⟨line, ns, hline⟩ := Json.exists_line hobject
  obtain ⟨pattern, hpattern, hr⟩ := Value.get_of_isLineOf hline (k := "pattern") (.head _)
  obtain ⟨input, hinput, hr'⟩ := Value.get_of_isLineOf hline (k := "input") (.tail _ (.head _))
  obtain ⟨results, hresults', hr''⟩ := Value.get_of_isLineOf hline (k := "matchResultToLangs") (.tail _ (.tail _ (.head _)))
  obtain ⟨ms, rfl⟩ := Json.exists_object_of_reordered hr''
  obtain ⟨hperm, hmembers⟩ := Value.reordered_object.mp hr''
  obtain ⟨rows', rfl, hrows'⟩ := exists_rows hperm
  refine ⟨line, { pattern, input, results := .inl (tableOf rows') }, fun hn => ⟨?_, ?_⟩, hr, hr', _,
    _, hrows, rfl, sameTable_tableOf hrows' hmembers⟩
  · rw [toLine_eq (hroom.trans hn) hrows hkeys, hline.toLine hn]
  · exact Edit.made_eq_ok.mpr <| read_run (hroom.trans hn) (hline.ofText hn) hpattern hinput hresults'
      (hrows'.nodup_iff.mp hnodup)

end Witness
end RegexCorpus
