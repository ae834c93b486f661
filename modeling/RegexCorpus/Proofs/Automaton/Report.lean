import Mathlib.Algebra.Order.BigOperators.Group.List
import RegexCorpus.Proofs.Automaton.Count
import RegexCorpus.Proofs.Automaton.Density
import RegexCorpus.Proofs.Automaton.Text
import RegexCorpus.Proofs.Measure.Report

/-!
# Measures of the automata in reports

Reports are measured one by one. What is measured depends on the text of the graph alone: without a
graph that can be read both measures are unknown, and a graph that can be read has a density, also
when its paths cannot be counted.

The number of paths was meant to be zero for an automaton that accepts nothing. It never is: such an
automaton has a pair that is not joined, or no pair at all, and then there is no count.
-/

namespace RegexCorpus.Automaton
open List

variable {limits : Limits} {graph : Option Value} {s : String} {sources targets : List ℤ}
  {es : List Edge}

/-! ### Graphs in reports -/

/-- The graph in a report is a text that gives sources, targets and these edges. -/
def Gives (graph : Option Value) (es : List Edge) : Prop :=
  ∃ s sources targets, graph = some (.str s) ∧ sources ≠ [] ∧ targets ≠ [] ∧
    Spells s sources targets es

/-- There is no graph in a report, a note that it was not found in time, or something else that does
not give sources, targets and edges. -/
inductive Unmeasurable : Option Value → Prop
  | absent : Unmeasurable none
  | null : Unmeasurable (some .null)
  | late : Unmeasurable (some (.str "TIMEOUT"))
  | unreadable {v : Value} (h : ¬∃ es, Gives (some v) es) : Unmeasurable (some v)

theorem gives_or_unmeasurable (graph : Option Value) :
    (∃ es, Gives graph es) ∨ Unmeasurable graph := by
  cases graph with
  | none => exact .inr .absent
  | some v => exact (Classical.em _).imp_right .unreadable

theorem not_spells_timeout : ¬Spells "TIMEOUT" sources targets es := by
  rintro ⟨first, second, rest, hlines, -⟩
  rw [Text.splitOn_of_not_mem (by simp)] at hlines
  cases hlines

theorem ofText_of_spells (hs : sources ≠ []) (ht : targets ≠ []) (h : Spells s sources targets es) :
    ofText s = .ok (some ⟨sources, targets, .ofEdges es⟩) :=
  ofText_eq_some.mpr ⟨hs, ht, es, h, rfl⟩

theorem not_gives_of_empty (h : Spells s sources targets es)
    (hempty : sources = [] ∨ targets = []) : ¬∃ es, Gives (some (.str s)) es := by
  rintro ⟨_, s', _, _, hs', hs, ht, hspells⟩
  obtain rfl : s = s' := by cases hs'; rfl
  have hread := ofText_of_spells hs ht hspells
  rw [ofText_of_empty h hempty] at hread
  cases hread

theorem Measures.ofText_of_not_gives {v : Value} (h : ¬∃ es, Gives (some v) es) :
    Measures.ofText limits v = .unknown := by
  unfold Measures.ofText
  split
  · next s =>
    split
    · next a ha =>
      obtain ⟨hs, ht, es, hspells, -⟩ := ofText_eq_some.mp ha
      exact absurd ⟨es, s, _, _, rfl, hs, ht, hspells⟩ h
    · rfl
  · rfl

theorem measuresOf_unmeasurable (h : Unmeasurable graph) :
    Measure.measuresOf limits graph = .unknown := by
  cases h with
  | absent | null | late => rfl
  | unreadable h =>
    unfold Measure.measuresOf
    split
    · rfl
    · rfl
    · next heq =>
      split_ifs
      · rfl
      · exact Measures.ofText_of_not_gives (Option.some.inj heq ▸ h)

theorem measuresOf_text :
    Measure.measuresOf limits (some (.str s)) =
      if (Value.str s).same (.str "TIMEOUT") then .unknown else .ofText limits (.str s) := by
  simp [Measure.measuresOf]

theorem measuresOf_of_spells (hs : sources ≠ []) (ht : targets ≠ [])
    (h : Spells s sources targets es) :
    Measure.measuresOf limits (some (.str s)) =
      .ofAutomaton limits ⟨sources, targets, .ofEdges es⟩ := by
  have hnote : ¬(Value.str s).same (.str "TIMEOUT") = true := by
    rw [Value.same_str]
    rintro ⟨⟩
    exact not_spells_timeout h
  rw [measuresOf_text, if_neg hnote]
  simp only [Measures.ofText, ofText_of_spells hs ht h]

theorem isDensity_of_gives (h : Gives graph es) :
    Graph.IsDensity es (Measure.measuresOf limits graph).density := by
  obtain ⟨s, sources, targets, rfl, hs, ht, hspells⟩ := h
  rw [measuresOf_of_spells hs ht hspells]
  exact Graph.isDensity_densityOf (Graph.gathers_ofEdges es)

/-- Reports are measured one by one, and measuring never fails. Only a graph that cannot be read has
no density; each other has one, even if there is no count of its paths. -/
theorem measures_pointwise (limits : Limits) :
    ∃ measure : Option Value → Measures,
      (∀ reports : List Entries, (reports.map Value.dict).mapM (Measures.ofReport limits) =
        .ok (reports.map fun report => measure (Entries.find? report (.str "efreeNFAGraph")))) ∧
      ∀ graph, ((measure graph).density = .int (-1) ↔ Unmeasurable graph) ∧
        (∀ es, Gives graph es → Graph.IsDensity es (measure graph).density) ∧
        ((measure graph).paths ≠ -1 →
          ∃ es, Gives graph es ∧ Graph.IsDensity es (measure graph).density) := by
  refine ⟨Measure.measuresOf limits, fun reports => ?_, fun graph => ⟨⟨?_, ?_⟩, ?_, ?_⟩⟩
  · rw [mapM_eq_ok, forall₂_map_left_iff, forall₂_map_right_iff, forall₂_same]
    exact fun report _ => Measure.ofReport_dict limits report
  · intro hdensity
    obtain ⟨es, hgives⟩ | hnot := gives_or_unmeasurable graph
    · exact absurd hdensity (isDensity_of_gives hgives).ne_unknown
    · exact hnot
  · intro hnot
    rw [measuresOf_unmeasurable hnot]
    rfl
  · exact fun es hgives => isDensity_of_gives hgives
  · intro hpaths
    obtain ⟨es, hgives⟩ | hnot := gives_or_unmeasurable graph
    · exact ⟨es, hgives, isDensity_of_gives hgives⟩
    · rw [measuresOf_unmeasurable hnot] at hpaths
      exact absurd rfl hpaths

/-! ### Automata that accept nothing -/

/-- What the number of paths was meant to tell: it is zero if no target can be reached from a
source, and positive otherwise. -/
structure TellsNull (g : Graph) (sources targets : List ℤ) (paths : ℤ) : Prop where
  zero_iff : paths = 0 ↔ ∀ u ∈ sources, ∀ v ∈ targets, ¬Relation.ReflTransGen g.Adj u v
  pos : paths ≠ 0 → 0 < paths

/-- There are pairs of a source and a target, and those that are looked at are joined. -/
structure IsCountable (g : Graph) (most : ℕ) (sources targets : List ℤ) : Prop where
  sources_ne : sources ≠ []
  targets_ne : targets ≠ []
  joined : ∀ u v, IsVisited g most sources targets u v → g.Joined u v

variable {g : Graph} {most : ℕ}

/-- The pairs of the first source are always looked at. -/
theorem IsCountable.exists_joined (h : IsCountable g most sources targets) :
    ∃ u ∈ sources, ∃ v ∈ targets, g.Joined u v := by
  obtain ⟨u, rest, rfl⟩ := exists_cons_of_ne_nil h.sources_ne
  obtain ⟨v, hv⟩ := exists_mem_of_ne_nil _ h.targets_ne
  exact ⟨u, mem_cons_self, v, hv, h.joined u v ⟨hv, [], rest, rfl, Nat.zero_le _⟩⟩

theorem pathCount_le_pathTotal {u v : ℤ} (hu : u ∈ sources) (hv : v ∈ targets) :
    g.pathCount u v ≤ g.pathTotal sources targets :=
  (single_le_sum (by simp) _ (mem_map_of_mem hv)).trans
    (single_le_sum (by simp) _ (mem_map_of_mem hu))

theorem IsCountable.pathTotal_pos (hg : g.WellFormed) (h : IsCountable g most sources targets) :
    0 < g.pathTotal sources targets := by
  obtain ⟨u, hu, v, hv, hjoined⟩ := h.exists_joined
  exact (hjoined.pathCount_pos hg).trans_le (pathCount_le_pathTotal hu hv)

theorem paths_of_spells (hlimit : 0 < limits.paths) (h : Spells s sources targets es)
    (hsearch : (Graph.ofEdges es).SearchedBy (limits.search (.ofEdges es)))
    (hclock : limits.InTime (min limits.most ((Graph.ofEdges es).pathTotal sources targets))) :
    IsCountable (.ofEdges es) limits.most sources targets ∧
        0 < (Measure.measuresOf limits (some (.str s))).paths ∨
      ¬IsCountable (.ofEdges es) limits.most sources targets ∧
        (Measure.measuresOf limits (some (.str s))).paths = -1 := by
  have hg : (Graph.ofEdges es).WellFormed := (Graph.gathers_ofEdges es).wellFormed
  by_cases hempty : sources = [] ∨ targets = []
  · refine .inr ⟨fun hc => hempty.elim hc.sources_ne hc.targets_ne, ?_⟩
    rw [measuresOf_unmeasurable (.unreadable (not_gives_of_empty h hempty))]
    rfl
  · rw [not_or] at hempty
    rw [measuresOf_of_spells hempty.1 hempty.2 h]
    obtain ⟨hall, hok⟩ | ⟨⟨u, v, hvisits, hnot⟩, f, hfails⟩ :=
      countPaths_run (a := ⟨sources, targets, .ofEdges es⟩) hg hsearch hclock
    · have hc : IsCountable (.ofEdges es) limits.most sources targets :=
        ⟨hempty.1, hempty.2, hall⟩
      refine .inl ⟨hc, ?_⟩
      have hmost : 0 < limits.most := by
        unfold Limits.most
        omega
      have hpos := hc.pathTotal_pos hg
      rw [paths_of_ok hok]
      exact Int.natCast_pos.mpr (lt_min hmost hpos)
    · exact .inr ⟨fun hc => hnot (hc.joined u v hvisits), paths_of_error hfails⟩

/-- The number of paths is never zero. It is positive when the pairs that are looked at are joined,
and unknown otherwise, so that only then it tells whether a target can be reached. -/
theorem paths_never_zero {report : Entries} (hlimit : 0 < limits.paths)
    (hgraph : Entries.find? report (.str "efreeNFAGraph") = some (.str s))
    (hspells : Spells s sources targets es)
    (hsearch : (Graph.ofEdges es).SearchedBy (limits.search (.ofEdges es)))
    (hclock : limits.InTime (min limits.most ((Graph.ofEdges es).pathTotal sources targets))) :
    ∃ m, Measures.ofReport limits (.dict report) = .ok m ∧ m.paths ≠ 0 ∧
      (m.paths = -1 ↔ ¬IsCountable (.ofEdges es) limits.most sources targets) ∧
      (0 < m.paths ↔ IsCountable (.ofEdges es) limits.most sources targets) ∧
      (TellsNull (.ofEdges es) sources targets m.paths ↔
        IsCountable (.ofEdges es) limits.most sources targets) := by
  refine ⟨_, (Measure.ofReport_dict limits report).trans (by rw [hgraph]), ?_⟩
  obtain ⟨hc, hpaths⟩ | ⟨hc, hpaths⟩ := paths_of_spells hlimit hspells hsearch hclock
  · refine ⟨by omega, iff_of_false (by omega) (not_not.mpr hc), iff_of_true hpaths hc,
      iff_of_true ⟨iff_of_false (by omega) ?_, fun _ => hpaths⟩ hc⟩
    obtain ⟨u, hu, v, hv, hjoined⟩ := hc.exists_joined
    exact fun hnone => hnone u hu v hv hjoined.reaches
  · refine ⟨by omega, iff_of_true hpaths hc, iff_of_false (by omega) hc, iff_of_false ?_ hc⟩
    intro htells
    have hpos := htells.pos (by omega)
    omega

/-- A report with this graph and nothing else. -/
def reportOn (sources targets : List ℤ) (es : List Edge) : Entries :=
  [(.str "efreeNFAGraph", .str (toText sources targets es))]

theorem find?_reportOn (sources targets : List ℤ) (es : List Edge) :
    Entries.find? (reportOn sources targets es) (.str "efreeNFAGraph") =
      some (.str (toText sources targets es)) := by
  rw [reportOn, Entries.find?_cons_str, if_pos rfl]

/-- One target can be reached, the other cannot. -/
def oneWay : List Edge := [⟨0, 1, "a"⟩, ⟨2, 0, "b"⟩]

theorem spells_oneWay : Spells (toText [0] [1, 2] oneWay) [0] [1, 2] oneWay := by
  refine spells_toText ?_ fun n hn => isShort_digit (by revert n; decide)
  simp only [oneWay, forall_mem_cons, not_mem_nil, false_imp_iff, implies_true, and_true]
  exact ⟨⟨["a"], by decide, rfl⟩, ⟨["b"], by decide, rfl⟩⟩

theorem not_isCountable_oneWay (most : ℕ) : ¬IsCountable (.ofEdges oneWay) most [0] [1, 2] := by
  intro h
  have hjoined := h.joined 0 2 ⟨by decide, [], [], rfl, Nat.zero_le _⟩
  have hconnected := (Graph.connected_iff (Graph.gathers_ofEdges oneWay).wellFormed
    hjoined.source).mpr hjoined.reaches
  exact absurd hconnected (by decide)

/-- A target that can be reached does not make a count if another target cannot. -/
theorem paths_never_zero_oneWay :
    Spells (toText [0] [1, 2] oneWay) [0] [1, 2] oneWay ∧
      (Graph.ofEdges oneWay).SearchedBy (Graph.ofEdges oneWay).search ∧
      (∀ looks, ({} : Limits).InTime looks) ∧
      Relation.ReflTransGen (Graph.ofEdges oneWay).Adj 0 1 ∧
      ∃ m, Measures.ofReport {} (.dict (reportOn [0] [1, 2] oneWay)) = .ok m ∧ m.paths = -1 := by
  have hclock (looks : ℕ) : ({} : Limits).InTime looks := by simp [Limits.InTime]
  have hreach := (Graph.connected_iff (t := 1) (Graph.gathers_ofEdges oneWay).wellFormed
    (by decide : 0 ∈ (Graph.ofEdges oneWay).nodes)).mp (by decide)
  have hlimit : 0 < ({} : Limits).paths := by decide
  have hsearch := Graph.searchedBy_search (Graph.gathers_ofEdges oneWay).wellFormed
  obtain ⟨m, hm, -, hunknown, -⟩ := paths_never_zero hlimit (find?_reportOn [0] [1, 2] oneWay)
    spells_oneWay hsearch (hclock _)
  exact ⟨spells_oneWay, hsearch, hclock, hreach, m, hm, hunknown.mpr (not_isCountable_oneWay _)⟩

/-- Without sources no target can be reached, but the number of paths is not zero. -/
theorem paths_not_zero_noSource :
    Spells (toText [] [1] [⟨0, 1, "a"⟩]) [] [1] [⟨0, 1, "a"⟩] ∧
      ∃ m, Measures.ofReport {} (.dict (reportOn [] [1] [⟨0, 1, "a"⟩])) = .ok m ∧
        ¬TellsNull (.ofEdges [⟨0, 1, "a"⟩]) [] [1] m.paths := by
  have hspells : Spells (toText [] [1] [⟨0, 1, "a"⟩]) [] [1] [⟨0, 1, "a"⟩] := by
    refine spells_toText ?_ fun n hn => isShort_digit (by revert n; decide)
    simp only [forall_mem_singleton]
    exact ⟨["a"], by decide, rfl⟩
  refine ⟨hspells, _, Measure.ofReport_dict {} _, ?_⟩
  rw [find?_reportOn, measuresOf_unmeasurable (.unreadable (not_gives_of_empty hspells (.inl rfl)))]
  intro htells
  exact absurd (htells.zero_iff.mpr (by simp)) (by decide)

end RegexCorpus.Automaton
