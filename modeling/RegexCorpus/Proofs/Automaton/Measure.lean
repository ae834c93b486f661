import RegexCorpus.Automaton.Measure
import RegexCorpus.Proofs.Json.Reader

/-!
# Measures of an automaton stay small

However many simple paths a graph has, no more of them are counted than the limit says, and the
density of a graph is a double in lowest form. So the measures of an automaton can be written.
-/

namespace RegexCorpus.Automaton
open Value

variable {limits : Limits} {g : Graph}
variable {t t' : Tally} {u : Unit}

/-- Only paths that were seen are counted, and no more than the limit allows. -/
structure Tally.Bounded (limits : Limits) (t : Tally) : Prop where
  nonneg : 0 ≤ t.counted
  seen : t.counted ≤ t.seen
  limit : t.counted ≤ max 0 limits.paths

theorem Tally.Bounded.start (limits : Limits) : Tally.Bounded limits {} :=
  ⟨le_rfl, le_rfl, le_max_left _ _⟩

theorem Tally.Bounded.say (h : t.Bounded limits) (message : String) :
    (t.say message).Bounded limits :=
  ⟨h.nonneg, h.seen, h.limit⟩

/-- A path that is seen and not counted, for a limit was reached. -/
theorem Tally.Bounded.stop (h : t.Bounded limits) (looks : Int) (message : String) :
    (Tally.stop message { t with seen := t.seen + 1, looks }).Bounded limits := by
  obtain ⟨hnonneg, hseen, hlimit⟩ := h
  exact ⟨hnonneg, hseen.trans (Int.le_add_one le_rfl), hlimit⟩

theorem Tally.Bounded.count (h : t.Bounded limits) (hroom : ¬limits.paths < t.seen + 1)
    (looks : Int) :
    { t with seen := t.seen + 1, looks, counted := t.counted + 1 }.Bounded limits := by
  obtain ⟨hnonneg, hseen, -⟩ := h
  exact ⟨by dsimp only; omega, by dsimp only; omega, by dsimp only; omega⟩

theorem countEach_bounded (paths : List (List Int)) (h : t.Bounded limits) :
    (countEach limits g paths t).Bounded limits := by
  induction paths generalizing t with
  | nil => exact h
  | cons path paths ih =>
    rw [countEach]
    dsimp only
    by_cases hlimit : limits.paths < t.seen + 1
    · rw [if_pos hlimit]
      exact h.stop _ _
    rw [if_neg hlimit]
    split_ifs
    · exact h.stop _ _
    · exact ih (((h.count hlimit _).say _).say _)
    · exact ih (h.count hlimit _)

theorem countPair_bounded {source target : Int} (h : t.Bounded limits)
    (hrun : (countPair limits g source target).run t = (.ok u, t')) : t'.Bounded limits := by
  rw [countPair, run_get_state_bind] at hrun
  obtain ⟨paths, -, hset⟩ := run_lift_bind_eq_ok.mp hrun
  cases hset
  exact countEach_bounded paths h

theorem countTargets_bounded {source : Int} {targets : List Int} (h : t.Bounded limits)
    (hrun : (targets.forM (countPair limits g source)).run t = (.ok u, t')) :
    t'.Bounded limits := by
  induction targets generalizing t with
  | nil =>
    cases hrun
    exact h
  | cons target targets ih =>
    obtain ⟨_, t₁, hfirst, hrest⟩ := run_bind_eq_ok.mp hrun
    exact ih (countPair_bounded h hfirst) hrest

theorem countSources_bounded {sources targets : List Int} (h : t.Bounded limits)
    (hrun : (countSources limits g targets sources).run t = (.ok u, t')) :
    t'.Bounded limits := by
  induction sources generalizing t with
  | nil =>
    cases hrun
    exact h
  | cons source sources ih =>
    rw [countSources, run_get_state_bind] at hrun
    split_ifs at hrun
    · cases hrun
      exact h.say _
    · obtain ⟨_, t₁, hfirst, hrest⟩ := run_bind_eq_ok.mp hrun
      exact ih (countTargets_bounded h hfirst) hrest

theorem countPaths_le {a : Automaton} {n : Int}
    (hrun : (a.countPaths limits).run {} = (.ok n, t)) : 0 ≤ n ∧ n ≤ max 0 limits.paths := by
  rw [countPaths, run_modify_bind] at hrun
  obtain ⟨_, t₁, hsources, hrest⟩ := run_bind_eq_ok.mp hrun
  have hbounded := countSources_bounded ((Tally.Bounded.start limits).say _) hsources
  cases hrest
  exact ⟨hbounded.nonneg, hbounded.limit⟩

/-! ### Writing measures -/

namespace Measures

/-- The measures can be written wherever an atom can. -/
structure Plain (m : Measures) : Prop where
  paths : Json.IsPlainAtom (.int m.paths)
  density : Json.IsPlainAtom m.density

theorem isPlainAtom_int {n : Int} (h : (Atom.int n).Short) : Json.IsPlainAtom (.int n) :=
  ⟨_, rfl, proper_int n, h⟩

theorem plain_unknown : unknown.Plain :=
  ⟨isPlainAtom_int (short_digit (by decide)), isPlainAtom_int (short_digit (by decide))⟩

theorem isPlainAtom_densityOf (g : Graph) : Json.IsPlainAtom (densityOf g) := by
  unfold densityOf Graph.density
  split_ifs with hnodes
  · exact isPlainAtom_int (short_digit (by decide))
  · have hpos : 0 < g.nodes.length := by
      rwa [List.isEmpty_iff, ← ne_eq, ← List.length_pos_iff] at hnodes
    exact Json.isPlainAtom_double (Double.proper_ofRatio false _ (Nat.mul_pos hpos hpos))

theorem plain_ofAutomaton (hlimit : (Atom.int limits.paths).Short) (a : Automaton) :
    (ofAutomaton limits a).Plain := by
  refine ⟨isPlainAtom_int ?_, isPlainAtom_densityOf a.graph⟩
  unfold ofAutomaton
  dsimp only
  split
  · next n t hrun =>
    obtain ⟨hnonneg, hle⟩ := countPaths_le hrun
    rw [short_int] at hlimit ⊢
    omega
  · exact short_digit (by decide)

theorem plain_ofText (hlimit : (Atom.int limits.paths).Short) (text : Value) :
    (ofText limits text).Plain := by
  unfold ofText
  split
  · split
    · exact plain_ofAutomaton hlimit _
    · exact plain_unknown
  · exact plain_unknown

end Measures
end RegexCorpus.Automaton
