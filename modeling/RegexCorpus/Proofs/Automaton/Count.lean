import RegexCorpus.Automaton.Measure
import RegexCorpus.Proofs.Automaton.Path
import RegexCorpus.Proofs.Run

/-!
# The count of simple paths

Pair after pair of a source and a target, the paths between them are counted until the limit is
passed. The pairs of a source are then still gone through, though nothing more is counted; no
further source is begun. A pair without a path ends the count with a fault.
-/

namespace RegexCorpus
open List

/-- The number of simple paths from the sources to the targets, pair by pair. -/
noncomputable def Graph.pathTotal (g : Graph) (sources targets : List ℤ) : ℕ :=
  (sources.map fun s => (targets.map (g.pathCount s)).sum).sum

@[simp] theorem Graph.pathTotal_cons (g : Graph) (s : ℤ) (sources targets : List ℤ) :
    g.pathTotal (s :: sources) targets =
      (targets.map (g.pathCount s)).sum + g.pathTotal sources targets := rfl

namespace Automaton

variable {tally : Tally} {a : Automaton}

/-- The most paths that are counted; a limit below zero allows none. -/
def Limits.most (limits : Limits) : ℕ := limits.paths.toNat

/-- So many looks at the clock find it within the time limit. -/
def Limits.InTime (limits : Limits) (looks : ℕ) : Prop :=
  ∀ k : ℕ, 0 < k → k ≤ looks → limits.tick * k ≤ limits.seconds * limits.unitsPerSecond

/-- The pair is looked at: the sources before its own have no more paths than the limit allows. -/
def IsVisited (g : Graph) (most : ℕ) (sources targets : List ℤ) (s t : ℤ) : Prop :=
  t ∈ targets ∧ ∃ before after, sources = before ++ s :: after ∧ g.pathTotal before targets ≤ most

/-- The count looks at this source and this target. -/
def Visits (a : Automaton) (most : ℕ) (s t : ℤ) : Prop :=
  IsVisited a.graph most a.sources a.targets s t

variable {limits : Limits} {g : Graph} {most total : ℕ} {s t x : ℤ} {sources targets : List ℤ}

theorem isVisited_cons :
    IsVisited g most (x :: sources) targets s t ↔
      t ∈ targets ∧ s = x ∨ (targets.map (g.pathCount x)).sum ≤ most ∧
        IsVisited g (most - (targets.map (g.pathCount x)).sum) sources targets s t := by
  constructor
  · rintro ⟨ht, before, after, heq, hle⟩
    cases before with
    | nil => exact .inl ⟨ht, (cons.inj heq).1.symm⟩
    | cons y before =>
      obtain ⟨rfl, rfl⟩ := cons.inj heq
      rw [Graph.pathTotal_cons] at hle
      exact .inr ⟨by omega, ht, before, after, rfl, by omega⟩
  · rintro (⟨ht, rfl⟩ | ⟨hrow, ht, before, after, rfl, hle⟩)
    · exact ⟨ht, [], sources, rfl, Nat.zero_le _⟩
    · refine ⟨ht, x :: before, after, rfl, ?_⟩
      rw [Graph.pathTotal_cons]
      omega

/-! ### The paths of one pair -/

/-- The count after pairs that have so many paths together. -/
structure Tally.Counts (most total : ℕ) (t : Tally) : Prop where
  counted : t.counted = (min most total : ℕ)
  looks : t.looks = t.counted
  stopped : t.stopped = decide (most < total)
  seen : if most < total then (most : ℤ) < t.seen else t.seen = total

theorem Tally.Counts.start (most : ℕ) : Tally.Counts most 0 {} := by
  refine ⟨?_, rfl, rfl, ?_⟩ <;> simp

theorem Tally.Counts.say {t : Tally} (h : t.Counts most total) (message : String) :
    (t.say message).Counts most total :=
  ⟨h.counted, h.looks, h.stopped, h.seen⟩

/-- Another path is seen when all that may be counted have been. -/
theorem countEach_of_full {t : Tally} (h : t.Counts limits.most total) (hfull : limits.most ≤ total)
    (path : List ℤ) (rest : List (List ℤ)) (more : ℕ) :
    (countEach limits g (path :: rest) t).Counts limits.most (total + (more + 1)) := by
  have hseen : limits.paths < t.seen + 1 := by
    have hcase := h.seen
    unfold Limits.most at hcase hfull
    split_ifs at hcase <;> omega
  rw [countEach]
  dsimp only
  rw [if_pos hseen]
  refine ⟨?_, h.looks, ?_, ?_⟩
  · rw [min_eq_left (by omega), ← min_eq_left hfull]
    exact h.counted
  · exact (decide_eq_true (by omega)).symm
  · rw [if_pos (by omega)]
    change (limits.most : ℤ) < t.seen + 1
    have hcase := h.seen
    split_ifs at hcase <;> omega

theorem countEach_of_room {t : Tally} (h : t.Counts limits.most total) (hroom : total < limits.most)
    (htime : limits.tick * ((total + 1 : ℕ) : ℤ) ≤ limits.seconds * limits.unitsPerSecond)
    (path : List ℤ) (rest : List (List ℤ)) :
    ∃ t', t'.Counts limits.most (total + 1) ∧ t'.seen = t.seen + 1 ∧
      countEach limits g (path :: rest) t = countEach limits g rest t' := by
  have hseen : t.seen = total := by
    have hcase := h.seen
    rwa [if_neg (by omega)] at hcase
  have hcounted : t.counted = total := by rw [h.counted, min_eq_right hroom.le]
  have hlimit : ¬limits.paths < t.seen + 1 := by
    unfold Limits.most at hroom
    omega
  have hclock : ¬limits.seconds * limits.unitsPerSecond < limits.tick * (t.looks + 1) := by
    rw [h.looks, hcounted]
    exact not_lt.mpr (by exact_mod_cast htime)
  have hnext : Tally.Counts limits.most (total + 1)
      { t with seen := t.seen + 1, looks := t.looks + 1, counted := t.counted + 1 } := by
    refine ⟨?_, ?_, ?_, ?_⟩
    · dsimp only
      rw [hcounted, min_eq_right (by omega)]
      push_cast
      rfl
    · exact congrArg (· + 1) h.looks
    · refine h.stopped.trans ?_
      rw [decide_eq_false (by omega), decide_eq_false (by omega)]
    · rw [if_neg (by omega)]
      push_cast
      exact congrArg (· + 1) hseen
  rw [countEach]
  dsimp only
  rw [if_neg hlimit, if_neg hclock]
  split_ifs
  · exact ⟨_, (hnext.say _).say _, rfl, rfl⟩
  · exact ⟨_, hnext, rfl, rfl⟩

theorem countEach_take {t : Tally} (h : t.Counts limits.most total) (paths : List (List ℤ))
    (htime : limits.InTime (min limits.most (total + paths.length))) :
    (countEach limits g (paths.take (max 1 (limits.paths + 1 - t.seen).toNat)) t).Counts limits.most
      (total + paths.length) := by
  induction paths generalizing t total with
  | nil =>
    rw [take_nil]
    exact h
  | cons path paths ih =>
    rw [length_cons] at htime ⊢
    obtain ⟨k, hk⟩ : ∃ k, max 1 (limits.paths + 1 - t.seen).toNat = k + 1 :=
      ⟨max 1 (limits.paths + 1 - t.seen).toNat - 1, by omega⟩
    rw [hk, take_succ_cons]
    by_cases hroom : total < limits.most
    · obtain ⟨t', ht', hseen, heq⟩ := countEach_of_room (g := g) h hroom
        (htime (total + 1) (by omega) (by omega)) path (paths.take k)
      have hk' : k = max 1 (limits.paths + 1 - t'.seen).toNat := by
        have hcase := h.seen
        rw [if_neg (by omega)] at hcase
        unfold Limits.most at hroom
        omega
      rw [heq, hk', show total + (paths.length + 1) = total + 1 + paths.length by omega]
      exact ih ht' (by rwa [show total + 1 + paths.length = total + (paths.length + 1) by omega])
    · exact countEach_of_full h (by omega) path _ _

theorem Limits.InTime.mono {m n : ℕ} (h : limits.InTime n) (hle : m ≤ n) : limits.InTime m :=
  fun k hpos hk => h k hpos (hk.trans hle)

/-! ### One pair, one source, all sources -/

theorem countSources_stopped (limits : Limits) (g : Graph) (targets sources : List ℤ)
    (h : tally.stopped = true) :
    ∃ tally', (countSources limits g targets sources).run tally = (.ok (), tally') ∧
      tally'.counted = tally.counted := by
  cases sources with
  | nil => exact ⟨tally, rfl, rfl⟩
  | cons s sources =>
    rw [countSources, run_get_state_bind, if_pos h]
    exact ⟨_, rfl, rfl⟩

section
variable (hg : g.WellFormed) (hsearch : g.SearchedBy (limits.search g))
include hsearch

theorem countPair_fails (tally : Tally) (hnot : ¬g.Joined s t) :
    ∃ f, (countPair limits g s t).run tally = (.error f, tally) := by
  obtain ⟨f, hf⟩ := hsearch.fails hnot (max 1 (limits.paths + 1 - tally.seen).toNat)
  refine ⟨f, ?_⟩
  rw [countPair, run_get_state_bind, hf]
  rfl

include hg

theorem countPair_run (h : tally.Counts limits.most total)
    (hjoined : g.Joined s t) (htime : limits.InTime (min limits.most (total + g.pathCount s t))) :
    ∃ tally', (countPair limits g s t).run tally = (.ok (), tally') ∧
      tally'.Counts limits.most (total + g.pathCount s t) := by
  obtain ⟨ps, hps, htake⟩ := hsearch.lists hjoined
  rw [hps.pathCount_eq hg hjoined.source] at htime ⊢
  refine ⟨_, ?_, countEach_take (g := g) h ps htime⟩
  rw [countPair, run_get_state_bind, run_lift_bind (htake _)]
  rfl

theorem countTargets_run (s : ℤ) (targets : List ℤ)
    (h : tally.Counts limits.most total)
    (htime : limits.InTime (min limits.most (total + (targets.map (g.pathCount s)).sum))) :
    (∀ t ∈ targets, g.Joined s t) ∧ (∃ tally',
        (targets.forM (countPair limits g s)).run tally = (.ok (), tally') ∧
          tally'.Counts limits.most (total + (targets.map (g.pathCount s)).sum)) ∨
      (∃ t ∈ targets, ¬g.Joined s t) ∧ ∃ f tally',
        (targets.forM (countPair limits g s)).run tally = (.error f, tally') := by
  induction targets generalizing total tally with
  | nil => exact .inl ⟨by simp, tally, rfl, h⟩
  | cons t targets ih =>
    rw [map_cons, sum_cons] at htime ⊢
    have hfirst : (t :: targets).forM (countPair limits g s) =
        countPair limits g s t >>= fun _ => targets.forM (countPair limits g s) := rfl
    rw [hfirst]
    by_cases hjoined : g.Joined s t
    · obtain ⟨tally₁, hrun, h₁⟩ := countPair_run hg hsearch h hjoined (htime.mono (by omega))
      rw [run_bind_of_ok hrun, ← Nat.add_assoc]
      rw [← Nat.add_assoc] at htime
      obtain ⟨hall, hok⟩ | ⟨⟨u, hu, hnot⟩, hfails⟩ := ih h₁ htime
      · exact .inl ⟨forall_mem_cons.mpr ⟨hjoined, hall⟩, hok⟩
      · exact .inr ⟨⟨u, mem_cons_of_mem t hu, hnot⟩, hfails⟩
    · obtain ⟨f, hrun⟩ := countPair_fails hsearch tally hjoined
      refine .inr ⟨⟨t, mem_cons_self, hjoined⟩, f, tally, ?_⟩
      rw [run_bind, hrun]

theorem countSources_run (h : tally.Counts limits.most total)
    (hroom : total ≤ limits.most)
    (htime : limits.InTime (min limits.most (total + g.pathTotal sources targets))) :
    (∀ s t, IsVisited g (limits.most - total) sources targets s t → g.Joined s t) ∧ (∃ tally',
        (countSources limits g targets sources).run tally = (.ok (), tally') ∧
          tally'.counted = (min limits.most (total + g.pathTotal sources targets) : ℕ)) ∨
      (∃ s t, IsVisited g (limits.most - total) sources targets s t ∧ ¬g.Joined s t) ∧ ∃ f tally',
        (countSources limits g targets sources).run tally = (.error f, tally') := by
  induction sources generalizing total tally with
  | nil =>
    refine .inl ⟨fun s t hv => ?_, tally, rfl, h.counted⟩
    obtain ⟨-, before, after, heq, -⟩ := hv
    exact absurd heq.symm (by simp)
  | cons x sources ih =>
    rw [Graph.pathTotal_cons, ← Nat.add_assoc] at htime ⊢
    rw [countSources, run_get_state_bind, if_neg (by simpa [h.stopped] using hroom)]
    simp only [isVisited_cons, Nat.sub_sub]
    obtain ⟨hall, tally₁, hrun, h₁⟩ | ⟨⟨t, ht, hnot⟩, f, tally₁, hrun⟩ :=
      countTargets_run hg hsearch x targets h (htime.mono (by omega))
    · rw [run_bind_of_ok hrun]
      by_cases hrest : total + (targets.map (g.pathCount x)).sum ≤ limits.most
      · obtain ⟨hvisited, hok⟩ | ⟨⟨s, t, hvisited, hnot⟩, hfails⟩ := ih h₁ hrest htime
        · refine .inl ⟨fun s t hv => ?_, hok⟩
          rcases hv with ⟨ht, rfl⟩ | ⟨-, hv⟩
          · exact hall t ht
          · exact hvisited s t hv
        · exact .inr ⟨⟨s, t, .inr ⟨by omega, hvisited⟩, hnot⟩, hfails⟩
      · -- the limit has been passed, so that this source was the last
        obtain ⟨tally₂, hlast, hcounted⟩ := countSources_stopped limits g targets sources
          (h₁.stopped.trans (decide_eq_true (by omega)))
        refine .inl ⟨fun s t hv => ?_, tally₂, hlast, ?_⟩
        · rcases hv with ⟨ht, rfl⟩ | ⟨hle, -⟩
          · exact hall t ht
          · omega
        · rw [hcounted, h₁.counted, min_eq_left (by omega), min_eq_left (by omega)]
    · refine .inr ⟨⟨x, t, .inl ⟨ht, rfl⟩, hnot⟩, f, tally₁, ?_⟩
      rw [run_bind, hrun]

end

/-- The count of an automaton gives a number or fails, as the pairs say that it looks at. -/
theorem countPaths_run (hg : a.graph.WellFormed)
    (hsearch : a.graph.SearchedBy (limits.search a.graph))
    (htime : limits.InTime (min limits.most (a.graph.pathTotal a.sources a.targets))) :
    (∀ s t, a.Visits limits.most s t → a.graph.Joined s t) ∧
        ((a.countPaths limits).run {}).1 =
          .ok (min limits.most (a.graph.pathTotal a.sources a.targets) : ℕ) ∨
      (∃ s t, a.Visits limits.most s t ∧ ¬a.graph.Joined s t) ∧
        ∃ f, ((a.countPaths limits).run {}).1 = .error f := by
  rw [countPaths, run_modify_bind]
  generalize htally : Tally.say _ {} = tally
  have hstart : tally.Counts limits.most 0 := htally ▸ (Tally.Counts.start limits.most).say _
  have hrun := countSources_run hg hsearch hstart (Nat.zero_le _) (by rwa [Nat.zero_add])
  rw [Nat.sub_zero, Nat.zero_add] at hrun
  obtain ⟨hall, tally, hrun, hcounted⟩ | ⟨hnot, f, tally, hrun⟩ := hrun
  · rw [run_bind_of_ok hrun]
    exact .inl ⟨hall, congrArg Except.ok hcounted⟩
  · refine .inr ⟨hnot, f, ?_⟩
    rw [run_bind, hrun]

theorem paths_of_ok {n : ℕ} (h : ((a.countPaths limits).run {}).1 = .ok (n : ℤ)) :
    (Measures.ofAutomaton limits a).paths = n := by
  unfold Measures.ofAutomaton
  rcases hrun : (a.countPaths limits).run {} with ⟨f | m, tally⟩
  · rw [hrun] at h
    cases h
  · rw [hrun] at h
    exact Except.ok.inj h

theorem paths_of_error {f : Fault} (h : ((a.countPaths limits).run {}).1 = .error f) :
    (Measures.ofAutomaton limits a).paths = -1 := by
  unfold Measures.ofAutomaton
  rcases hrun : (a.countPaths limits).run {} with ⟨f | m, tally⟩
  · rfl
  · rw [hrun] at h
    cases h

/-- With any search that lists the paths, and as long as the clock keeps within its limit, the count
is the number of simple paths between all pairs, capped at the limit, whenever every pair that is
looked at is joined; else there is none. -/
theorem countPaths_visits (limits : Limits) (a : Automaton) (hgraph : a.graph.WellFormed)
    (hsearch : a.graph.SearchedBy (limits.search a.graph))
    (hclock : limits.InTime (min limits.most (a.graph.pathTotal a.sources a.targets))) :
    ((∀ s t, a.Visits limits.most s t → a.graph.Joined s t) →
      ((a.countPaths limits).run {}).1 =
        .ok (min limits.most (a.graph.pathTotal a.sources a.targets) : ℕ)) ∧
    ((∃ f, ((a.countPaths limits).run {}).1 = .error f) ↔
      ∃ s t, a.Visits limits.most s t ∧ ¬a.graph.Joined s t) ∧
    ((Measures.ofAutomaton limits a).paths = -1 ↔
      ∃ s t, a.Visits limits.most s t ∧ ¬a.graph.Joined s t) := by
  obtain ⟨hall, hok⟩ | ⟨⟨s, t, hvisits, hnot⟩, f, hfails⟩ := countPaths_run hgraph hsearch hclock
  · have hnone : ¬∃ s t, a.Visits limits.most s t ∧ ¬a.graph.Joined s t :=
      fun ⟨s, t, hvisits, hnot⟩ => hnot (hall s t hvisits)
    refine ⟨fun _ => hok, iff_of_false ?_ hnone, iff_of_false ?_ hnone⟩
    · rintro ⟨f, hfails⟩
      rw [hok] at hfails
      cases hfails
    · rw [paths_of_ok hok]
      omega
  · have hsome : ∃ s t, a.Visits limits.most s t ∧ ¬a.graph.Joined s t := ⟨s, t, hvisits, hnot⟩
    exact ⟨fun hall => absurd (hall s t hvisits) hnot, iff_of_true ⟨f, hfails⟩ hsome,
      iff_of_true (paths_of_error hfails) hsome⟩

/-- Two ways lead from the first source to the target; the second source is no node. -/
def twoWays : Automaton where
  sources := [0, 9]
  targets := [3]
  graph := .ofEdges [⟨0, 1, "a"⟩, ⟨0, 2, "b"⟩, ⟨1, 3, "c"⟩, ⟨2, 3, "d"⟩]

theorem wellFormed_twoWays : twoWays.graph.WellFormed := (Graph.gathers_ofEdges _).wellFormed

theorem pathCount_twoWays : twoWays.graph.pathCount 0 3 = 2 := by
  rw [(Graph.lists_simplePaths wellFormed_twoWays (by decide) 3).pathCount_eq wellFormed_twoWays
    (by decide)]
  decide

theorem joined_twoWays : twoWays.graph.Joined 0 3 where
  source := by decide
  target := by decide
  reaches := (Graph.connected_iff wellFormed_twoWays (by decide)).mp (by decide)

theorem not_joined_twoWays : ¬twoWays.graph.Joined 9 3 :=
  fun h => absurd h.source (by decide)

/-- With a limit of one path the second source is not looked at, with a limit of two it is. -/
theorem countPaths_visits_twoWays :
    twoWays.graph.WellFormed ∧ twoWays.graph.SearchedBy twoWays.graph.search ∧
      (∀ looks, ({ paths := 1 } : Limits).InTime looks) ∧
      ((twoWays.countPaths { paths := 1 }).run {}).1 = .ok 1 ∧
      (Measures.ofAutomaton { paths := 2 } twoWays).paths = -1 := by
  have hclock (paths : ℤ) (looks : ℕ) : ({ paths } : Limits).InTime looks := by
    simp [Limits.InTime]
  have hsearch := Graph.searchedBy_search wellFormed_twoWays
  have hrow : (twoWays.targets.map (twoWays.graph.pathCount 0)).sum = 2 := pathCount_twoWays
  have hone := countPaths_visits { paths := 1 } twoWays wellFormed_twoWays hsearch (hclock 1 _)
  have htwo := countPaths_visits { paths := 2 } twoWays wellFormed_twoWays hsearch (hclock 2 _)
  refine ⟨wellFormed_twoWays, hsearch, hclock 1, ?_, htwo.2.2.mpr ⟨9, 3, ?_, not_joined_twoWays⟩⟩
  · have htotal : 2 ≤ twoWays.graph.pathTotal twoWays.sources twoWays.targets :=
      hrow.ge.trans (Nat.le_add_right _ _)
    rw [hone.1 ?_, min_eq_left (le_trans (by decide) htotal)]
    · rfl
    · intro s t hvisits
      obtain ⟨ht, rfl⟩ | ⟨hle, -⟩ := isVisited_cons.mp hvisits
      · rw [List.mem_singleton.mp ht]
        exact joined_twoWays
      · rw [hrow] at hle
        exact absurd hle (by decide)
  · refine isVisited_cons.mpr (.inr ⟨hrow.le, ?_⟩)
    exact isVisited_cons.mpr (.inl ⟨List.mem_singleton.mpr rfl, rfl⟩)

end Automaton
end RegexCorpus
