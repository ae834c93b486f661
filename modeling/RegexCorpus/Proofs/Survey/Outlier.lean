import RegexCorpus.Proofs.Run
import RegexCorpus.Survey.Outlier
import Mathlib.Data.List.Sort

/-!
# Files below a percentile

A file is kept when it has fewer distinct patterns than the file at a position of the sorted counts.
All that is asked of the rule for percentiles is that it picks the count at this position.
-/

namespace RegexCorpus.Survey
open List

variable {percentile : Percentile} {κ β : Type} {size : β → ℕ}

def sortedSizes (size : β → ℕ) (table : List (κ × β)) : List ℕ :=
  (table.map fun e => size e.2).mergeSort

theorem map_bySize (size : β → ℕ) (table : List (κ × β)) :
    (bySize size table).map (fun e => size e.2) = sortedSizes size table :=
  map_mergeSort fun _ _ _ _ => rfl

theorem pairwise_sortedSizes (size : β → ℕ) (table : List (κ × β)) :
    (sortedSizes size table).Pairwise (· ≤ ·) :=
  pairwise_mergeSort' (· ≤ ·) _

theorem sortedSizes_perm {table other : List (κ × β)} (h : other.Perm table) :
    sortedSizes size other = sortedSizes size table := by
  have hperm : (sortedSizes size other).Perm (sortedSizes size table) :=
    (mergeSort_perm _ _).trans ((h.map _).trans (mergeSort_perm _ _).symm)
  exact hperm.eq_of_pairwise' (pairwise_sortedSizes size other) (pairwise_sortedSizes size table)

theorem pairwise_bySize (size : β → ℕ) (table : List (κ × β)) :
    (bySize size table).Pairwise fun a b => size a.2 ≤ size b.2 := by
  have h := pairwise_sortedSizes size table
  rw [← map_bySize] at h
  exact pairwise_map.mp h

/-- In a sorted list, what stands before the first entry of a size is smaller. -/
theorem takeWhile_ne_eq_filter {entries : List (κ × β)} {v : ℕ}
    (hsorted : entries.Pairwise fun a b => size a.2 ≤ size b.2)
    (hv : v ∈ entries.map fun e => size e.2) :
    (entries.takeWhile fun e => size e.2 != v) = entries.filter fun e => size e.2 < v := by
  induction entries with
  | nil => rfl
  | cons e rest ih =>
    obtain ⟨hhead, htail⟩ := pairwise_cons.mp hsorted
    by_cases he : size e.2 = v
    · -- nothing after the first entry of this size is smaller
      have hnone : ∀ a ∈ e :: rest, ¬size a.2 < v := by
        intro a ha
        rcases mem_cons.mp ha with rfl | ha
        · omega
        · have := hhead a ha
          omega
      rw [takeWhile_cons_of_neg (by simpa using he), eq_comm, filter_eq_nil_iff]
      simpa using hnone
    · have hv' : v ∈ rest.map fun e => size e.2 := by
        rw [map_cons, mem_cons] at hv
        exact hv.resolve_left fun h => he h.symm
      obtain ⟨a, ha, hav⟩ := mem_map.mp hv'
      have hlt : size e.2 < v := by
        have := hhead a ha
        omega
      rw [takeWhile_cons_of_pos (by simpa using he), filter_cons_of_pos (by simpa using hlt),
        ih htail hv']

theorem length_sortedSizes (size : β → ℕ) (table : List (κ × β)) :
    (sortedSizes size table).length = table.length := by
  unfold sortedSizes
  rw [length_mergeSort, length_map]

/-- The rule picks the count at the exact share of the last position, rounded down. -/
def Percentile.IsLower (percentile : Percentile) (counts : List ℕ) : Prop :=
  ∀ p : ℤ, 0 < p → p < 100 → ∀ v, counts[(counts.length - 1) * p.toNat / 100]? = some v →
    percentile counts p 1 = .ok v

theorem exists_lower {counts : List ℕ} (hne : counts ≠ []) {p : ℤ} (hp' : p < 100) :
    ∃ v ∈ counts, counts[(counts.length - 1) * p.toNat / 100]? = some v := by
  have hpos := length_pos_iff.mpr hne
  have hlast : (counts.length - 1) * p.toNat ≤ (counts.length - 1) * 100 :=
    Nat.mul_le_mul_left _ (by omega)
  have hlt : (counts.length - 1) * p.toNat / 100 < counts.length := by omega
  exact ⟨_, getElem_mem hlt, getElem?_eq_getElem hlt⟩

theorem Percentile.IsLower.shown {counts : List ℕ} (h : percentile.IsLower counts)
    (hne : counts ≠ []) : ∃ vs, shownPercentages.mapM (percentile counts · 1) = .ok vs := by
  have hrange : ∀ p ∈ shownPercentages, 0 < p ∧ p < 100 := by decide
  refine exists_mapM_eq_ok fun p hp => ?_
  obtain ⟨v, -, hv⟩ := exists_lower hne (hrange p hp).2
  exact ⟨v, h p (hrange p hp).1 (hrange p hp).2 v hv⟩

/-- The entries that are kept are those below the count that the rule picks. -/
theorem withoutOutliers_of_cutoff {table other : List (κ × β)} {p : ℤ} {v : ℕ} (hp : 0 < p)
    (hp' : p < 100) (hlower : percentile.IsLower (sortedSizes size table))
    (hcut : percentile (sortedSizes size table) p 1 = .ok v)
    (hv : v ∈ sortedSizes size table) (hperm : other.Perm table) :
    ∃ kept, withoutOutliers percentile size p other = .ok kept ∧
      kept.Perm (table.filter fun e => size e.2 < v) := by
  have hsorted := map_bySize size other
  rw [sortedSizes_perm hperm] at hsorted
  have hbySize : (bySize size other).Perm table := (mergeSort_perm _ _).trans hperm
  obtain ⟨_, hshown⟩ := hlower.shown (ne_nil_of_mem hv)
  refine ⟨_, ?_, hbySize.filter _⟩
  rw [← takeWhile_ne_eq_filter (pairwise_bySize size other) (by rwa [hsorted])]
  unfold withoutOutliers
  rw [if_neg (by omega)]
  dsimp only
  rw [hsorted, hshown, hcut]
  exact if_pos (by simpa using hv)

/-- For a rule that picks the count at the exact share of the last position, rounded down, the files
that are kept are those with fewer patterns than that count, in whatever order the files come. A share
outside the range keeps every file. -/
theorem withoutOutliers_eq_below (percentile : Percentile) (size : β → ℕ) {table : List (κ × β)}
    (hne : table ≠ []) (hlower : percentile.IsLower (sortedSizes size table)) (p : ℤ) :
    if 0 < p ∧ p < 100 then
      ∃ v, (sortedSizes size table)[(table.length - 1) * p.toNat / 100]? = some v ∧
        ∀ other, other.Perm table → ∃ kept, withoutOutliers percentile size p other = .ok kept ∧
          kept.Perm (table.filter fun e => size e.2 < v)
    else withoutOutliers percentile size p table = .ok table := by
  split_ifs with h
  · obtain ⟨hp, hp'⟩ := h
    have hsizes : sortedSizes size table ≠ [] := by
      rwa [← length_pos_iff, length_sortedSizes, length_pos_iff]
    obtain ⟨v, hmem, hv⟩ := exists_lower hsizes hp'
    refine ⟨v, by rwa [length_sortedSizes] at hv, fun other hperm => ?_⟩
    exact withoutOutliers_of_cutoff hp hp' hlower (hlower p hp hp' v hv) hmem hperm
  · unfold withoutOutliers
    rw [if_pos (by omega)]

/-- Five files, each with as many patterns as files come before it. -/
def staircase : List (ℕ × ℕ) := (List.range 5).map fun k => (k, k)

theorem sortedSizes_staircase : sortedSizes id staircase = range 5 := by
  have hsorted : bySize id staircase = staircase := by
    apply mergeSort_of_pairwise
    decide
  rw [← map_bySize, hsorted]
  decide

/-- At 60 percent the first two of the five files are kept. -/
theorem withoutOutliers_eq_below_staircase : staircase ≠ [] ∧
    ∃ kept, withoutOutliers lowerPercentile id 60 staircase.reverse = .ok kept ∧
      kept.Perm (staircase.filter fun e => e.2 < 2) := by
  have hne : staircase ≠ [] := by decide
  have hpositions : ∀ q < 100, lowerPosition 5 (q : ℕ) 1 = 4 * q / 100 := by decide +kernel
  have hlower : lowerPercentile.IsLower (sortedSizes id staircase) := by
    intro p hp hp' v hv
    obtain ⟨q, rfl⟩ := Int.eq_ofNat_of_zero_le hp.le
    rw [sortedSizes_staircase, length_range, Int.toNat_natCast] at hv
    rw [sortedSizes_staircase, lowerPercentile, length_range, hpositions q (by omega), hv]
  have h := withoutOutliers_eq_below lowerPercentile id hne hlower 60
  rw [if_pos (by decide), sortedSizes_staircase] at h
  obtain ⟨v, hv, hkept⟩ := h
  obtain rfl : 2 = v := Option.some_inj.mp hv
  exact ⟨hne, hkept _ (reverse_perm _)⟩

end RegexCorpus.Survey
