import RegexCorpus.Automaton.Measure
import RegexCorpus.Proofs.Automaton.Graph
import RegexCorpus.Proofs.Key
import RegexCorpus.Proofs.Number.Rounding

/-!
# The density of a graph

The density is the share of the pairs of nodes that an edge joins, rounded once. It lies between
zero and one, for rounding does not lead past one.
-/

namespace RegexCorpus
open List

/-! ### Shares as doubles -/

namespace Double

variable {num den : ℕ}

theorem exponentOf_le (hnum : num ≠ 0) (hden : 0 < den) (hle : num ≤ den) :
    exponentOf num den ≤ -52 := by
  have hfits := fits_exponentOf hnum hden
  rcases hfits.lower with h | h
  · omega
  · have hshare : (num : ℚ) / den ≤ 1 :=
      div_le_one_of_le₀ (by exact_mod_cast hle) (by positivity)
    by_contra hbig
    have hpow : (2 : ℚ) ^ (-51 : ℤ) ≤ 2 ^ exponentOf num den := two_zpow_le (by omega)
    norm_num at hpow
    linarith

/-- The value of the rounded share, whether or not the mantissa had a bit too many. -/
theorem ofQuotient_eq_finite (hnum : num ≠ 0) (hden : 0 < den) (hle : num ≤ den) :
    ∃ m e, ofQuotient num den = finite false m e ∧
      value false m e = mantissaOf num den * 2 ^ exponentOf num den := by
  have hexponent := exponentOf_le hnum hden hle
  rw [ofQuotient, ofRatio_eq hnum]
  split_ifs with hm hbig hbig
  · omega
  · refine ⟨_, _, rfl, ?_⟩
    rw [hm, value, two_zpow_add]
    norm_num
    ring
  · omega
  · exact ⟨_, _, rfl, by simp [value]⟩

/-- A share is rounded to a double between zero and one that lies close to it. -/
theorem exists_ofQuotient (hden : 0 < den) (hle : num ≤ den) :
    ∃ m e, ofQuotient num den = finite false m e ∧ 0 ≤ value false m e ∧ value false m e ≤ 1 ∧
      |value false m e - num / den| ≤ 2 ^ (-53 : ℤ) := by
  by_cases hnum : num = 0
  · subst hnum
    refine ⟨0, -1074, rfl, ?_⟩
    simp [value]
  obtain ⟨m, e, hfinite, hvalue⟩ := ofQuotient_eq_finite hnum hden hle
  have hround := abs_mantissaOf_sub_le num hden
  have hclose := abs_mantissaOf_mul_sub_le num hden
  have hexponent := exponentOf_le hnum hden hle
  generalize exponentOf num den = k at hround hclose hvalue hexponent
  generalize mantissaOf num den = n at hround hclose hvalue
  have hpos := two_zpow_pos k
  have hsmall : (2 : ℚ) ^ k ≤ 2 ^ (-52 : ℤ) := two_zpow_le hexponent
  refine ⟨m, e, hfinite, ?_, ?_, ?_⟩ <;> rw [hvalue]
  · positivity
  · -- the scaled share is at most a power of two, and so is the whole number next to it
    have hscale : ((2 ^ (-k).toNat : ℕ) : ℚ) * 2 ^ k = 1 := by
      rw [Nat.cast_pow, Nat.cast_ofNat, ← zpow_natCast, ← two_zpow_add,
        Int.toNat_of_nonneg (by omega), neg_add_cancel, zpow_zero]
    have hshare : (num : ℚ) / den / 2 ^ k ≤ (2 ^ (-k).toNat : ℕ) := by
      rw [div_le_iff₀ hpos, hscale]
      exact div_le_one_of_le₀ (by exact_mod_cast hle) (by positivity)
    have hlt : (n : ℚ) < (2 ^ (-k).toNat : ℕ) + 1 := by linarith [(abs_le.mp hround).2]
    have hn : n ≤ 2 ^ (-k).toNat := Nat.lt_succ_iff.mp (by exact_mod_cast hlt)
    calc (n : ℚ) * 2 ^ k ≤ (2 ^ (-k).toNat : ℕ) * 2 ^ k := by gcongr
      _ = 1 := hscale
  · calc |(n : ℚ) * 2 ^ k - num / den| ≤ 1 / 2 * 2 ^ k := hclose
      _ ≤ 1 / 2 * 2 ^ (-52 : ℤ) := by gcongr
      _ = 2 ^ (-53 : ℤ) := by norm_num

end Double

/-! ### Densities -/

namespace Graph

variable {es : List Edge}

/-- The data is the density of a graph with these edges: zero without edges, and else the number of
pairs that they join, divided by the number of all pairs of their ends. -/
structure IsDensity (es : List Edge) (density : Value) : Prop where
  empty : es = [] → density = .int 0
  quotient : es ≠ [] → density =
    .double (.ofQuotient (pairs es).card ((endpoints es).card * (endpoints es).card))
  share : ∃ d q, density = .atom d ∧ d.identity = .number q ∧ 0 ≤ q ∧ q ≤ 1 ∧
    |q - (pairs es).card / (endpoints es).card ^ 2| ≤ 2 ^ (-53 : ℤ)

theorem IsDensity.ne_unknown {density : Value} (h : IsDensity es density) :
    density ≠ .int (-1) := by
  rintro rfl
  obtain ⟨d, q, hd, hq, hnonneg, -⟩ := h.share
  obtain rfl := Value.atom.inj hd
  obtain rfl := Atom.Identity.number.inj hq
  norm_num at hnonneg

theorem Gathers.nodes_eq_nil_iff {g : Graph} (h : g.Gathers es) : g.nodes = [] ↔ es = [] := by
  constructor
  · intro hnodes
    refine eq_nil_iff_forall_not_mem.mpr fun e he => ?_
    have hmem := (h.mem_nodes e.source).mpr ⟨e, he, .inl rfl⟩
    rw [hnodes] at hmem
    exact not_mem_nil hmem
  · rintro rfl
    refine eq_nil_iff_forall_not_mem.mpr fun n hn => ?_
    obtain ⟨e, he, -⟩ := (h.mem_nodes n).mp hn
    exact not_mem_nil he

theorem isDensity_densityOf {g : Graph} (h : g.Gathers es) :
    IsDensity es (Automaton.Measures.densityOf g) := by
  have hempty : g.nodes.isEmpty = true ↔ es = [] := by
    rw [List.isEmpty_iff, h.nodes_eq_nil_iff]
  unfold Automaton.Measures.densityOf density
  by_cases hes : es = []
  · rw [if_pos (hempty.mpr hes)]
    subst hes
    exact ⟨fun _ => rfl, fun hne => absurd rfl hne, .int 0, 0, rfl, rfl, le_rfl, zero_le_one,
      by simp [pairs]⟩
  · rw [if_neg (hempty.not.mpr hes)]
    have hpos : 0 < g.nodes.length := List.length_pos_iff.mpr (h.nodes_eq_nil_iff.not.mpr hes)
    have hle := h.wellFormed.length_edges_le
    rw [h.length_edges, h.length_nodes] at hle ⊢
    rw [h.length_nodes] at hpos
    obtain ⟨m, e, hfinite, hnonneg, hone, hnear⟩ :=
      Double.exists_ofQuotient (Nat.mul_pos hpos hpos) hle
    refine ⟨fun hnil => absurd hnil hes, fun _ => rfl, _, _, rfl, ?_, hnonneg, hone, ?_⟩
    · rw [hfinite]
      rfl
    · rwa [Nat.cast_mul, ← pow_two] at hnear

end Graph
end RegexCorpus
