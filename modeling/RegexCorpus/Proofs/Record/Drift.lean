import RegexCorpus.Proofs.Record.Counts

/-!
# Static counts that are the total ones

Where the total counts stand for the static ones, a pattern has one table instead of two, and this
shows as soon as uses are counted: a static use grows the one table twice, and every use grows the
static counts too.
-/

namespace RegexCorpus.Regex
open List Entries

open Entries (touch grow raise valueAt)

/-! ### Tables after calls -/

def made (calls : List Call) (k : Atom) : ℕ := calls.countP fun c => Atom.str c.registry = k

/-- The number of calls for a registry of uses that are said to have been found in this way. -/
def madeOf (finding : Finding) (calls : List Call) (k : Atom) : ℕ :=
  calls.countP fun c => Atom.str c.registry = k ∧ c.isOf finding

/-- The table has an entry for every registry that was called, and each of its counts has grown so
many times. -/
structure Grown (calls : List Call) (times : Atom → ℕ) (es es' : Entries) : Prop where
  has : ∀ k, Entries.has es' k = (Entries.has es k || decide (0 < made calls k))
  value : ∀ k, valueAt es' k = Value.next^[times k] (valueAt es k)

section
variable {calls : List Call} {times : Atom → ℕ} {es es' total : Entries}

theorem made_concat (calls : List Call) (c : Call) (k : Atom) :
    made (calls ++ [c]) k = made calls k + if .str c.registry = k then 1 else 0 := by
  rw [made, countP_append, countP_singleton, made]
  simp

theorem madeOf_concat (finding : Finding) (calls : List Call) (c : Call) (k : Atom) :
    madeOf finding (calls ++ [c]) k =
      madeOf finding calls k + if .str c.registry = k ∧ c.isOf finding then 1 else 0 := by
  rw [madeOf, countP_append, countP_singleton, madeOf]
  simp

theorem Grown.refl (es : Entries) : Grown [] (fun _ => 0) es es where
  has k := by simp [made]
  value _ := rfl

theorem Grown.isNumber (h : Grown calls times es es') (k : Atom) :
    (valueAt es' k).isNumber = (valueAt es k).isNumber := by
  rw [h.value, Value.isNumber_iterate_next]

theorem Grown.congr {times' : Atom → ℕ} (h : Grown calls times es es')
    (htimes : ∀ k, times k = times' k) : Grown calls times' es es' where
  has := h.has
  value k := by rw [h.value, htimes]

theorem Grown.touch (h : Grown calls times es es') (c : Call) :
    Grown (calls ++ [c]) times es (touch c.registry es') where
  has k := by
    rw [has_touch_eq, h.has, made_concat, Bool.or_assoc]
    by_cases hk : Atom.str c.registry = k <;> simp [hk]
  value k := by rw [valueAt_touch, h.value]

theorem Grown.grow {registry : String} (h : Grown calls times es es')
    (hhas : Entries.has es' (.str registry) = true) :
    Grown calls (fun k => times k + if .str registry = k then 1 else 0) es
      (grow registry es') where
  has k := by rw [has_grow hhas, h.has]
  value k := by
    rw [valueAt_grow, h.value]
    split_ifs
    · exact (Function.iterate_succ_apply' _ _ _).symm
    · rfl

theorem Grown.raise (h : Grown calls times es es') (c : Call) :
    Grown (calls ++ [c]) (fun k => times k + if .str c.registry = k then 1 else 0) es
      (raise c.registry es') :=
  (h.touch c).grow (has_touch c.registry es')

/-- Where the total count is a number just when the other count is one, it does not hold this one
back. -/
theorem noted_eq {finding : Finding} {c : Call} (h : (valueAt total (.str c.registry)).isNumber =
    (valueAt es (.str c.registry)).isNumber) :
    noted finding c total es = if c.isOf finding then raise c.registry es
      else touch c.registry es := by
  rw [noted, h]
  cases hnumber : (valueAt es (.str c.registry)).isNumber with
  | true => rfl
  | false =>
    rw [raise_of_not_isNumber hnumber, Bool.false_and, if_neg Bool.false_ne_true, ite_self]

/-- A table that started as the total one did grows by the calls of its own kind. -/
theorem Grown.noted {finding : Finding} (h : Grown calls (madeOf finding calls) es es') (c : Call)
    (hnumber : (valueAt total (.str c.registry)).isNumber =
      (valueAt es (.str c.registry)).isNumber) :
    Grown (calls ++ [c]) (madeOf finding (calls ++ [c])) es (noted finding c total es') := by
  rw [noted_eq (hnumber.trans (h.isNumber _).symm)]
  cases hfound : c.isOf finding with
  | true => exact (h.raise c).congr fun k => by simp [madeOf_concat, hfound]
  | false => exact (h.touch c).congr fun k => by simp [madeOf_concat, hfound]

/-- How often a total count grows: by every call, and once more by those of static uses if these are
counted in the same table. -/
def growth (shared : Bool) (calls : List Call) (k : Atom) : ℕ :=
  made calls k + if shared then madeOf .static calls k else 0

theorem growth_concat (shared : Bool) (calls : List Call) (c : Call) (k : Atom) :
    growth shared (calls ++ [c]) k = growth shared calls k + (if .str c.registry = k then 1 else 0) +
      if .str c.registry = k ∧ (shared && c.isOf .static) then 1 else 0 := by
  rw [growth, made_concat, madeOf_concat, growth]
  cases shared with
  | false => simp
  | true =>
    simp only [if_true, Bool.true_and]
    omega

theorem Grown.notedTotal {shared : Bool} (h : Grown calls (growth shared calls) es es') (c : Call) :
    Grown (calls ++ [c]) (growth shared (calls ++ [c])) es (notedTotal shared c es') := by
  rw [Regex.notedTotal]
  cases hboth : shared && c.isOf .static with
  | false => exact (h.raise c).congr fun k => by simp [growth_concat, hboth]
  | true =>
    have hhas : Entries.has (Entries.raise c.registry es') (.str c.registry) = true := by
      simp [has_raise]
    exact ((h.raise c).grow hhas).congr fun k => by simp [growth_concat, hboth]

end

/-! ### Shared and separate tables -/

/-- The pattern with two tables that is like one whose static counts are the total ones. -/
def Unshared (r r' : Regex) : Prop :=
  r.shared = true ∧ r' = { r with shared := false, static := r.total }

/-- Uses counted one after the other, as far as each of them goes. -/
def countCalls (calls : List Call) (r : Regex) : Regex :=
  calls.foldl (fun r c => (c.count.run r).2) r

theorem countCalls_concat (calls : List Call) (c : Call) (r : Regex) :
    countCalls (calls ++ [c]) r = (c.count.run (countCalls calls r)).2 := by
  rw [countCalls, foldl_append]
  rfl

theorem withCounts_withCounts (r : Regex) (t s d t' s' d' : Entries) :
    (r.withCounts t s d).withCounts t' s' d' = r.withCounts t' s' d' := by
  cases h : r.shared <;> simp [withCounts, h]

theorem count_withCounts (r : Regex) (t s d : Entries) (hs : r.shared = true → s = t) (c : Call) :
    (c.count.run (r.withCounts t s d)).2 =
      r.withCounts (notedTotal r.shared c t) (noted .static c t s) (noted .dynamic c t d) := by
  have hstatic : (r.withCounts t s d).staticCounts = some (.dict s) := by
    rw [staticCounts_withCounts]
    split_ifs with h
    · rw [hs h]
    · rfl
  rw [count_run rfl hstatic rfl, withCounts_withCounts]
  rfl

/-- After any calls the dynamic counts of the two patterns are the same, and their total and static
ones have grown from one table by different numbers of calls. -/
theorem countCalls_drift {r r' : Regex} {t d : Entries} (hr : Unshared r r')
    (ht : r.total = some (.dict t)) (hd : r.dynamic = some (.dict d)) (calls : List Call) :
    ∃ T T' S D, countCalls calls r = r.withCounts T T D ∧
      countCalls calls r' = r'.withCounts T' S D ∧ Grown calls (growth true calls) t T ∧
      Grown calls (growth false calls) t T' ∧ Grown calls (madeOf .static calls) t S := by
  obtain ⟨hshared, rfl⟩ := hr
  -- induction on the number of calls, the last one taken off
  induction calls using List.reverseRecOn with
  | nil =>
    have hstatic : r.staticCounts = some (.dict t) := by rw [staticCounts, if_pos hshared, ht]
    exact ⟨t, t, t, d, eq_withCounts ht hstatic hd, eq_withCounts ht ht hd, .refl t, .refl t,
      .refl t⟩
  | append_singleton calls c ih =>
    obtain ⟨T, T', S, D, hrun, hrun', hT, hT', hS⟩ := ih
    have hnumber : (valueAt T (.str c.registry)).isNumber =
        (valueAt T' (.str c.registry)).isNumber := by
      rw [hT.isNumber, hT'.isNumber]
    have hdynamic : noted .dynamic c T D = noted .dynamic c T' D := by
      rw [noted, hnumber, noted]
    refine ⟨_, _, _, noted .dynamic c T' D, ?_, ?_, hT.notedTotal c, hT'.notedTotal c,
      hS.noted c (hT'.isNumber _)⟩
    · rw [countCalls_concat, hrun, count_withCounts _ _ _ _ fun _ => rfl, hdynamic, hshared]
      exact withCounts_of_shared hshared ..
    · rw [countCalls_concat, hrun', count_withCounts _ _ _ _ fun h => Bool.noConfusion h]

/-! ### When the tables still agree -/

section
variable {calls : List Call} {es es₁ es₂ : Entries} {m n : Atom → ℕ}

/-- Two tables that grew from one table of whole numbers by the same calls agree just when each
count grew as often in both. -/
theorem Grown.find?_eq_iff (h₁ : Grown calls m es es₁) (h₂ : Grown calls n es es₂)
    (hes : Entries.Whole es) (hcalled : ∀ k, made calls k = 0 → m k = n k) :
    (∀ k, Entries.find? es₁ k = Entries.find? es₂ k) ↔ ∀ k, m k = n k := by
  have hhas (k : Atom) : Entries.has es₁ k = Entries.has es₂ k := by rw [h₁.has, h₂.has]
  constructor
  · intro hfind k
    by_cases hk : made calls k = 0
    · exact hcalled k hk
    · have hin : Entries.has es₁ k = true := by
        rw [h₁.has, decide_eq_true (Nat.pos_of_ne_zero hk), Bool.or_true]
      have hvalues := hfind k
      rw [find?_eq, find?_eq, ← hhas, hin, h₁.value, h₂.value, hes.valueAt,
        Value.iterate_next_int, Value.iterate_next_int] at hvalues
      have hcounts : Entries.count es k + (m k : ℤ) = Entries.count es k + n k :=
        Atom.int.inj (Value.atom.inj (Option.some.inj hvalues))
      omega
  · intro htimes k
    rw [find?_eq, find?_eq, hhas, h₁.value, h₂.value, htimes]

theorem madeOf_le_made (finding : Finding) (calls : List Call) (k : Atom) :
    madeOf finding calls k ≤ made calls k := by
  refine countP_mono_left fun c _ hc => ?_
  simp only [decide_eq_true_eq] at hc ⊢
  exact hc.1

theorem growth_eq_made_iff :
    (∀ k, growth true calls k = growth false calls k) ↔ ∀ c ∈ calls, c.isOf .static = false := by
  constructor
  · intro h c hc
    by_contra hstatic
    have hpos : 0 < madeOf .static calls (.str c.registry) :=
      countP_pos_iff.mpr ⟨c, hc, by simpa using hstatic⟩
    have hnone := h (.str c.registry)
    simp only [growth, if_true, Bool.false_eq_true, if_false] at hnone
    omega
  · intro h k
    have hnone : madeOf .static calls k = 0 :=
      countP_eq_zero.mpr fun c hc => by simp [h c hc]
    simp [growth, hnone]

theorem growth_eq_madeOf_iff :
    (∀ k, growth true calls k = madeOf .static calls k) ↔ calls = [] := by
  constructor
  · intro h
    cases calls with
    | nil => rfl
    | cons c calls =>
      have hpos : 0 < made (c :: calls) (.str c.registry) :=
        countP_pos_iff.mpr ⟨c, mem_cons_self, by simp⟩
      have hnone := h (.str c.registry)
      simp only [growth, if_true] at hnone
      omega
  · rintro rfl k
    rfl

end

/-- The two are dictionaries with the same entries, in whatever order. -/
def SameEntries (v w : Option Value) : Prop :=
  ∃ es es', v = some (.dict es) ∧ w = some (.dict es') ∧
    ∀ k, Entries.find? es k = Entries.find? es' k

theorem sameEntries_dict {es es' : Entries} :
    SameEntries (some (.dict es)) (some (.dict es')) ↔
      ∀ k, find? es k = find? es' k := by
  constructor
  · rintro ⟨_, _, hes, hes', h⟩
    cases hes
    cases hes'
    exact h
  · intro h
    exact ⟨es, es', rfl, rfl, h⟩

/-- What calls come to for two patterns that started with one table of counts, if the static counts
are the total ones in the first of them. -/
structure Drifted (calls : List Call) (t : Entries) (q q' : Regex) : Prop where
  dynamic : q'.dynamic = q.dynamic
  shared : ∃ T, q.total = some (.dict T) ∧ q.staticCounts = some (.dict T) ∧
    Grown calls (fun k => made calls k + madeOf .static calls k) t T
  total : ∃ T, q'.total = some (.dict T) ∧ Grown calls (made calls) t T
  static : ∃ S, q'.staticCounts = some (.dict S) ∧ Grown calls (madeOf .static calls) t S
  total_iff : Entries.Whole t →
    (SameEntries q.total q'.total ↔ ∀ c ∈ calls, c.isOf .static = false)
  static_iff : Entries.Whole t → (SameEntries q.staticCounts q'.staticCounts ↔ calls = [])

theorem drifted_countCalls {r r' : Regex} {t d : Entries} (hr : Unshared r r')
    (ht : r.total = some (.dict t)) (hd : r.dynamic = some (.dict d)) (calls : List Call) :
    Drifted calls t (countCalls calls r) (countCalls calls r') := by
  obtain ⟨T, T', S, D, hrun, hrun', hT, hT', hS⟩ := countCalls_drift hr ht hd calls
  obtain ⟨hshared, rfl⟩ := hr
  have hcounts : (r.withCounts T T D).staticCounts = some (.dict T) := by
    rw [staticCounts_withCounts, ite_self]
  have hle := madeOf_le_made .static calls
  rw [hrun, hrun']
  refine ⟨rfl, ⟨T, rfl, hcounts, hT⟩, ⟨T', rfl, hT'⟩, ⟨S, rfl, hS⟩, fun hwhole => ?_,
    fun hwhole => ?_⟩
  · rw [← growth_eq_made_iff, ← hT.find?_eq_iff hT' hwhole fun k hk => ?_]
    · exact sameEntries_dict
    · have hnone := hle k
      simp only [growth, if_true, Bool.false_eq_true, if_false]
      omega
  · rw [← growth_eq_madeOf_iff, ← hT.find?_eq_iff hS hwhole fun k hk => ?_, hcounts]
    · exact sameEntries_dict
    · simp only [growth, if_true]
      omega

/-! ### Calls on a list of patterns -/

variable (rs : List Regex)

/-- A call on a pattern of a list, by its index, which may count from the end. -/
structure Request extends Call where
  index : ℤ

/-- A list of patterns after a call on one of them. An index that is out of range changes
nothing. -/
def serve (rs : List Regex) (q : Request) : List Regex :=
  (countUseAt q.index (.str q.registry) q.useType rs).2

/-- A list of patterns after calls one after the other. -/
def serveAll (requests : List Request) (rs : List Regex) : List Regex := requests.foldl serve rs

/-- The place to which an index leads in a list of so many patterns. -/
def placeOf (length : ℕ) (index : ℤ) : ℤ := if index < 0 then index + length else index

/-- The calls on the pattern in a place of a list of so many patterns. -/
def callsAt (length place : ℕ) (requests : List Request) : List Call :=
  (requests.filter fun q => placeOf length q.index = place).map Request.toCall

theorem serve_eq (q : Request) :
    serve rs q = if placeOf rs.length q.index < 0 then rs
      else rs.modify (placeOf rs.length q.index).toNat fun r => (q.count.run r).2 := by
  rw [serve, countUseAt, modify_eq_set_getElem?, ← placeOf]
  by_cases hplace : placeOf rs.length q.index < 0
  · rw [if_pos hplace, if_pos hplace]
  · rw [if_neg hplace, if_neg hplace]
    cases rs[(placeOf rs.length q.index).toNat]? <;> rfl

theorem length_serve (q : Request) : (serve rs q).length = rs.length := by
  rw [serve_eq]
  split_ifs
  · rfl
  · exact length_modify ..

theorem getElem?_serve (q : Request) (i : ℕ) :
    (serve rs q)[i]? = rs[i]?.map (countCalls (callsAt rs.length i [q])) := by
  rw [serve_eq, callsAt]
  by_cases hi : placeOf rs.length q.index = i
  · rw [hi, if_neg (by omega), Int.toNat_natCast, getElem?_modify_eq,
      filter_cons_of_pos (by simpa using hi)]
    rfl
  · rw [filter_cons_of_neg (by simpa using hi)]
    refine Eq.trans ?_ Option.map_id'.symm
    split_ifs with hplace
    · rfl
    · have hne : (placeOf rs.length q.index).toNat ≠ i := by omega
      simp only [getElem?_modify, if_neg hne, Option.map_eq_map, Option.map_id']

/-- Each pattern is changed by the calls on it, and by no others. -/
theorem getElem?_serveAll (requests : List Request) (rs : List Regex) (i : ℕ) :
    (serveAll requests rs)[i]? = rs[i]?.map (countCalls (callsAt rs.length i requests)) := by
  induction requests generalizing rs with
  | nil => exact Option.map_id'.symm
  | cons q requests ih =>
    have hcalls : callsAt rs.length i (q :: requests) =
        callsAt rs.length i [q] ++ callsAt rs.length i requests := by
      rw [callsAt, ← singleton_append, filter_append, map_append]
      rfl
    have hsplit (r : Regex) : countCalls (callsAt rs.length i (q :: requests)) r =
        countCalls (callsAt rs.length i requests) (countCalls (callsAt rs.length i [q]) r) := by
      rw [hcalls, countCalls, foldl_append]
      rfl
    rw [serveAll, foldl_cons, ← serveAll, ih, length_serve, getElem?_serve, Option.map_map]
    exact congrArg (Option.map · rs[i]?) (funext fun r => (hsplit r).symm)

end RegexCorpus.Regex
