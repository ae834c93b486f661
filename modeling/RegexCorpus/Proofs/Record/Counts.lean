import RegexCorpus.Proofs.Record.Growth
import RegexCorpus.Proofs.Record.Regex

/-!
# Counting the uses of a pattern

A use of a pattern in a module is counted in two tables: in the total one, and in the static or the
dynamic one. It leaves an entry in all three, so that a count of zero may stand in a table.
-/

namespace RegexCorpus
open List Entries Atom

/-! ### Tables of counts -/

namespace Entries

variable {es es' : Entries} {k : Atom} {v : Value}

/-- Every entry is a whole number. -/
def Whole (es : Entries) : Prop := ∀ e ∈ es, ∃ n : ℤ, e.2 = .int n

def Distinct (es : Entries) : Prop := (es.map fun e => e.1.identity).Nodup

/-- The count under a key, zero if there is no entry. -/
def count (es : Entries) (k : Atom) : ℤ :=
  match find? es k with
  | some (.int n) => n
  | _ => 0

theorem mem_of_find? (h : find? es k = some v) : ∃ a, (a, v) ∈ es ∧ a.samePart k = true := by
  rw [find?, Option.map_eq_some_iff] at h
  obtain ⟨⟨a, w⟩, hfound, rfl⟩ := h
  have hmem := mem_of_find?_eq_some hfound
  have hkey := find?_some hfound
  exact ⟨a, hmem, hkey⟩

theorem find?_of_mem (hes : Distinct es) {e : Atom × Value} (he : e ∈ es) :
    find? es e.1 = some e.2 := by
  induction es with
  | nil => simp at he
  | cons d es ih =>
    unfold Distinct at hes ih
    rw [map_cons, nodup_cons] at hes
    rw [find?_cons]
    rcases mem_cons.1 he with rfl | he
    · rw [if_pos (samePart_refl _)]
    · have hne : ¬d.1.samePart e.1 = true := by
        rw [samePart_iff]
        intro heq
        exact hes.1 (mem_map.2 ⟨e, he, heq.symm⟩)
      rw [if_neg hne]
      exact ih hes.2 he

theorem Whole.find? (hes : Whole es) (h : find? es k = some v) : v = .int (count es k) := by
  obtain ⟨a, hmem, -⟩ := mem_of_find? h
  obtain ⟨n, hn⟩ := hes _ hmem
  change v = .int n at hn
  rw [count, h, hn]

theorem Whole.valueAt (hes : Whole es) (k : Atom) : valueAt es k = .int (count es k) := by
  rw [Entries.valueAt]
  cases hfound : Entries.find? es k with
  | none =>
    rw [count, hfound]
    rfl
  | some v => exact hes.find? hfound

theorem Whole.set (hes : Whole es) (k : Atom) (n : ℤ) : Whole (set k (.int n) es) := by
  induction es with
  | nil =>
    intro e he
    rw [mem_singleton.1 he]
    exact ⟨n, rfl⟩
  | cons d es ih =>
    unfold Whole at hes ih ⊢
    rw [forall_mem_cons] at hes
    rw [Entries.set]
    split_ifs
    · rw [forall_mem_cons]
      exact ⟨⟨n, rfl⟩, hes.2⟩
    · rw [forall_mem_cons]
      exact ⟨hes.1, ih hes.2⟩

theorem identities_set (k : Atom) (v : Value) (es : Entries) :
    (set k v es).map (fun e => e.1.identity) =
      if k.identity ∈ es.map fun e => e.1.identity then es.map fun e => e.1.identity
      else es.map (fun e => e.1.identity) ++ [k.identity] := by
  induction es with
  | nil => rfl
  | cons d es ih =>
    rw [set]
    by_cases hk : d.1.samePart k = true
    · have hid : k.identity = d.1.identity := (samePart_iff.1 hk).symm
      rw [if_pos hk, map_cons, map_cons, if_pos (by simp [hid])]
    · have hid : k.identity ≠ d.1.identity := fun h => hk (samePart_iff.2 h.symm)
      rw [if_neg hk, map_cons, map_cons, ih]
      by_cases hmem : k.identity ∈ es.map fun e => e.1.identity
      · rw [if_pos hmem, if_pos (mem_cons_of_mem _ hmem)]
      · rw [if_neg hmem, if_neg (by simpa [hid] using hmem), cons_append]

theorem Distinct.set (hes : Distinct es) (k : Atom) (v : Value) : Distinct (set k v es) := by
  unfold Distinct at hes ⊢
  rw [identities_set]
  split_ifs with hk
  · exact hes
  · rw [← concat_eq_append]
    exact hes.concat hk

theorem count_set (k l : Atom) (n : ℤ) (es : Entries) :
    count (set k (.int n) es) l = if k.samePart l then n else count es l := by
  rw [count, find?_set]
  split_ifs <;> rfl

theorem count_congr {k l : Atom} (h : k.samePart l = true) (es : Entries) :
    count es k = count es l := by
  rw [count, count, find?_congr h]

def bump (registry : String) (es : Entries) : Entries :=
  set (.str registry) (.int (count es (.str registry) + 1)) es

/-- The table counts these registries on top of what another says. -/
structure Counted (es : Entries) (registries : List String) (es' : Entries) : Prop where
  whole : Whole es'
  distinct : Distinct es → Distinct es'
  count : ∀ k, count es' k = count es k + registries.countP fun s => Atom.str s = k

variable {registries : List String} {registry : String}

theorem Counted.refl (h : Whole es) : Counted es [] es where
  whole := h
  distinct := id
  count k := by simp

theorem Counted.touch (h : Counted es registries es') (registry : String) :
    Counted es registries (touch registry es') := by
  unfold Entries.touch
  split_ifs with hhas
  · exact h
  · refine ⟨h.whole.set _ _, fun hes => (h.distinct hes).set _ _, fun k => ?_⟩
    rw [← h.count, count_set]
    split_ifs with hk
    · rw [← count_congr hk, Entries.count]
      rw [has_eq_isSome, Option.not_isSome_iff_eq_none] at hhas
      rw [hhas]
    · rfl

theorem Counted.bump (h : Counted es registries es') (registry : String) :
    Counted es (registries ++ [registry]) (bump registry es') := by
  refine ⟨h.whole.set _ _, fun hes => (h.distinct hes).set _ _, fun k => ?_⟩
  rw [Entries.bump, count_set, countP_append, countP_singleton]
  by_cases hk : str registry = k
  · subst hk
    rw [if_pos (samePart_refl _), h.count]
    simp
    ring
  · have hpart : ¬(str registry).samePart k = true := by
      rw [samePart_comm, samePart_str]
      simpa using Ne.symm hk
    rw [if_neg hpart, h.count]
    simp [hk]

end Entries

namespace Regex

open Entries (Whole Distinct Counted touch bump grow raise)

/-! ### Uses -/

variable {finding : Finding}

/-- A use of a pattern, by registry and type. -/
structure Use where
  registry : String
  finding : Finding

def countAll (uses : List Use) : Edit Regex Unit :=
  uses.forM fun u => countUse (.str u.registry) (.str u.finding.name)

def found (finding : Finding) (uses : List Use) : List String :=
  (uses.filter fun u => u.finding = finding).map Use.registry

/-- The pattern has these three tables of counts, no two of which are one. -/
structure HasTables (r : Regex) (total static dynamic : Entries) : Prop where
  shared : r.shared = false
  total : r.total = some (.dict total)
  static : r.static = some (.dict static)
  dynamic : r.dynamic = some (.dict dynamic)

section
variable {r : Regex} {t t' s s' d d' : Entries}

theorem HasTables.eq_withTables (h : r.HasTables t s d) : r = r.withTables t s d := by
  rw [withTables, ← h.total, ← h.static, ← h.dynamic]

/-- The table of a way of finding uses after a use. -/
def noteIn (finding : Finding) (u : Use) (es : Entries) : Entries :=
  if u.finding = finding then bump u.registry (touch u.registry es) else touch u.registry es

theorem raise_eq_bump {es : Entries} (hes : Whole es) (registry : String) :
    raise registry es = bump registry (touch registry es) := by
  rw [raise, grow, ((Counted.refl hes).touch registry).whole.valueAt]
  rfl

/-- A use is counted in the total table and in the one of its finding, and has an entry in both. -/
theorem countUse_run (hshared : r.shared = false) (ht : Whole t) (hs : Whole s) (hd : Whole d)
    (u : Use) :
    (countUse (.str u.registry) (.str u.finding.name)).run (r.withTables t s d) =
      (.ok (), r.withTables (bump u.registry (touch u.registry t)) (noteIn .static u s)
        (noteIn .dynamic u d)) := by
  have hcan {es : Entries} (hes : Whole es) : canGrow u.registry es = .ok () := by
    rw [canGrow, hes.valueAt]
    rfl
  have hkind (finding : Finding) : (Call.mk u.registry (.str u.finding.name)).isOf finding =
      decide (u.finding = finding) := isOf_of_isOf (Value.same_str.mpr rfl) finding
  have hnoted (finding : Finding) {es : Entries} (hes : Whole es) :
      noted finding ⟨u.registry, .str u.finding.name⟩ t es = noteIn finding u es := by
    rw [noted, ht.valueAt, hkind, noteIn, raise_eq_bump hes]
    simp [Value.isNumber, toNumber?]
  have hstatic : (r.withTables t s d).staticCounts = some (.dict s) :=
    if_neg (by simp [withTables, hshared])
  have hseparate : (r.withTables t s d).shared = false := hshared
  refine (count_run rfl hstatic rfl ⟨u.registry, .str u.finding.name⟩).trans ?_
  rw [withCounts_of_separate hseparate, hnoted _ hs, hnoted _ hd, notedTotal, hseparate,
    Bool.false_and, if_neg Bool.false_ne_true, raise_eq_bump ht, verdict, hcan ht, hcan hs, hcan hd,
    hkind, hkind]
  cases u.finding <;> rfl

/-! ### All uses -/

theorem found_concat (finding : Finding) (uses : List Use) (u : Use) :
    found finding (uses ++ [u]) =
      found finding uses ++ if u.finding = finding then [u.registry] else [] := by
  rw [found, filter_append, map_append, found]
  by_cases hu : u.finding = finding <;> simp [hu]

theorem counted_noteIn {es es' : Entries} {uses : List Use}
    (h : Counted es (found finding uses) es') (u : Use) :
    Counted es (found finding (uses ++ [u])) (noteIn finding u es') := by
  rw [found_concat, noteIn]
  by_cases hu : u.finding = finding
  · rw [if_pos hu, if_pos hu]
    exact (h.touch _).bump _
  · rw [if_neg hu, if_neg hu, append_nil]
    exact h.touch _

theorem countAll_run (h : r.HasTables t s d) (ht : Whole t) (hs : Whole s) (hd : Whole d)
    (uses : List Use) :
    ∃ t' s' d', (countAll uses).run r = (.ok (), r.withTables t' s' d') ∧
      Counted t (uses.map Use.registry) t' ∧ Counted s (found .static uses) s' ∧
      Counted d (found .dynamic uses) d' := by
  -- induction on the number of uses, the last one taken off
  induction uses using List.reverseRecOn with
  | nil =>
    refine ⟨t, s, d, ?_, .refl ht, .refl hs, .refl hd⟩
    rw [← h.eq_withTables]
    rfl
  | append_singleton uses u ih =>
    obtain ⟨t', s', d', hrun, ht', hs', hd'⟩ := ih
    refine ⟨bump u.registry (touch u.registry t'), _, _, ?_, ?_, counted_noteIn hs' u,
      counted_noteIn hd' u⟩
    · have hsplit : countAll (uses ++ [u]) = countAll uses >>= fun _ =>
          countUse (.str u.registry) (.str u.finding.name) := by
        simp [countAll]
      rw [hsplit, run_bind_of_ok hrun]
      exact countUse_run h.shared ht'.whole hs'.whole hd'.whole u
    · rw [map_append]
      exact (ht'.touch _).bump _

end

/-! ### Languages -/

def IsLanguageOf (l registry : String) : Prop :=
  ∃ name, (registry, name) ∈ Registry.languages ∧ Text.lower name = l

theorem language_of_mem : ∀ p ∈ Registry.languages, Registry.language (.str p.1) = .ok p.2 := by
  simp only [Registry.languages, forall_mem_cons]
  exact ⟨rfl, rfl, rfl, rfl, rfl, rfl, rfl, rfl, by simp⟩

theorem nodup_registries : (Registry.languages.map Prod.fst).Nodup := by decide

theorem nodup_smallNames : (Registry.languages.map fun p => Text.lower p.2).Nodup := by
  decide +kernel

section
variable {es : Entries} {registries : List String}

/-- A count that grew from nothing is not zero exactly when its registry was counted. -/
theorem count_ne_zero (h : Counted [] registries es) (k : Atom) :
    count es k ≠ 0 ↔ ∃ s ∈ registries, str s = k := by
  have hcount := h.count k
  have hnone : count [] k = 0 := rfl
  rw [hcount, hnone, zero_add, Nat.cast_ne_zero, ← Nat.pos_iff_ne_zero, countP_pos_iff]
  simp

theorem mem_used (h : Counted [] registries es) (k : Atom) :
    (∃ e ∈ es.filter (·.2.holds), e.1 = k) ↔ ∃ s ∈ registries, str s = k := by
  have hdistinct : Distinct es := h.distinct nodup_nil
  have hholds {e : Atom × Value} (he : e ∈ es) : e.2.holds = true ↔ Entries.count es e.1 ≠ 0 := by
    have hvalue := h.whole.find? (find?_of_mem hdistinct he)
    rw [hvalue]
    simp [Value.holds, holds]
  rw [← count_ne_zero h]
  constructor
  · rintro ⟨e, he, rfl⟩
    rw [mem_filter] at he
    exact (hholds he.1).1 he.2
  · intro hk
    obtain ⟨s, -, rfl⟩ := (count_ne_zero h k).1 hk
    cases hfound : Entries.find? es (.str s) with
    | none => simp [Entries.count, hfound] at hk
    | some v =>
      obtain ⟨a, hmem, hkey⟩ := mem_of_find? hfound
      rw [samePart_str, decide_eq_true_iff] at hkey
      subst hkey
      exact ⟨_, mem_filter.2 ⟨hmem, (hholds hmem).2 hk⟩, rfl⟩

theorem languagesOf_counted (h : Counted [] registries es)
    (hknown : ∀ s ∈ registries, ∃ l, IsLanguageOf l s) :
    ∃ ls, languagesOf (some (.dict es)) = .ok ls ∧ ls.Nodup ∧
      ∀ l, l ∈ ls ↔ ∃ s ∈ registries, IsLanguageOf l s := by
  have hnodup : ((es.filter (·.2.holds)).map Prod.fst).Nodup := by
    have hdistinct : Distinct es := h.distinct nodup_nil
    have hsub := (filter_sublist (p := fun e : Atom × Value => e.2.holds) (l := es)).map
      fun e => e.1.identity
    have hids := hdistinct.sublist hsub
    rw [← Function.comp_def, ← map_map] at hids
    exact hids.of_map
  have hpairs : ∀ e ∈ es.filter (·.2.holds), ∃ p ∈ Registry.languages, e.1 = .str p.1 := by
    intro e he
    obtain ⟨s, hs, hse⟩ := (mem_used h e.1).1 ⟨e, he, rfl⟩
    obtain ⟨l, name, hname, -⟩ := hknown s hs
    exact ⟨(s, name), hname, hse.symm⟩
  obtain ⟨ps, hps⟩ := forall₂_of_forall_exists hpairs
  have hmem {p : String × String} (hp : p ∈ ps) :
      p ∈ Registry.languages ∧ ∃ e ∈ es.filter (·.2.holds), e.1 = .str p.1 := by
    obtain ⟨e, he, hp', hkey⟩ := exists_of_mem_right hps hp
    exact ⟨hp', e, he, hkey⟩
  have hkeys : (es.filter (·.2.holds)).map Prod.fst = ps.map fun p => str p.1 := by
    rw [← forall₂_eq_eq_eq, forall₂_map_left_iff, forall₂_map_right_iff]
    exact hps.imp fun _ _ hp => hp.2
  refine ⟨ps.map fun p => Text.lower p.2, ?_, ?_, fun l => ?_⟩
  · change ((es.filter (·.2.holds)).mapM fun e => do
      return Text.lower (← Registry.language e.1)) = _
    rw [mapM_eq_ok, forall₂_map_right_iff]
    refine hps.imp fun e p hp => ?_
    rw [hp.2, language_of_mem p hp.1]
    rfl
  · rw [hkeys] at hnodup
    refine hnodup.of_map.map_on fun p hp q hq heq => ?_
    exact inj_on_of_nodup_map nodup_smallNames (hmem hp).1 (hmem hq).1 heq
  · rw [mem_map]
    constructor
    · rintro ⟨p, hp, rfl⟩
      obtain ⟨hp', e, he, hkey⟩ := hmem hp
      obtain ⟨s, hs, hse⟩ := (mem_used h (.str p.1)).1 ⟨e, he, hkey⟩
      obtain rfl := str.inj hse
      exact ⟨p.1, hs, p.2, hp', rfl⟩
    · rintro ⟨s, hs, name, hname, rfl⟩
      obtain ⟨e, he, hse⟩ := (mem_used h (.str s)).2 ⟨s, hs, rfl⟩
      have hin : str s ∈ ps.map fun p => str p.1 := hkeys ▸ hse ▸ mem_map_of_mem he
      obtain ⟨p, hp, hps'⟩ := mem_map.1 hin
      have hp' : p = (s, name) :=
        inj_on_of_nodup_map nodup_registries (hmem hp).1 hname (str.inj hps')
      exact ⟨p, hp, by rw [hp']⟩

end

/-! ### Patterns that have been filled -/

/-- The pattern was filled from its parts or from a line. -/
inductive Filled : Regex → Prop
  | made (pattern total posts static dynamic supportedLangs inputsTested : Value)
      (witnesses : Records Witness) :
      Filled (make pattern total posts static dynamic supportedLangs inputsTested witnesses)
  | read {line : Value} {s r : Regex} (h : (Regex.read line).run s = (.ok (), r)) : Filled r

theorem Filled.shared {r : Regex} (h : r.Filled) : r.shared = false := by
  cases h with
  | made => rfl
  | read h =>
    obtain ⟨_, _, -, h⟩ := run_bind_eq_ok.1 h
    obtain ⟨_, _, -, h⟩ := run_bind_eq_ok.1 h
    exact readObject_shared h

/-! ### What uses come to -/

def calls (uses : List Use) (k : Atom) : ℕ := uses.countP fun u => Atom.str u.registry = k

/-- The number of uses in a registry that were found in this way. -/
def callsBy (finding : Finding) (uses : List Use) (k : Atom) : ℕ :=
  uses.countP fun u => Atom.str u.registry = k ∧ u.finding = finding

section
variable {es es' : Entries} {uses : List Use}

theorem count_calls (h : Counted es (uses.map Use.registry) es') (k : Atom) :
    count es' k = count es k + calls uses k := by
  rw [h.count, countP_map]
  rfl

theorem count_callsBy (h : Counted es (found finding uses) es') (k : Atom) :
    count es' k = count es k + callsBy finding uses k := by
  rw [h.count, found, countP_map, countP_filter, callsBy]
  simp

theorem calls_eq (uses : List Use) (k : Atom) :
    calls uses k = callsBy .static uses k + callsBy .dynamic uses k := by
  induction uses with
  | nil => rfl
  | cons u uses ih =>
    unfold calls callsBy at ih ⊢
    rw [countP_cons, countP_cons, countP_cons, ih]
    cases u.finding <;> simp <;> omega

/-- Three tables have grown by these uses. -/
structure Tallied (uses : List Use) (t s d t' s' d' : Entries) : Prop where
  total : ∀ k, Entries.count t' k = Entries.count t k + calls uses k
  static : ∀ k, Entries.count s' k = Entries.count s k + callsBy .static uses k
  dynamic : ∀ k, Entries.count d' k = Entries.count d k + callsBy .dynamic uses k
  sum : ∀ k, Entries.count t' k - Entries.count t k =
    (Entries.count s' k - Entries.count s k) + (Entries.count d' k - Entries.count d k)

/-- The languages of a pattern are those of these uses, each of them once. -/
structure SpokenIn (r : Regex) (uses : List Use) : Prop where
  static : ∃ ls, r.staticLanguages = .ok ls ∧ ls.Nodup ∧
    ∀ l, l ∈ ls ↔ ∃ u ∈ uses, u.finding = .static ∧ IsLanguageOf l u.registry
  dynamic : ∃ ls, r.dynamicLanguages = .ok ls ∧ ls.Nodup ∧
    ∀ l, l ∈ ls ↔ ∃ u ∈ uses, u.finding = .dynamic ∧ IsLanguageOf l u.registry
  total : ∃ ls ss ds, r.languages = .ok ls ∧ r.staticLanguages = .ok ss ∧
    r.dynamicLanguages = .ok ds ∧ ls.Nodup ∧ ∀ l, l ∈ ls ↔ l ∈ ss ∨ l ∈ ds

variable {r : Regex} {t s d t' s' d' : Entries}

theorem tallied (ht : Counted t (uses.map Use.registry) t') (hs : Counted s (found .static uses) s')
    (hd : Counted d (found .dynamic uses) d') : Tallied uses t s d t' s' d' where
  total := count_calls ht
  static := count_callsBy hs
  dynamic := count_callsBy hd
  sum k := by
    rw [count_calls ht, count_callsBy hs, count_callsBy hd, calls_eq]
    push_cast
    ring

theorem mem_found {registry : String} :
    registry ∈ found finding uses ↔ ∃ u ∈ uses, u.finding = finding ∧ u.registry = registry := by
  simp [found, and_assoc]

theorem spokenIn (hshared : r.shared = false) (hknown : ∀ u ∈ uses, ∃ l, IsLanguageOf l u.registry)
    (ht : Counted [] (uses.map Use.registry) t') (hs : Counted [] (found .static uses) s')
    (hd : Counted [] (found .dynamic uses) d') : (r.withTables t' s' d').SpokenIn uses := by
  have hknown' (finding : Finding) :
      ∀ registry ∈ found finding uses, ∃ l, IsLanguageOf l registry := by
    intro registry hregistry
    obtain ⟨u, hu, -, rfl⟩ := mem_found.1 hregistry
    exact hknown u hu
  have hby {finding : Finding} {l : String} :
      (∃ registry ∈ found finding uses, IsLanguageOf l registry) ↔
        ∃ u ∈ uses, u.finding = finding ∧ IsLanguageOf l u.registry := by
    simp only [mem_found]
    constructor
    · rintro ⟨_, ⟨u, hu, hfinding, rfl⟩, hl⟩
      exact ⟨u, hu, hfinding, hl⟩
    · rintro ⟨u, hu, hfinding, hl⟩
      exact ⟨_, ⟨u, hu, hfinding, rfl⟩, hl⟩
  have hcounts : (r.withTables t' s' d').staticCounts = some (.dict s') :=
    if_neg (by simp [withTables, hshared])
  obtain ⟨ls, hls, hnodup, hmem⟩ := languagesOf_counted ht (by simpa using hknown)
  obtain ⟨ss, hss, hnodup', hmem'⟩ := languagesOf_counted hs (hknown' _)
  obtain ⟨ds, hds, hnodup'', hmem''⟩ := languagesOf_counted hd (hknown' _)
  have hstatic : (r.withTables t' s' d').staticLanguages = .ok ss := by
    rw [staticLanguages, hcounts, hss]
  refine ⟨⟨ss, hstatic, hnodup', fun l => (hmem' l).trans hby⟩,
    ⟨ds, hds, hnodup'', fun l => (hmem'' l).trans hby⟩,
    ls, ss, ds, hls, hstatic, hds, hnodup, fun l => ?_⟩
  rw [hmem, hmem', hmem'', hby, hby]
  constructor
  · rintro ⟨registry, hregistry, hl⟩
    obtain ⟨u, hu, rfl⟩ := mem_map.1 hregistry
    cases hfinding : u.finding with
    | static => exact .inl ⟨u, hu, hfinding, hl⟩
    | dynamic => exact .inr ⟨u, hu, hfinding, hl⟩
  · rintro (⟨u, hu, -, hl⟩ | ⟨u, hu, -, hl⟩)
    · exact ⟨_, mem_map_of_mem hu, hl⟩
    · exact ⟨_, mem_map_of_mem hu, hl⟩

theorem calls_perm {uses' : List Use} (h : uses'.Perm uses) (k : Atom) :
    calls uses' k = calls uses k := h.countP_eq _

theorem callsBy_perm {uses' : List Use} (h : uses'.Perm uses) (finding : Finding) (k : Atom) :
    callsBy finding uses' k = callsBy finding uses k := h.countP_eq _

/-- Uses of a pattern that has been filled are counted, in whatever order they come. If it had no
counts, its languages are those of the uses: entries of zero do not show. -/
theorem countAll_tallies (hfilled : r.Filled) (htotal : r.total = some (.dict t))
    (hstatic : r.static = some (.dict s)) (hdynamic : r.dynamic = some (.dict d))
    (ht : Whole t) (hs : Whole s) (hd : Whole d) (uses : List Use) :
    ∃ t' s' d', (countAll uses).run r = (Except.ok (), r.withTables t' s' d') ∧
      Tallied uses t s d t' s' d' ∧
      (∀ uses', uses'.Perm uses → ∃ t'' s'' d'',
        (countAll uses').run r = (Except.ok (), r.withTables t'' s'' d'') ∧
        ∀ k, Entries.count t'' k = Entries.count t' k ∧ Entries.count s'' k = Entries.count s' k ∧
          Entries.count d'' k = Entries.count d' k) ∧
      (t = [] → s = [] → d = [] → (∀ u ∈ uses, ∃ l, IsLanguageOf l u.registry) →
        (r.withTables t' s' d').SpokenIn uses) := by
  have htables : r.HasTables t s d := ⟨hfilled.shared, htotal, hstatic, hdynamic⟩
  obtain ⟨t', s', d', hrun, ht', hs', hd'⟩ := countAll_run htables ht hs hd uses
  refine ⟨t', s', d', hrun, tallied ht' hs' hd', fun uses' hperm => ?_, ?_⟩
  · obtain ⟨t'', s'', d'', hrun', ht'', hs'', hd''⟩ := countAll_run htables ht hs hd uses'
    refine ⟨t'', s'', d'', hrun', fun k => ⟨?_, ?_, ?_⟩⟩
    · rw [count_calls ht', count_calls ht'', calls_perm hperm]
    · rw [count_callsBy hs', count_callsBy hs'', callsBy_perm hperm]
    · rw [count_callsBy hd', count_callsBy hd'', callsBy_perm hperm]
  · rintro rfl rfl rfl hknown
    exact spokenIn hfilled.shared hknown ht' hs' hd'

/-- Two uses found statically and one found dynamically, in two registries. -/
def threeUses : List Use :=
  [⟨"npm", .static⟩, ⟨"pypi", .dynamic⟩, ⟨"npm", .static⟩]

/-- A pattern without counts, used three times. -/
theorem countAll_threeUses :
    ∃ t s d, (countAll threeUses).run (bare (.str "a+")) =
        (Except.ok (), (bare (.str "a+")).withTables t s d) ∧
      Entries.count t (.str "npm") = 2 ∧ Entries.count d (.str "npm") = 0 ∧
      ((bare (.str "a+")).withTables t s d).SpokenIn threeUses := by
  have hwhole : Whole [] := by simp [Whole]
  obtain ⟨t, s, d, hrun, htallied, -, hspoken⟩ := countAll_tallies (r := bare (.str "a+"))
    (.made ..) rfl rfl rfl hwhole hwhole hwhole threeUses
  have hknown : ∀ u ∈ threeUses, ∃ l, IsLanguageOf l u.registry := by
    simp [threeUses, IsLanguageOf, Registry.languages]
  refine ⟨t, s, d, hrun, ?_, ?_, hspoken rfl rfl rfl hknown⟩
  · rw [htallied.total]
    decide
  · rw [htallied.dynamic]
    decide

end

end Regex
end RegexCorpus
