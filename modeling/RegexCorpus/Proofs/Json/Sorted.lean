import Mathlib.Data.List.Nodup
import Mathlib.Data.List.Perm.Subperm
import RegexCorpus.Proofs.Json.Value

/-!
# The order of keys

Bringing the keys of a JSON value into order succeeds and changes nothing but that order, and two
values that differ only in it become the same one.
-/

namespace RegexCorpus
open List

abbrev entriesOf (ms : Members) : Entries := ms.map fun m => (.str m.1, m.2)

theorem entriesOf_cons (m : String × Value) (ms : Members) :
    entriesOf (m :: ms) = (.str m.1, m.2) :: entriesOf ms := rfl

/-! ### Members in order -/

theorem compare_ne_gt {s t : String} : (some (compare s t) != some .gt) = decide (s ≤ t) := by
  have h : compare s t = .gt ↔ t < s :=
    compareOfLessAndEq_eq_gt String.le_antisymm String.le_total String.not_le s t
  rw [Bool.eq_iff_iff, bne_iff_ne, ne_eq, Option.some.injEq, h, decide_eq_true_iff, String.not_lt]

/-- Members in the order of their keys. -/
def inOrder (ms : Members) : Members :=
  ms.mergeSort fun m n => decide (m.1 ≤ n.1)

theorem inOrder_perm (ms : Members) : (inOrder ms).Perm ms := mergeSort_perm _ _

theorem sorted_entriesOf (ms : Members) :
    Entries.sorted (entriesOf ms) = .ok (entriesOf (inOrder ms)) := by
  have hall :
      (entriesOf ms).all fun e => (entriesOf ms).all fun f => (e.1.order? f.1).isSome := by
    simp [all_eq_true, Atom.order?]
  rw [Entries.sorted, hall, Bool.or_true, if_pos rfl, inOrder]
  exact congrArg Except.ok (map_mergeSort fun m _ n _ => compare_ne_gt.symm).symm

/-- Members with distinct keys have one order. -/
theorem inOrder_eq_of_perm {ms ns : Members} (hkeys : (ms.map Prod.fst).Nodup)
    (h : ms.Perm ns) : inOrder ms = inOrder ns := by
  have hsorted (l : Members) :
      (inOrder l).Pairwise fun m n => decide (m.1 ≤ n.1) = true := by
    apply pairwise_mergeSort
    · intro a b c hab hbc
      simp only [decide_eq_true_eq] at hab hbc ⊢
      exact String.le_trans hab hbc
    · intro a b
      simpa using String.le_total a.1 b.1
  refine List.Perm.eq_of_pairwise (fun m n hm hn hmn hnm => ?_) (hsorted ms) (hsorted ns) ?_
  · have hm' := (inOrder_perm ms).mem_iff.mp hm
    have hn' := h.mem_iff.mpr ((inOrder_perm ns).mem_iff.mp hn)
    simp only [decide_eq_true_eq] at hmn hnm
    exact inj_on_of_nodup_map hkeys hm' hn' (String.le_antisymm hmn hnm)
  · exact (inOrder_perm ms).trans (h.trans (inOrder_perm ns).symm)

/-! ### Members that correspond -/

/-- Members with the same keys whose values are related, place by place. -/
def Corresponding (R : Value → Value → Prop) (ms ns : Members) : Prop :=
  List.Forall₂ (fun m n => m.1 = n.1 ∧ R m.2 n.2) ms ns

section
variable {R : Value → Value → Prop} {ms ns : Members}

theorem exists_corresponding (h : ∀ m ∈ ms, ∃ w, R m.2 w) : ∃ ns, Corresponding R ms ns :=
  forall₂_of_forall_exists fun m hm =>
    let ⟨w, hw⟩ := h m hm
    ⟨(m.1, w), rfl, hw⟩

theorem Corresponding.flip (h : Corresponding R ms ns) :
    Corresponding (fun v w => R w v) ns ms := by
  induction h with
  | nil => exact .nil
  | cons h _ ih => exact .cons ⟨h.1.symm, h.2⟩ ih

theorem Corresponding.keys (h : Corresponding R ms ns) : ms.map Prod.fst = ns.map Prod.fst := by
  induction h with
  | nil => rfl
  | cons h _ ih => rw [map_cons, map_cons, h.1, ih]

theorem Corresponding.mem (h : Corresponding R ms ns) {k : String} {v : Value}
    (hv : (k, v) ∈ ms) : ∃ w, (k, w) ∈ ns ∧ R v w := by
  induction h with
  | nil => simp at hv
  | @cons m n ms ns h _ ih =>
    obtain rfl | hv := mem_cons.mp hv
    · exact ⟨n.2, by rw [show k = n.1 from h.1]; simp, h.2⟩
    · obtain ⟨w, hw, hr⟩ := ih hv
      exact ⟨w, mem_cons_of_mem _ hw, hr⟩

end

/-- A key has one value among members with distinct keys. -/
theorem value_unique {ms : Members} (hkeys : (ms.map Prod.fst).Nodup) {k : String}
    {v w : Value} (hv : (k, v) ∈ ms) (hw : (k, w) ∈ ms) : v = w :=
  congrArg Prod.snd (inj_on_of_nodup_map hkeys hv hw rfl)

namespace Value

variable {v w : Value}

theorem mem_entriesOf {ms : Members} {k : String} :
    (.str k, v) ∈ entriesOf ms ↔ (k, v) ∈ ms := by
  simp

theorem keys_entriesOf (ms : Members) :
    (entriesOf ms).map Prod.fst = (ms.map Prod.fst).map Atom.str := by
  simp

/-- Objects are equal up to the order of keys when their members are, key by key. -/
theorem reordered_object {ms ns : Members} :
    Reordered (.object ms) (.object ns) ↔
      (ms.map Prod.fst).Perm (ns.map Prod.fst) ∧
        ∀ k v w, (k, v) ∈ ms → (k, w) ∈ ns → Reordered v w := by
  have hstr : Function.Injective Atom.str := fun _ _ h => Atom.str.inj h
  have hperm : ((entriesOf ms).map Prod.fst).Perm ((entriesOf ns).map Prod.fst) ↔
      (ms.map Prod.fst).Perm (ns.map Prod.fst) := by
    rw [keys_entriesOf, keys_entriesOf, map_perm_map_iff hstr]
  constructor
  · rintro (_ | _ | ⟨hkeys, h⟩)
    exact ⟨hperm.mp hkeys, fun k v w hv hw =>
      h (.str k) v w (mem_entriesOf.mpr hv) (mem_entriesOf.mpr hw)⟩
  · rintro ⟨hkeys, h⟩
    refine .dict (hperm.mpr hkeys) fun a v w hv hw => ?_
    obtain ⟨⟨k, u⟩, hu, he⟩ := mem_map.mp hv
    obtain ⟨rfl, rfl⟩ := Prod.mk.inj he
    exact h k u w hu (mem_entriesOf.mp hw)

theorem exists_object_of_keys {ms : Members} {es : Entries}
    (h : ((entriesOf ms).map Prod.fst).Perm (es.map Prod.fst)) :
    ∃ ns, es = entriesOf ns ∧ (ms.map Prod.fst).Perm (ns.map Prod.fst) := by
  have hstr : Function.Injective Atom.str := fun _ _ h => Atom.str.inj h
  obtain ⟨ns, rfl⟩ : ∃ ns, es = entriesOf ns := by
    have hentries : ∀ e ∈ es, ∃ m : String × Value, e = (.str m.1, m.2) := by
      intro e he
      have hkey := h.mem_iff.mpr (mem_map_of_mem he)
      rw [keys_entriesOf] at hkey
      obtain ⟨k, -, hk⟩ := mem_map.mp hkey
      exact ⟨(k, e.2), by rw [hk]⟩
    obtain ⟨ns, hns⟩ := forall₂_of_forall_exists hentries
    rw [← forall₂_map_right_iff, forall₂_eq_eq_eq] at hns
    exact ⟨ns, hns⟩
  refine ⟨ns, rfl, ?_⟩
  rwa [keys_entriesOf, keys_entriesOf, map_perm_map_iff hstr] at h

/-- A change of the order of keys keeps the atoms, and the keys distinct. -/
theorem Reordered.ofAtoms {P : Atom → Prop} (h : Reordered v w) (hv : OfAtoms P v) :
    OfAtoms P w := by
  induction h with
  | atom a => exact hv
  | @list xs ys hlength _ ih =>
    cases hv with
    | list hv =>
    refine .list fun y hy => ?_
    obtain ⟨i, hi, rfl⟩ := getElem_of_mem hy
    exact ih i xs[i] ys[i] (by simp) (by simp) (hv _ (getElem_mem _))
  | @dict es fs hkeys _ ih =>
    cases hv with
    | @object ms hnodup hv =>
    obtain ⟨ns, rfl, hperm⟩ := exists_object_of_keys hkeys
    refine .object (hperm.nodup_iff.mp hnodup) fun n hn => ?_
    obtain ⟨⟨k, v⟩, hmem, rfl⟩ := mem_map.mp (hperm.mem_iff.mpr (mem_map_of_mem hn))
    exact ih (.str n.1) v n.2 (mem_entriesOf.mpr hmem) (mem_entriesOf.mpr hn) (hv _ hmem)

/-! ### Values in order -/

/-- The second value is the first one with its keys in order. -/
structure SortsTo (v w : Value) : Prop where
  sorted : v.sorted = .ok w
  reordered : Reordered v w

theorem sortedItems_eq_mapM (xs : List Value) : sortedItems xs = xs.mapM sorted := by
  induction xs with
  | nil => rfl
  | cons x xs ih => rw [sortedItems, mapM_cons, ih]

theorem sortedEntries_entriesOf {ms ns : Members}
    (h : Corresponding SortsTo ms ns) :
    sortedEntries (entriesOf ms) = .ok (entriesOf ns) := by
  induction h with
  | nil => rfl
  | @cons m n ms ns h _ ih =>
    rw [entriesOf_cons, sortedEntries, h.2.sorted, ih, h.1]
    rfl

theorem sorted_object {ms ns : Members}
    (h : Corresponding SortsTo ms ns) :
    sorted (.object ms) = .ok (.object (inOrder ns)) := by
  rw [object, sorted, sortedEntries_entriesOf h]
  change (do return dict (← Entries.sorted (entriesOf ns))) = _
  rw [sorted_entriesOf]
  rfl

section

variable {P : Atom → Prop}
variable {v : Value}

/-- The keys of every object can be brought into order. -/
theorem OfAtoms.exists_sortsTo (h : OfAtoms P v) : ∃ w, SortsTo v w := by
  induction h with
  | atom => exact ⟨_, rfl, .atom _⟩
  | @list xs _ ih =>
    obtain ⟨ys, hys⟩ := forall₂_of_forall_exists ih
    refine ⟨.list ys, ?_, .list hys.length_eq ?_⟩
    · have hitems : sortedItems xs = .ok ys := by
        rw [sortedItems_eq_mapM, mapM_eq_ok]
        exact hys.imp fun _ _ h => h.sorted
      rw [sorted, hitems]
      rfl
    · intro i x y hx hy
      obtain ⟨hi, rfl⟩ := List.getElem?_eq_some_iff.mp hx
      obtain ⟨hi', rfl⟩ := List.getElem?_eq_some_iff.mp hy
      exact (hys.get hi hi').reordered
  | @object ms hkeys _ ih =>
    obtain ⟨ns, hns⟩ := exists_corresponding (R := SortsTo) ih
    have hperm : (ms.map Prod.fst).Perm ((inOrder ns).map Prod.fst) := by
      rw [hns.keys]
      exact ((inOrder_perm ns).map _).symm
    have hnodup : ((inOrder ns).map Prod.fst).Nodup := hperm.nodup_iff.mp hkeys
    refine ⟨.object (inOrder ns), sorted_object hns, reordered_object.mpr ⟨hperm, ?_⟩⟩
    intro k v w hv hw
    obtain ⟨w', hw', hvw⟩ := hns.mem hv
    rw [value_unique hnodup hw ((inOrder_perm ns).mem_iff.mpr hw')]
    exact hvw.reordered

theorem OfAtoms.reordered_refl (h : OfAtoms P v) : Reordered v v := by
  obtain ⟨w, hw⟩ := h.exists_sortsTo
  exact hw.reordered.trans hw.reordered.symm

/-- Objects whose values become the same, key by key, become the same in order. -/
theorem sorted_object_eq {ms ns : Members} (hms : OfAtoms P (.object ms))
    (hns : OfAtoms P (.object ns)) (hperm : (ms.map Prod.fst).Perm (ns.map Prod.fst))
    (h : ∀ k v w, (k, v) ∈ ms → (k, w) ∈ ns → v.sorted = w.sorted) :
    sorted (.object ms) = sorted (.object ns) := by
  obtain ⟨hkeys, hms⟩ := ofAtoms_object.mp hms
  obtain ⟨-, hns⟩ := ofAtoms_object.mp hns
  obtain ⟨ms', hms'⟩ := exists_corresponding (R := SortsTo) fun m hm => (hms m hm).exists_sortsTo
  obtain ⟨ns', hns'⟩ := exists_corresponding (R := SortsTo) fun n hn => (hns n hn).exists_sortsTo
  have hnodup : (ms'.map Prod.fst).Nodup := by rwa [← hms'.keys]
  have hlength : ns'.length ≤ ms'.length := by
    have := hperm.length_eq
    rw [hms'.keys, hns'.keys, length_map, length_map] at this
    omega
  -- a member of `ms'` and the one of `ns'` under its key come from values that become the same
  have hsubset : ms' ⊆ ns' := by
    rintro ⟨k, w⟩ hw
    obtain ⟨v, hv, hvw⟩ := hms'.flip.mem hw
    obtain ⟨⟨k', u⟩, hu, hk⟩ := mem_map.mp (hperm.mem_iff.mp (mem_map_of_mem hv))
    obtain rfl : k' = k := hk
    obtain ⟨w', hw', huw⟩ := hns'.mem hu
    have hsorted := h k' v u hv hu
    rw [hvw.sorted, huw.sorted, Except.ok.injEq] at hsorted
    rwa [hsorted]
  have hsubperm := subperm_of_subset (List.Nodup.of_map _ hnodup) hsubset
  rw [sorted_object hms', sorted_object hns',
    inOrder_eq_of_perm hnodup (hsubperm.perm_of_length_le hlength)]

theorem Reordered.sorted_eq {w : Value} (h : Reordered v w) (hv : OfAtoms P v) (hw : OfAtoms P w) :
    v.sorted = w.sorted := by
  induction h with
  | atom a => rfl
  | @list xs ys hlength _ ih =>
    cases hv with
    | list hv =>
    cases hw with
    | list hw =>
    have hitems : xs.map sorted = ys.map sorted := by
      refine ext_getElem (by simp [hlength]) fun i hi hi' => ?_
      rw [length_map] at hi hi'
      rw [getElem_map, getElem_map]
      exact ih i _ _ (getElem?_eq_getElem hi) (getElem?_eq_getElem hi')
        (hv _ (getElem_mem hi)) (hw _ (getElem_mem hi'))
    have hmapM : xs.mapM sorted = ys.mapM sorted := by
      rw [← Function.id_comp sorted, ← mapM_map, ← mapM_map, hitems]
    rw [sorted, sorted, sortedItems_eq_mapM, sortedItems_eq_mapM, hmapM]
  | @dict es fs hkeys h ih =>
    have hreordered := Reordered.dict hkeys h
    cases hv with
    | @object ms hnodup hv =>
    cases hw with
    | @object ns hnodup' hw =>
    refine sorted_object_eq (.object hnodup hv) (.object hnodup' hw)
      (reordered_object.mp hreordered).1 fun k v w hmem hmem' => ?_
    exact ih (.str k) v w (mem_entriesOf.mpr hmem) (mem_entriesOf.mpr hmem') (hv _ hmem)
      (hw _ hmem')

end

end Value
end RegexCorpus
