import RegexCorpus.Proofs.Record.Filling
import RegexCorpus.Proofs.Record.Witness
import RegexCorpus.Record.Regex

/-!
# Patterns on lines

A pattern of the corpus is read back from its line with its counts, its languages and its
witnesses.
-/

namespace RegexCorpus.Regex
open List Value

variable {r : Regex} {total posts static dynamic : Value} {room n : ℕ}

/-- A table of counts that can be written: a dictionary keyed by texts. -/
def CountsStorable (counts : Option Value) (room : ℕ) : Prop :=
  ∃ ms, counts = some (.object ms) ∧ (Value.object ms).FitsAt 1 room

/-- A pattern that can be written: it has been filled, its pattern is a text that is not empty, and
its data is within the limits. -/
structure Storable (r : Regex) (room : ℕ := Json.nestingLimit) : Prop where
  initialized : r.initialized = .bool true
  type : r.type = .str "Regex"
  pattern : ∃ p, p ≠ "" ∧ r.pattern = some (.str p)
  total : CountsStorable r.total room
  posts : CountsStorable r.posts room
  static : CountsStorable r.staticCounts room
  dynamic : CountsStorable r.dynamic room
  supportedLangs : r.supportedLangs.FitsAt 1 room
  inputsTested : r.inputsTested.FitsAt 1 room
  witnesses : ∃ ws : List Witness, r.witnesses = .items (ws.map .record) ∧ ∀ w ∈ ws, w.Storable room

/-- The data of a pattern that may be nested. -/
def storedValues (r : Regex) : List Value :=
  r.total.toList ++ r.posts.toList ++ r.staticCounts.toList ++ r.dynamic.toList ++
    [r.supportedLangs, r.inputsTested]

/-- Two patterns are the same in every respect, dictionaries taken as mappings. -/
structure SameAs (r s : Regex) : Prop where
  initialized : r.initialized = s.initialized
  type : r.type = s.type
  pattern : r.pattern = s.pattern
  total : Option.Rel Value.Reordered r.total s.total
  posts : Option.Rel Value.Reordered r.posts s.posts
  static : Option.Rel Value.Reordered r.staticCounts s.staticCounts
  dynamic : Option.Rel Value.Reordered r.dynamic s.dynamic
  supportedLangs : r.supportedLangs.Reordered s.supportedLangs
  inputsTested : r.inputsTested.Reordered s.inputsTested
  witnesses : ∃ ws xs : List Witness, r.witnesses = .items (ws.map .record) ∧
    s.witnesses = .items (xs.map .record) ∧ List.Forall₂ Witness.SameAs ws xs

/-! ### Witnesses -/

theorem readWitnesses_ok {ps : List (String × Witness)}
    (h : ∀ p ∈ ps, (Witness.read (.str p.1) n).made {} = .ok p.2) :
    readWitnesses n ((ps.map Prod.fst).map .str) = .ok ((ps.map Prod.snd).map .record) := by
  induction ps with
  | nil => rfl
  | cons p ps ih =>
    rw [forall_mem_cons] at h
    rw [map_cons, map_cons, readWitnesses, h.1]
    simp only [ih h.2]
    rfl

/-- Witnesses are read back from their lines. -/
theorem witnessLines_ok {ws : List Witness} (hws : r.witnesses = .items (ws.map .record))
    (h : ∀ w ∈ ws, w.Storable room) (hroom : 2 ≤ room) :
    ∃ (lines : List String) (xs : List Witness), (∀ {n}, room ≤ n →
      r.witnessLines n = .ok (lines.map .str) ∧
        readWitnesses n (lines.map .str) = .ok (xs.map .record)) ∧
      List.Forall₂ Witness.SameAs ws xs := by
  have hlines : ∀ w ∈ ws, ∃ p : String × Witness, (∀ {n}, room ≤ n → w.toLine n = .ok p.1 ∧
      (Witness.read (.str p.1) n).made {} = .ok p.2) ∧ w.SameAs p.2 := by
    intro w hw
    obtain ⟨line, x, hline, hsame⟩ := (h w hw).line hroom
    exact ⟨(line, x), hline, hsame⟩
  obtain ⟨ps, hps⟩ := forall₂_of_forall_exists hlines
  refine ⟨ps.map Prod.fst, ps.map Prod.snd, fun {n} hn => ⟨?_, ?_⟩, ?_⟩
  · rw [witnessLines, hws]
    change ((ws.map Held.record).mapM fun w => do
      return str (← (← w.get).toLine n) : Outcome _) = _
    rw [mapM_eq_ok, map_map, forall₂_map_left_iff, forall₂_map_right_iff]
    refine hps.imp fun w p hp => ?_
    change (do return str (← w.toLine n) : Outcome _) = _
    rw [(hp.1 hn).1]
    rfl
  · refine readWitnesses_ok fun p hp => ?_
    obtain ⟨w, -, hw⟩ := exists_of_mem_right hps hp
    exact (hw.1 hn).2
  · exact forall₂_map_right_iff.mpr (hps.imp fun _ _ hp => hp.2)

/-! ### Fields -/

/-- The witnesses of an object, none if it has no such key. -/
def witnessesOf (obj : Value) (room : ℕ) : Outcome (List (Held Witness)) := do
  if ← obj.has (.str "semanticDifferenceWitnesses") then
    let lines ← ((do (← obj.get "semanticDifferenceWitnesses").parts) : Outcome _)
    readWitnesses room lines
  else return []

theorem setWitnesses_eq_ok {obj : Value} {r s : Regex} :
    (setWitnesses obj room).run r = (.ok (), s) ↔
      ∃ ws, witnessesOf obj room = .ok ws ∧ s = { r with witnesses := .items ws } := by
  have hset : setWitnesses obj room = (do
      let ws ← (witnessesOf obj room : Outcome _)
      modify ({ · with witnesses := .items ws })) := by
    rw [setWitnesses, witnessesOf]
    cases obj.has (.str "semanticDifferenceWitnesses") with
    | error e => rfl
    | ok present =>
      cases present with
      | false => rfl
      | true => cases (do (← obj.get "semanticDifferenceWitnesses").parts : Outcome _) <;> rfl
  rw [hset, run_bind_eq_ok]
  constructor
  · rintro ⟨ws, r₁, hrun, h⟩
    obtain ⟨hws, rfl⟩ := run_lift_eq_ok.mp hrun
    cases h
    exact ⟨ws, hws, rfl⟩
  · rintro ⟨ws, hws, rfl⟩
    exact ⟨ws, r, run_lift_eq_ok.mpr ⟨hws, rfl⟩, rfl⟩

/-- A pattern is read from an object when all its readings are there. -/
theorem readObject_eq_ok {obj : Value} {s r : Regex} :
    (readObject obj room).run s = (.ok (), r) ↔
      ∃ pattern total posts static dynamic langs inputs ws,
        obj.get "pattern" = .ok pattern ∧
        obj.get "useCount_registry_to_nModules" = .ok total ∧
        obj.get "useCount_IStype_to_nPosts" = .ok posts ∧
        obj.getOr "useCount_registry_to_nModules_static" (.dict []) = .ok static ∧
        obj.getOr "useCount_registry_to_nModules_dynamic" (.dict []) = .ok dynamic ∧
        obj.getOr "supportedLangs" (.list []) = .ok langs ∧
        obj.getOr "nUniqueInputsTested" (.list []) = .ok inputs ∧
        witnessesOf obj room = .ok ws ∧
        r = {
          type := s.type, initialized := .bool true, pattern := some pattern, total := some total
          posts := some posts, static := some static, dynamic := some dynamic
          supportedLangs := langs, inputsTested := inputs, witnesses := .items ws } := by
  rw [readObject, run_modify_bind, run_bind_eq_ok, DataFields.readFrom]
  simp only [fields, map_cons, map_nil, DataField.reading, fillIn_cons_eq_ok, setWitnesses_eq_ok]
  constructor
  · rintro ⟨_, r₁, ⟨pattern, hpattern, total, htotal, posts, hposts, static, hstatic, dynamic,
      hdynamic, langs, hlangs, inputs, hinputs, hfill⟩, ws, hws, rfl⟩
    obtain rfl := (Prod.mk.inj hfill).2
    exact ⟨pattern, total, posts, static, dynamic, langs, inputs, ws, hpattern, htotal, hposts,
      hstatic, hdynamic, hlangs, hinputs, hws, rfl⟩
  · rintro ⟨pattern, total, posts, static, dynamic, langs, inputs, ws, hpattern, htotal, hposts,
      hstatic, hdynamic, hlangs, hinputs, hws, rfl⟩
    exact ⟨(), _, ⟨pattern, hpattern, total, htotal, posts, hposts, static, hstatic, dynamic,
      hdynamic, langs, hlangs, inputs, hinputs, rfl⟩, ws, hws, rfl⟩

theorem readObject_shared {obj : Value} {s r : Regex}
    (h : (readObject obj room).run s = (.ok (), r)) : r.shared = false := by
  obtain ⟨_, _, _, _, _, _, _, _, -, -, -, -, -, -, -, -, rfl⟩ := readObject_eq_ok.mp h
  rfl

def membersOf (r : Regex) (pattern total posts static dynamic : Value) (lines : List Value) :
    Members :=
  [("pattern", pattern), ("useCount_registry_to_nModules", total),
    ("useCount_IStype_to_nPosts", posts), ("useCount_registry_to_nModules_static", static),
    ("useCount_registry_to_nModules_dynamic", dynamic), ("supportedLangs", r.supportedLangs),
    ("type", r.type), ("nUniqueInputsTested", r.inputsTested),
    ("semanticDifferenceWitnesses", .list lines)]

theorem toLine_eq {pattern : Value} {lines : List Value} (hinit : r.initialized = .bool true)
    (hpattern : r.pattern = some pattern) (htotal : r.total = some total)
    (hposts : r.posts = some posts) (hstatic : r.staticCounts = some static)
    (hdynamic : r.dynamic = some dynamic) (hlines : r.witnessLines n = .ok lines) :
    r.toLine n = Json.toLine (.object (membersOf r pattern total posts static dynamic lines)) n := by
  rw [toLine, hinit, hpattern, htotal, hposts, hstatic, hdynamic, hlines]
  rfl

theorem fitsAt_membersOf {p : String} (lines : List String) (htype : r.type = .str "Regex")
    (htotal : r.total = some total) (hposts : r.posts = some posts)
    (hstatic : r.staticCounts = some static) (hdynamic : r.dynamic = some dynamic) {level : Nat}
    (hlevel : level + 1 < room) (hdata : ∀ v ∈ r.storedValues, v.FitsAt (level + 1) room) :
    (object (membersOf r (.str p) total posts static dynamic
      (lines.map .str))).FitsAt level room := by
  have hlines : (list (lines.map .str)).FitsAt (level + 1) room := by
    refine .list hlevel fun x hx => ?_
    obtain ⟨line, -, rfl⟩ := mem_map.mp hx
    exact .str line
  refine .object (Nat.lt_of_succ_lt hlevel) (by simp [membersOf]) ?_
  simp only [storedValues, htotal, hposts, hstatic, hdynamic, Option.toList_some, cons_append,
    nil_append, forall_mem_cons, not_mem_nil, false_imp_iff, implies_true,
    and_true] at hdata
  obtain ⟨ftotal, fposts, fstatic, fdynamic, flangs, finputs⟩ := hdata
  simp only [membersOf, forall_mem_cons, not_mem_nil, false_imp_iff, implies_true, and_true, htype]
  exact ⟨.str p, ftotal, fposts, fstatic, fdynamic, flangs, .str _, finputs, hlines⟩

theorem Storable.fitsAt_storedValues (h : r.Storable room) :
    ∀ v ∈ r.storedValues, v.FitsAt 1 room := by
  obtain ⟨total, htotal, ftotal⟩ := h.total
  obtain ⟨posts, hposts, fposts⟩ := h.posts
  obtain ⟨static, hstatic, fstatic⟩ := h.static
  obtain ⟨dynamic, hdynamic, fdynamic⟩ := h.dynamic
  simp [storedValues, htotal, hposts, hstatic, hdynamic, ftotal, fposts, fstatic, fdynamic,
    h.supportedLangs, h.inputsTested]

/-- Counts are tables inside an object. -/
theorem Storable.two_le (h : r.Storable room) : 2 ≤ room := by
  obtain ⟨ms, -, -, hwithin⟩ := h.total
  obtain ⟨n, hn⟩ : ∃ n, room - 1 = n + 1 := by
    cases hroom : room - 1 with
    | zero =>
      rw [hroom] at hwithin
      cases hwithin
    | succ n => exact ⟨n, rfl⟩
  omega

/-- A pattern is read back from its object. -/
theorem Storable.object (h : r.Storable room) :
    ∃ line ns s, (∀ c ∈ line.toList, Json.IsPlain c) ∧ Text.trim (line ++ "\n") = line ∧
      (∀ level, level + 1 < room → (∀ v ∈ r.storedValues, v.FitsAt (level + 1) room) →
        (Value.object ns).FitsAt level room) ∧
      r.SameAs s ∧ ∀ {n}, room ≤ n → r.toLine n = .ok line ∧
        Json.ofText line n = .ok (.object ns) ∧ Json.parse line n = .ok (.object ns) ∧
        (readObject (.object ns) n).run {} = (.ok (), s) := by
  obtain ⟨p, -, hp⟩ := h.pattern
  obtain ⟨total, htotal, -⟩ := h.total
  obtain ⟨posts, hposts, -⟩ := h.posts
  obtain ⟨static, hstatic, -⟩ := h.static
  obtain ⟨dynamic, hdynamic, -⟩ := h.dynamic
  obtain ⟨ws, hws, hstorable⟩ := h.witnesses
  obtain ⟨lines, xs, hlines, hsame⟩ := witnessLines_ok hws hstorable h.two_le
  have hmembers (level : Nat) (hlevel : level + 1 < room)
      (hdata : ∀ v ∈ r.storedValues, v.FitsAt (level + 1) room) :=
    fitsAt_membersOf (p := p) lines h.type htotal hposts hstatic hdynamic hlevel hdata
  obtain ⟨line, ns, hline⟩ := Json.exists_line (hmembers 0 h.two_le h.fitsAt_storedValues)
  have hfound : ∀ m ∈ membersOf r (.str p) (.object total) (.object posts) (.object static)
      (.object dynamic) (lines.map .str),
      ∃ w, (Value.object ns).get m.1 = .ok w ∧ m.2.Reordered w := by
    intro m hm
    obtain ⟨w, hw, hr⟩ := Value.get_of_isLineOf hline hm
    exact ⟨w, hw, hr⟩
  simp only [membersOf, forall_mem_cons, not_mem_nil, false_imp_iff, implies_true,
    and_true] at hfound
  obtain ⟨⟨pattern, gpattern, rpattern⟩, ⟨total', gtotal, rtotal⟩, ⟨posts', gposts, rposts⟩,
    ⟨static', gstatic, rstatic⟩, ⟨dynamic', gdynamic, rdynamic⟩, ⟨langs, glangs, rlangs⟩, -,
    ⟨inputs, ginputs, rinputs⟩, ⟨found, glines, rlines⟩⟩ := hfound
  -- the pattern and the lines of the witnesses have no keys that could change places
  obtain rfl := Value.eq_of_reordered_atom rpattern
  obtain rfl : found = .list (lines.map .str) := by
    have hatoms : lines.map Value.str = (lines.map Atom.str).map .atom := by
      rw [map_map]
      rfl
    rw [hatoms] at rlines ⊢
    exact Value.eq_of_reordered_atoms rlines
  have hwitnesses {n : ℕ} (hn : room ≤ n) : witnessesOf (.object ns) n = .ok (xs.map .record) := by
    rw [witnessesOf, Value.has_of_get glines, Outcome.ok_bind, if_pos rfl, glines]
    exact (hlines hn).2
  have hread {n : ℕ} (hn : room ≤ n) : (readObject (.object ns) n).run {} = (.ok (), _) :=
    readObject_eq_ok.mpr ⟨_, _, _, _, _, _, _, _, gpattern, gtotal, gposts,
      Value.getOr_of_get gstatic _, Value.getOr_of_get gdynamic _, Value.getOr_of_get glangs _,
      Value.getOr_of_get ginputs _, hwitnesses hn, rfl⟩
  refine ⟨line, ns, _, hline.isPlain, hline.trim, ?_, ?_,
    fun hn => ⟨?_, hline.ofText hn, hline.parse hn, hread hn⟩⟩
  · exact fun level hlevel hdata =>
      ⟨hline.isJson, hline.reordered.within (hmembers level hlevel hdata).2⟩
  · have hcounts {c : Option Value} {v w : Value} (hc : c = some v) (hr : v.Reordered w) :
        Option.Rel Value.Reordered c (some w) := hc ▸ .some hr
    exact {
      initialized := h.initialized
      type := h.type
      pattern := hp
      total := hcounts htotal rtotal
      posts := hcounts hposts rposts
      static := hcounts hstatic rstatic
      dynamic := hcounts hdynamic rdynamic
      supportedLangs := rlangs
      inputsTested := rinputs
      witnesses := ⟨ws, xs, hws, rfl, hsame⟩ }
  · rw [toLine_eq h.initialized hp htotal hposts hstatic hdynamic (hlines hn).1, hline.toLine hn]

theorem Storable.line (h : r.Storable room) :
    ∃ line s, (∀ c ∈ line.toList, Json.IsPlain c) ∧ Text.trim (line ++ "\n") = line ∧
      r.SameAs s ∧ ∀ {n}, room ≤ n → r.toLine n = .ok line ∧
        (Regex.read (.str line) n).run {} = (.ok (), s) := by
  obtain ⟨line, ns, s, hplain, htrim, -, hsame, hline⟩ := h.object
  refine ⟨line, s, hplain, htrim, hsame, fun hn => ?_⟩
  obtain ⟨hl, hobject, -, hread⟩ := hline hn
  refine ⟨hl, Eq.trans ?_ hread⟩
  rw [Regex.read, run_modify_bind, ofLine_str, run_lift_bind hobject]
  rfl

/-! ### Patterns with no counts -/

theorem fitsAt_storedValues_bare (pattern : Value) {level : Nat} (h : level < Json.nestingLimit) :
    ∀ v ∈ (bare pattern).storedValues, v.FitsAt level := by
  have hobject : (object []).FitsAt level := .object h (by simp) (by simp)
  have hlist : (list []).FitsAt level := .list h (by simp)
  have hdata : (bare pattern).storedValues =
    [.object [], .object [], .object [], .object [], .list [], .int (-1)] := rfl
  simp [hdata, hobject, hlist, Value.short_digit]

theorem storable_bare {p : String} (h : p ≠ "") : (bare (.str p)).Storable := by
  have hobject : (object []).FitsAt 1 := .object (by decide) (by simp) (by simp)
  exact {
    initialized := rfl
    type := rfl
    pattern := ⟨p, h, rfl⟩
    total := ⟨[], rfl, hobject⟩
    posts := ⟨[], rfl, hobject⟩
    static := ⟨[], rfl, hobject⟩
    dynamic := ⟨[], rfl, hobject⟩
    supportedLangs := .list (by decide) (by simp)
    inputsTested := .digit (by decide)
    witnesses := ⟨[], rfl, by simp⟩ }

end RegexCorpus.Regex
