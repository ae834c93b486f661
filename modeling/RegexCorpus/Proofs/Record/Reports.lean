import RegexCorpus.Proofs.Record.Witness
import RegexCorpus.Proofs.Table

/-!
# Reports to a witness

Languages report their results on an input, one after the other, in any order and as often as they
like. The table of a witness then has one row for each different result, in which the languages are
listed that reported it.
-/

namespace RegexCorpus
open List

/-! ### Hashes -/

section
variable (onAtom : Atom.Identity → ℕ) (onTuple : List ℕ → ℕ)

/-- The hash of data without parts, by a hash of what it stands for; other data has none. -/
def Value.hash (v : Value) : Outcome ℕ := do return onAtom (← v.toKey).identity

def MatchContents.hash (c : MatchContents) : Outcome ℕ := do
  let groups ← c.captureGroups.parts
  let text ← c.matchedString.hash onAtom
  let hashes ← groups.mapM (Value.hash onAtom)
  return onTuple [text, onTuple hashes]

def MatchResult.hashContents : Held MatchContents → Outcome ℕ
  | .record c => c.hash onAtom onTuple
  | .plain v => v.hash onAtom

def MatchResult.hash (r : MatchResult) : Outcome ℕ := do
  let matched ← r.matched.hash onAtom
  let contents ← hashContents onAtom onTuple r.contents
  return onTuple [matched, contents]

end

variable {r s : MatchResult}

/-- The groups of the result are a list, as documented; groups by name are a dictionary. -/
def MatchResult.ListsGroups (r : MatchResult) : Prop :=
  ∀ c, r.contents = .record c → ∃ groups, c.captureGroups = .list groups

theorem MatchData.listsGroups_result (d : MatchData) : d.result.ListsGroups := by
  rintro c hc
  obtain rfl := Held.record.inj hc
  exact ⟨_, rfl⟩

section
variable {onAtom : Atom.Identity → ℕ} {onTuple : List ℕ → ℕ}

theorem Value.hash_eq_of_samePart {v w : Value} (h : v.samePart w = true) :
    v.hash onAtom = w.hash onAtom := by
  cases v with
  | atom a =>
    cases w with
    | atom b =>
      rw [Value.samePart, Atom.samePart_iff] at h
      simp only [Value.hash, toKey, Outcome.ok_bind, h]
    | list | dict => simp [Value.samePart] at h
  | list xs =>
    cases w with
    | list ys => rfl
    | atom | dict => simp [Value.samePart] at h
  | dict es =>
    cases w with
    | dict fs => rfl
    | atom | list => simp [Value.samePart] at h

theorem Value.samePart_of_same {v w : Value} (h : v.same w = true) : v.samePart w = true := by
  cases v with
  | atom a =>
    cases w with
    | atom b =>
      rw [Value.same, Atom.same_iff] at h
      rw [Value.samePart, Atom.samePart_iff, h.1]
    | list | dict => simp [Value.same, Value.samePart] at h
  | list | dict => simpa [Value.same] using h

theorem mapM_hash_eq_of_sameItems {xs ys : List Value} (h : Value.sameItems xs ys = true) :
    xs.mapM (Value.hash onAtom) = ys.mapM (Value.hash onAtom) := by
  induction xs generalizing ys with
  | nil =>
    cases ys with
    | nil => rfl
    | cons => simp [Value.sameItems] at h
  | cons x xs ih =>
    cases ys with
    | nil => simp [Value.sameItems] at h
    | cons y ys =>
      rw [Value.sameItems, Bool.and_eq_true] at h
      rw [mapM_cons, mapM_cons, Value.hash_eq_of_samePart h.1, ih h.2]

theorem MatchContents.hash_eq_of_same {c d : MatchContents} {xs ys : List Value}
    (hc : c.captureGroups = .list xs) (hd : d.captureGroups = .list ys) (h : c.same d = true) :
    c.hash onAtom onTuple = d.hash onAtom onTuple := by
  rw [MatchContents.same, Bool.and_eq_true, hc, hd] at h
  have hitems : Value.sameItems xs ys = true := by simpa [Value.same, Value.samePart] using h.2
  have htext : c.matchedString.hash onAtom = d.matchedString.hash onAtom :=
    Value.hash_eq_of_samePart (Value.samePart_of_same h.1)
  simp only [MatchContents.hash, hc, hd, Value.parts, Outcome.ok_bind, htext,
    mapM_hash_eq_of_sameItems hitems]

/-- Results are equal when their verdicts are and their contents, which are of one kind. -/
theorem MatchResult.same_eq_ok_true :
    r.same s = .ok true ↔ r.matched.same s.matched = true ∧
      ((∃ c d, r.contents = .record c ∧ s.contents = .record d ∧ c.same d = true) ∨
        ∃ v w, r.contents = .plain v ∧ s.contents = .plain w ∧ v.same w = true) := by
  obtain ⟨m, contents⟩ := r
  obtain ⟨m', contents'⟩ := s
  rw [MatchResult.same]
  by_cases hm : m.same m' = true
  · rw [if_pos hm]
    cases contents <;> cases contents' <;> simp [MatchResult.sameContents, hm]
  · simp [hm]

theorem MatchResult.hash_eq_of_same (hr : r.ListsGroups) (hs : s.ListsGroups)
    (h : r.same s = .ok true) : r.hash onAtom onTuple = s.hash onAtom onTuple := by
  obtain ⟨hm, h⟩ := same_eq_ok_true.1 h
  have hmatched : r.matched.hash onAtom = s.matched.hash onAtom :=
    Value.hash_eq_of_samePart (Value.samePart_of_same hm)
  have hcontents : hashContents onAtom onTuple r.contents =
      hashContents onAtom onTuple s.contents := by
    rcases h with ⟨c, d, hc, hd, hcd⟩ | ⟨v, w, hv, hw, hvw⟩
    · obtain ⟨xs, hxs⟩ := hr c hc
      obtain ⟨ys, hys⟩ := hs d hd
      rw [hc, hd]
      exact MatchContents.hash_eq_of_same hxs hys hcd
    · rw [hv, hw]
      exact Value.hash_eq_of_samePart (Value.samePart_of_same hvw)
  rw [MatchResult.hash, MatchResult.hash, hmatched, hcontents]

theorem Value.hash_eq_ok {v : Value} {k : Atom} (h : v.toKey = .ok k) :
    v.hash onAtom = .ok (onAtom k.identity) := by
  rw [Value.hash, h]
  rfl

theorem MatchContents.exists_hash {c : MatchContents} (h : c.hashable = .ok ()) :
    ∃ n, c.hash onAtom onTuple = .ok n := by
  simp only [MatchContents.hashable, Outcome.bind_eq_ok] at h
  obtain ⟨groups, hgroups, text, htext, keys, hkeys, -⟩ := h
  have hhashes : groups.mapM (Value.hash onAtom) = .ok (keys.map fun k => onAtom k.identity) := by
    rw [mapM_eq_ok, forall₂_map_right_iff]
    exact (mapM_eq_ok.1 hkeys).imp fun _ _ => Value.hash_eq_ok
  refine ⟨onTuple [onAtom text.identity, onTuple (keys.map fun k => onAtom k.identity)], ?_⟩
  rw [MatchContents.hash, hgroups, Outcome.ok_bind, Value.hash_eq_ok htext, Outcome.ok_bind,
    hhashes]
  rfl

theorem MatchResult.exists_hash {r : MatchResult} (h : r.hashable = .ok ()) :
    ∃ n, r.hash onAtom onTuple = .ok n := by
  rw [MatchResult.hashable, Outcome.bind_eq_ok] at h
  obtain ⟨matched, hmatched, hcontents⟩ := h
  obtain ⟨n, hn⟩ : ∃ n, hashContents onAtom onTuple r.contents = .ok n := by
    cases hc : r.contents with
    | record c =>
      rw [hc] at hcontents
      exact MatchContents.exists_hash hcontents
    | plain v =>
      rw [hc] at hcontents
      obtain ⟨k, hk, -⟩ := Outcome.bind_eq_ok.1 hcontents
      exact ⟨_, Value.hash_eq_ok hk⟩
  refine ⟨onTuple [onAtom matched.identity, n], ?_⟩
  rw [MatchResult.hash, Value.hash_eq_ok hmatched, Outcome.ok_bind, hn]
  rfl

end

theorem ResultTable.sameKey_iff_same (hr : r.ListsGroups) :
    ResultTable.sameKey (.record r) (.record s) = true ↔ r.same s = .ok true := by
  have halike {c d : MatchContents} (hc : r.contents = .record c) : c.alike d = c.same d := by
    obtain ⟨xs, hxs⟩ := hr c hc
    rw [MatchContents.alike, hxs, MatchContents.sameOrder, Bool.and_true]
    rintro es fs ⟨⟩
  rw [MatchResult.same_eq_ok_true, ResultTable.sameKey, MatchResult.alike, Bool.and_eq_true]
  refine and_congr_right fun _ => ?_
  cases hc : r.contents with
  | record c => cases s.contents <;> simp [halike hc]
  | plain v => cases s.contents <;> simp

namespace Witness

/-! ### Rows of a table -/

section
variable {keys : List MatchData} {f : MatchData → List String} {d : MatchData}

/-- The rows of these results, each with the languages that a function gives. -/
def rowsFor (keys : List MatchData) (f : MatchData → List String) : Rows :=
  keys.map fun d => (d, .strs (f d))

theorem find?_rowsFor : ResultTable.find? (.record d.result) (tableOf (rowsFor keys f)) =
    if d ∈ keys then some (.strs (f d)) else none := by
  induction keys with
  | nil => rfl
  | cons k keys ih =>
    rw [ResultTable.find?] at ih ⊢
    simp only [rowsFor, tableOf, map_cons, find?_cons, MatchData.sameKey_result] at ih ⊢
    by_cases hk : k = d
    · subst hk
      simp
    · simp only [hk, decide_false, ih, mem_cons, Ne.symm hk, false_or]

theorem keys_rowsFor (keys : List MatchData) (f : MatchData → List String) :
    (rowsFor keys f).map Prod.fst = keys := by
  rw [rowsFor, map_map]
  exact map_id keys

theorem rowsFor_update (h : d ∉ keys) (ls : List String) :
    rowsFor keys (Function.update f d ls) = rowsFor keys f := by
  refine map_congr_left fun k hk => ?_
  have hne : k ≠ d := by
    rintro rfl
    exact h hk
  rw [Function.update_of_ne hne]

theorem insert_rowsFor (hnodup : keys.Nodup) (ls : List String) :
    ResultTable.insert (.record d.result) (.strs ls) (tableOf (rowsFor keys f)) =
      tableOf (rowsFor (noted keys d) (Function.update f d ls)) := by
  by_cases hd : d ∈ keys
  · rw [noted, if_pos hd]
    induction keys with
    | nil => simp at hd
    | cons k keys ih =>
      rw [nodup_cons] at hnodup
      change (if ResultTable.sameKey (.record k.result) (.record d.result) then
          (.record k.result, .strs ls) :: tableOf (rowsFor keys f)
        else (.record k.result, .strs (f k)) ::
          ResultTable.insert (.record d.result) (.strs ls) (tableOf (rowsFor keys f))) =
        (.record k.result, .strs (Function.update f d ls k)) ::
          tableOf (rowsFor keys (Function.update f d ls))
      rw [MatchData.sameKey_result]
      by_cases hk : k = d
      · subst hk
        rw [if_pos (decide_eq_true rfl), Function.update_self, rowsFor_update hnodup.1]
      · rw [if_neg (by simpa using hk), Function.update_of_ne hk,
          ih hnodup.2 ((mem_cons.1 hd).resolve_left (Ne.symm hk))]
  · rw [noted, if_neg hd, insert_new (by rwa [keys_rowsFor])]
    have hrows : rowsFor (keys ++ [d]) (Function.update f d ls) =
        rowsFor keys (Function.update f d ls) ++ [(d, .strs ls)] := by
      simp [rowsFor]
    rw [hrows, rowsFor_update hd]

end

/-! ### Reports -/

structure Report where
  pattern : Value
  input : Value
  language : String
  data : MatchData

namespace Report

def result (r : Report) : MatchResult := r.data.result

def evaluation (r : Report) : Evaluation :=
  { pattern := r.pattern
    input := r.input
    language := .str r.language
    result := .record r.result }

def gives (r : Report) (key : MatchResult) : Bool :=
  match r.result.same key with
  | .ok same => same
  | .error _ => false

theorem gives_result (r : Report) (d : MatchData) : r.gives d.result = decide (r.data = d) := by
  rw [gives, result, MatchData.same_result]

end Report

theorem same_eq_true {r s : Report} : r.result.same s.result = .ok true ↔ r.data = s.data := by
  rw [Report.result, Report.result, MatchData.same_result, Except.ok.injEq, decide_eq_true_iff]

theorem same_eq_false {r s : Report} : r.result.same s.result = .ok false ↔ r.data ≠ s.data := by
  rw [Report.result, Report.result, MatchData.same_result, Except.ok.injEq, decide_eq_false_iff_not]

/-- No language reported two unequal results. -/
def OneEach (rs : List Report) : Prop :=
  ∀ r ∈ rs, ∀ s ∈ rs, r.language = s.language → r.result.same s.result = .ok true

theorem OneEach.perm {rs ss : List Report} (h : OneEach rs) (hperm : ss.Perm rs) : OneEach ss := by
  intro r hr s hs
  exact h r (hperm.mem_iff.1 hr) s (hperm.mem_iff.1 hs)

def addAll (rs : List Report) : Edit Witness Unit := rs.forM fun r => add r.evaluation

def reported (rs : List Report) : List MatchData := (rs.map Report.data).eraseDups

/-- The languages that reported a result equal to this one, in the order of their first reports. -/
def reporters (rs : List Report) (key : MatchResult) : List String :=
  ((rs.filter fun r => r.gives key).map Report.language).eraseDups

/-! ### One report -/

section
variable {rs : List Report} {keys : List MatchData} {f : MatchData → List String}
variable {w : Witness}

theorem has_strs (ls : List String) (l : String) :
    (Value.strs ls).has (.str l) = .ok (decide (l ∈ ls)) := by
  have hany : (ls.map Value.str).any (·.samePart (.str l)) = decide (l ∈ ls) := by
    rw [any_map, Bool.eq_iff_iff, any_eq_true, decide_eq_true_iff]
    simp [Value.samePart, Atom.samePart_str]
  rw [Value.strs, Value.has, hany]

theorem append_strs (ls : List String) (l : String) :
    append (.strs ls) (.str l) = .ok (.strs (ls ++ [l])) := by
  simp [append, Value.strs]

theorem tableFor_eq_ok {t : ResultTable} (hw : w.results = .inl t) {key : Held MatchResult}
    (hkey : ResultTable.checkKey key = .ok ()) : w.tableFor key = .ok t := by
  obtain ⟨pattern, input, results⟩ := w
  subst hw
  change (ResultTable.checkKey key >>= fun _ => pure t) = _
  rw [hkey]
  rfl

/-- A report puts its language at the end of the row of its result, unless it stands there. -/
theorem add_run (hw : w.results = .inl (tableOf (rowsFor keys f))) (hnodup : keys.Nodup)
    (hrest : ∀ d ∉ keys, f d = []) (r : Report) :
    (add r.evaluation).run w =
      (Except.ok (), { w with results := .inl (tableOf (rowsFor (noted keys r.data)
        (Function.update f r.data (noted (f r.data) r.language)))) }) := by
  have htable : w.tableFor r.evaluation.result = .ok (tableOf (rowsFor keys f)) :=
    tableFor_eq_ok hw r.data.hashable_result
  have hrow : (ResultTable.find? r.evaluation.result (tableOf (rowsFor keys f))).getD (.list []) =
      .strs (f r.data) := by
    change (ResultTable.find? (.record r.data.result) _).getD _ = _
    rw [find?_rowsFor]
    by_cases hd : r.data ∈ keys
    · rw [if_pos hd]
      rfl
    · rw [if_neg hd, hrest _ hd]
      rfl
  have hhas : (Value.strs (f r.data)).has r.evaluation.language =
      .ok (decide (r.language ∈ f r.data)) := has_strs _ _
  rw [← insert_rowsFor hnodup, add, run_get_state_bind, run_lift_bind htable, hrow]
  dsimp only
  rw [run_set_bind, run_lift_bind hhas]
  by_cases hl : r.language ∈ f r.data
  · rw [noted, if_pos hl, decide_eq_true hl]
    rfl
  · have happend : append (Value.strs (f r.data)) r.evaluation.language =
        .ok (.strs (f r.data ++ [r.language])) := append_strs _ _
    rw [noted, if_neg hl, decide_eq_false hl, Bool.not_false, if_pos rfl, run_lift_bind happend]
    rfl

/-! ### All reports -/

variable {d : MatchData}

theorem reported_concat (rs : List Report) (r : Report) :
    reported (rs ++ [r]) = noted (reported rs) r.data := by
  rw [reported, map_append, map_singleton, eraseDups_concat, reported]

theorem reporters_concat (rs : List Report) (r : Report) :
    (fun d : MatchData => reporters (rs ++ [r]) d.result) =
      Function.update (fun d => reporters rs d.result) r.data
        (noted (reporters rs r.data.result) r.language) := by
  funext d
  rw [reporters, filter_append, map_append]
  by_cases hd : d = r.data
  · subst hd
    have hone : [r].filter (fun s => s.gives r.data.result) = [r] := by
      simp [Report.gives_result]
    rw [hone, map_singleton, eraseDups_concat, Function.update_self, reporters]
  · have hnone : [r].filter (fun s => s.gives d.result) = [] := by
      simp [Report.gives_result, Ne.symm hd]
    rw [hnone, map_nil, append_nil, Function.update_of_ne hd, reporters]

theorem mem_reported : d ∈ reported rs ↔ ∃ r ∈ rs, r.data = d := by
  rw [reported, mem_eraseDups, mem_map]

theorem mem_reporters {l : String} :
    l ∈ reporters rs d.result ↔ ∃ r ∈ rs, r.data = d ∧ r.language = l := by
  rw [reporters, mem_eraseDups, mem_map]
  simp [Report.gives_result, and_assoc]

theorem reporters_of_not_mem (h : d ∉ reported rs) : reporters rs d.result = [] := by
  rw [eq_nil_iff_forall_not_mem]
  intro l hl
  obtain ⟨r, hr, hd, -⟩ := mem_reporters.1 hl
  exact h (mem_reported.2 ⟨r, hr, hd⟩)

def rowsAfter (rs : List Report) : Rows := rowsFor (reported rs) fun d => reporters rs d.result

/-- Reports to a witness without results leave it with the rows of their results. -/
theorem addAll_run (hw : w.results = .inl []) (rs : List Report) :
    (addAll rs).run w = (.ok (), { w with results := .inl (tableOf (rowsAfter rs)) }) := by
  -- induction on the number of reports, the last one taken off
  induction rs using reverseRecOn with
  | nil =>
    change (Except.ok (), w) = (.ok (), { w with results := .inl [] })
    rw [← hw]
  | append_singleton rs r ih =>
    have hsplit : addAll (rs ++ [r]) = addAll rs >>= fun _ => add r.evaluation := by
      simp [addAll]
    rw [hsplit, run_bind, ih]
    dsimp only
    have hnodup : (reported rs).Nodup := nodup_eraseDups _
    rw [rowsAfter, add_run rfl hnodup (fun d => reporters_of_not_mem) r, rowsAfter, reported_concat,
      reporters_concat]

/-! ### What a table says -/

theorem one_lt_length {α : Type} {xs : List α} (h : xs.Nodup) :
    1 < xs.length ↔ ∃ x ∈ xs, ∃ y ∈ xs, x ≠ y := by
  constructor
  · intro hlen
    match xs, h with
    | x :: y :: _, h => exact ⟨x, by simp, y, by simp, fun hxy => by simp [hxy] at h⟩
  · rintro ⟨x, hx, y, hy, hne⟩
    match xs with
    | [z] => exact absurd ((mem_singleton.1 hx).trans (mem_singleton.1 hy).symm) hne
    | _ :: _ :: _ => simp

theorem isTrue_rowsAfter (hw : w.results = .inl (tableOf (rowsAfter rs))) :
    w.isTrue = .ok (decide (∃ r ∈ rs, ∃ s ∈ rs, r.data ≠ s.data)) := by
  have hlen : (tableOf (rowsAfter rs)).length > 1 ↔ ∃ r ∈ rs, ∃ s ∈ rs, r.data ≠ s.data := by
    have hnodup : (reported rs).Nodup := nodup_eraseDups _
    rw [tableOf, rowsAfter, rowsFor, length_map, length_map, gt_iff_lt, one_lt_length hnodup]
    constructor
    · rintro ⟨d, hd, e, he, hne⟩
      obtain ⟨r, hr, rfl⟩ := mem_reported.1 hd
      obtain ⟨s, hs, rfl⟩ := mem_reported.1 he
      exact ⟨r, hr, s, hs, hne⟩
    · rintro ⟨r, hr, s, hs, hne⟩
      exact ⟨r.data, mem_reported.2 ⟨r, hr, rfl⟩, s.data, mem_reported.2 ⟨s, hs, rfl⟩, hne⟩
  rw [isTrue, hw]
  simp only [hlen]

/-- Languages with their results, result by result. -/
def pairsOf (rs : List Report) : List (String × MatchData) :=
  (reported rs).flatMap fun d => (reporters rs d.result).map fun l => (l, d)

def entryOf (p : String × MatchData) : Atom × Held MatchResult := (.str p.1, .record p.2.result)

theorem mem_pairsOf {p : String × MatchData} :
    p ∈ pairsOf rs ↔ ∃ r ∈ rs, r.language = p.1 ∧ r.data = p.2 := by
  obtain ⟨l, d⟩ := p
  simp only [pairsOf, mem_flatMap, mem_map, Prod.mk.injEq]
  constructor
  · rintro ⟨e, -, k, hk, rfl, rfl⟩
    obtain ⟨r, hr, hd, hl⟩ := mem_reporters.1 hk
    exact ⟨r, hr, hl, hd⟩
  · rintro ⟨r, hr, rfl, rfl⟩
    exact ⟨r.data, mem_reported.2 ⟨r, hr, rfl⟩, r.language, mem_reporters.2 ⟨r, hr, rfl, rfl⟩,
      rfl, rfl⟩

/-- A language with one result only is paired with it only once. -/
theorem nodup_pairsOf (hone : OneEach rs) : ((pairsOf rs).map Prod.fst).Nodup := by
  have hfst : (pairsOf rs).map Prod.fst = (reported rs).flatMap fun d => reporters rs d.result := by
    simp [pairsOf, map_flatMap, Function.comp_def]
  rw [hfst, nodup_flatMap]
  refine ⟨fun d _ => nodup_eraseDups _, (nodup_eraseDups _).imp ?_⟩
  intro d e hne l hd he
  obtain ⟨r, hr, rfl, hl⟩ := mem_reporters.1 hd
  obtain ⟨s, hs, rfl, hl'⟩ := mem_reporters.1 he
  exact hne (same_eq_true.1 (hone r hr s hs (hl.trans hl'.symm)))

theorem setResult_new {ps : List (String × MatchData)} {l : String} (h : l ∉ ps.map Prod.fst)
    (d : MatchData) :
    setResult (.str l) (.record d.result) (ps.map entryOf) = (ps ++ [(l, d)]).map entryOf := by
  induction ps with
  | nil => rfl
  | cons p ps ih =>
    rw [map_cons, mem_cons, not_or] at h
    have hne : ¬(Atom.str p.1).samePart (.str l) = true := by
      rw [Atom.samePart_str]
      simpa using Ne.symm h.1
    rw [map_cons, setResult, entryOf, if_neg hne, ih h.2]
    rfl

theorem foldl_setResult (done ps : List (String × MatchData))
    (h : ((done ++ ps).map Prod.fst).Nodup) :
    (ps.map entryOf).foldl (fun es p => setResult p.1 p.2 es) (done.map entryOf) =
      (done ++ ps).map entryOf := by
  induction ps generalizing done with
  | nil => rw [append_nil, map_nil, foldl_nil]
  | cons p ps ih =>
    have hnew : p.1 ∉ done.map Prod.fst := by
      rw [map_append, nodup_append] at h
      intro hp
      exact h.2.2 _ hp _ (by simp) rfl
    rw [map_cons, foldl_cons, entryOf, setResult_new hnew, ih _ (by simpa using h),
      append_assoc, singleton_append]

theorem mapM_parts (keys : List MatchData) (f : MatchData → List String) :
    ((tableOf (rowsFor keys f)).mapM fun (result, languages) => do
      (← languages.parts).mapM fun l => do return (← l.toKey, result) : Outcome _) =
      .ok (keys.map fun d => (f d).map fun l => entryOf (l, d)) := by
  rw [mapM_eq_ok, tableOf, rowsFor, map_map, forall₂_map_left_iff,
    forall₂_map_right_iff, forall₂_same]
  intro d _
  change ((f d).map Value.str).mapM
    (fun l => do return (← l.toKey, Held.record d.result) : Value → Outcome _) = _
  rw [mapM_eq_ok, forall₂_map_left_iff, forall₂_map_right_iff, forall₂_same]
  intro l _
  rfl

theorem byLanguage_rowsAfter (hw : w.results = .inl (tableOf (rowsAfter rs))) (hone : OneEach rs) :
    w.byLanguage = .ok ((pairsOf rs).map entryOf) := by
  have htable : w.table = .ok (tableOf (rowsAfter rs)) := by rw [table, hw]
  have hflat : ((reported rs).map fun d =>
      (reporters rs d.result).map fun l => entryOf (l, d)).flatten = (pairsOf rs).map entryOf := by
    simp [pairsOf, flatMap_def, map_flatten, Function.comp_def]
  have hfold := foldl_setResult [] (pairsOf rs) (nodup_pairsOf hone)
  rw [byLanguage, htable, rowsAfter, Outcome.ok_bind, mapM_parts, Outcome.ok_bind, hflat]
  exact congrArg Except.ok hfold

end

/-! ### What reports come to -/

/-- The table has a row for each different result, with the languages that reported it. -/
structure Groups (t : ResultTable) (rs : List Report) : Prop where
  unequal : t.Pairwise fun e e' => ∃ key key',
    e.1 = .record key ∧ e'.1 = .record key' ∧ key.same key' = .ok false
  row : ∀ e ∈ t, ∃ r ∈ rs, e = (.record r.result, .strs (reporters rs r.result)) ∧
    (reporters rs r.result).Nodup ∧
    ∀ l, l ∈ reporters rs r.result ↔ ∃ s ∈ rs, s.language = l ∧ s.result.same r.result = .ok true
  covered : ∀ r ∈ rs, ∃ e ∈ t, ∃ key, e.1 = .record key ∧ r.result.same key = .ok true

/-- The witness says what was reported: in its table, in its verdict, and by language. -/
structure Summarises (w : Witness) (rs : List Report) : Prop where
  table : ∃ t, w.results = .inl t ∧ Groups t rs
  isTrue : ∃ b, w.isTrue = .ok b ∧
    (b = true ↔ ∃ r ∈ rs, ∃ s ∈ rs, r.result.same s.result = .ok false)
  byLanguage : OneEach rs → ∃ es, w.byLanguage = .ok es ∧ (es.map Prod.fst).Nodup ∧
    ∀ e, e ∈ es ↔ ∃ r ∈ rs, e = (.str r.language, .record r.result)

/-- Two witnesses to the same reports differ in the order of rows and of languages only. -/
structure SameUpToOrder (rs : List Report) (w x : Witness) : Prop where
  table : ∃ t u, w.results = .inl t ∧ x.results = .inl u ∧
    (t.map Prod.fst).Perm (u.map Prod.fst) ∧
    ∀ key v v', (key, v) ∈ t → (key, v') ∈ u →
      ∃ ls ms : List String, v = .strs ls ∧ v' = .strs ms ∧ ls.Perm ms
  isTrue : w.isTrue = x.isTrue
  byLanguage : OneEach rs → ∃ es fs, w.byLanguage = .ok es ∧ x.byLanguage = .ok fs ∧ es.Perm fs

section
variable {rs ss : List Report} {w x : Witness}

theorem mem_rowsAfter {e : Held MatchResult × Value} : e ∈ tableOf (rowsAfter rs) ↔
    ∃ d ∈ reported rs, (.record d.result, .strs (reporters rs d.result)) = e := by
  rw [tableOf, rowsAfter, rowsFor, map_map, mem_map]
  rfl

theorem groups_rowsAfter (rs : List Report) : Groups (tableOf (rowsAfter rs)) rs where
  unequal := by
    rw [tableOf, rowsAfter, rowsFor, map_map, pairwise_map]
    refine (nodup_eraseDups _).imp fun {d e} hne => ⟨d.result, e.result, rfl, rfl, ?_⟩
    rw [MatchData.same_result, decide_eq_false hne]
  row := by
    intro e he
    obtain ⟨d, hd, rfl⟩ := mem_rowsAfter.1 he
    obtain ⟨r, hr, rfl⟩ := mem_reported.1 hd
    refine ⟨r, hr, rfl, nodup_eraseDups _, fun l => ?_⟩
    change l ∈ reporters rs r.data.result ↔ _
    rw [mem_reporters]
    exact exists_congr fun s => and_congr_right fun _ => by rw [same_eq_true, and_comm]
  covered := by
    intro r hr
    have hrow := mem_rowsAfter.2 ⟨r.data, mem_reported.2 ⟨r, hr, rfl⟩, rfl⟩
    exact ⟨_, hrow, r.result, rfl, same_eq_true.2 rfl⟩

theorem summarises_rowsAfter (hw : w.results = .inl (tableOf (rowsAfter rs))) :
    w.Summarises rs where
  table := ⟨_, hw, groups_rowsAfter rs⟩
  isTrue := by
    refine ⟨_, isTrue_rowsAfter hw, ?_⟩
    simp only [decide_eq_true_iff, same_eq_false]
  byLanguage := by
    intro hone
    have hinj : ((pairsOf rs).map entryOf).map Prod.fst =
        ((pairsOf rs).map Prod.fst).map Atom.str := by
      simp [entryOf]
    refine ⟨_, byLanguage_rowsAfter hw hone, ?_, fun e => ?_⟩
    · rw [hinj]
      exact (nodup_pairsOf hone).map fun _ _ h => Atom.str.inj h
    · rw [mem_map]
      constructor
      · rintro ⟨p, hp, rfl⟩
        obtain ⟨r, hr, hl, hd⟩ := mem_pairsOf.1 hp
        exact ⟨r, hr, by rw [entryOf, ← hl, ← hd, Report.result]⟩
      · rintro ⟨r, hr, rfl⟩
        exact ⟨(r.language, r.data), mem_pairsOf.2 ⟨r, hr, rfl, rfl⟩, rfl⟩

theorem reported_perm (h : ss.Perm rs) : (reported ss).Perm (reported rs) :=
  eraseDups_perm (h.map _)

theorem reporters_perm (h : ss.Perm rs) (key : MatchResult) :
    (reporters ss key).Perm (reporters rs key) :=
  eraseDups_perm ((h.filter _).map _)

theorem pairsOf_perm (h : ss.Perm rs) (hone : OneEach rs) : (pairsOf ss).Perm (pairsOf rs) := by
  rw [perm_ext_iff_of_nodup (nodup_pairsOf (hone.perm h)).of_map (nodup_pairsOf hone).of_map]
  intro p
  simp only [mem_pairsOf, h.mem_iff]

theorem sameUpToOrder_rowsAfter (h : ss.Perm rs) (hw : w.results = .inl (tableOf (rowsAfter rs)))
    (hx : x.results = .inl (tableOf (rowsAfter ss))) : SameUpToOrder rs w x where
  table := by
    have hkeys (ts : List Report) : (tableOf (rowsAfter ts)).map Prod.fst =
        (reported ts).map fun d => Held.record d.result := by
      simp [tableOf, rowsAfter, rowsFor]
    refine ⟨_, _, hw, hx, ?_, fun key v v' hv hv' => ?_⟩
    · rw [hkeys, hkeys]
      exact (reported_perm h).symm.map _
    · obtain ⟨d, -, hd⟩ := mem_rowsAfter.1 hv
      obtain ⟨e, -, he⟩ := mem_rowsAfter.1 hv'
      obtain ⟨rfl, rfl⟩ := Prod.mk.inj hd
      obtain ⟨hkey, rfl⟩ := Prod.mk.inj he
      obtain rfl := MatchData.result_injective (Held.record.inj hkey)
      exact ⟨_, _, rfl, rfl, (reporters_perm h _).symm⟩
  isTrue := by
    rw [isTrue_rowsAfter hw, isTrue_rowsAfter hx]
    simp only [h.mem_iff]
  byLanguage := by
    intro hone
    exact ⟨_, _, byLanguage_rowsAfter hw hone, byLanguage_rowsAfter hx (hone.perm h),
      ((pairsOf_perm h hone).map _).symm⟩

/-- Reports to a witness without results are grouped by result, whatever their order. Results that
are equal are one key: a table does not tell them apart, and they have one hash. -/
theorem addAll_summarises (pattern input : Value) (rs : List Report) :
    (∃ w, (addAll rs).run (make pattern input (.inr .null)) = (Except.ok (), w) ∧ w.Summarises rs ∧
      ∀ ss, ss.Perm rs →
        ∃ x, (addAll ss).run (make pattern input (.inr .null)) = (Except.ok (), x) ∧
          x.Summarises ss ∧ SameUpToOrder rs w x) ∧
    (∀ r s : MatchResult, r.ListsGroups → s.ListsGroups →
      (ResultTable.sameKey (.record r) (.record s) = true ↔ r.same s = .ok true) ∧
      (r.same s = .ok true →
        ∀ onAtom onTuple, r.hash onAtom onTuple = s.hash onAtom onTuple)) ∧
    ∀ r ∈ rs, r.result.ListsGroups ∧
      ∀ onAtom onTuple, ∃ n, r.result.hash onAtom onTuple = .ok n := by
  have hrun (ts : List Report) := addAll_run (w := make pattern input (.inr .null)) rfl ts
  refine ⟨⟨_, hrun rs, summarises_rowsAfter rfl, fun ss hperm => ?_⟩, fun r s hr hs => ?_,
    fun r _ => ?_⟩
  · exact ⟨_, hrun ss, summarises_rowsAfter rfl, sameUpToOrder_rowsAfter hperm rfl rfl⟩
  · refine ⟨ResultTable.sameKey_iff_same hr, fun hsame _ _ => ?_⟩
    exact MatchResult.hash_eq_of_same hr hs hsame
  · exact ⟨r.data.listsGroups_result, fun _ _ => MatchResult.exists_hash r.data.hashable_result⟩

/-- Reports on a final newline, which is matched by some dialects only. -/
def newlineReports : List Report :=
  let report (language : String) (data : MatchData) : Report :=
    { pattern := .str "a$", input := .str "a\n", language, data }
  let found : MatchData := { matched := true, text := some "a", groups := [none] }
  let missed : MatchData := { matched := false, text := none, groups := [] }
  [report "perl" found, report "javascript" missed, report "perl" found, report "python" found]

/-- Two different results were reported, and each language has one of them. -/
theorem addAll_newlineReports :
    ∃ w es, (addAll newlineReports).run (make (.str "a$") (.str "a\n") (.inr .null)) =
        (Except.ok (), w) ∧
      w.isTrue = .ok true ∧ w.byLanguage = .ok es ∧ (es.map Prod.fst).Nodup ∧
      ∀ e, e ∈ es ↔ ∃ r ∈ newlineReports, e = (.str r.language, .record r.result) := by
  obtain ⟨⟨w, hrun, hw, -⟩, -⟩ := addAll_summarises (.str "a$") (.str "a\n") newlineReports
  obtain ⟨b, hb, hiff⟩ := hw.isTrue
  have hdiffer : ∃ r ∈ newlineReports, ∃ s ∈ newlineReports,
      r.result.same s.result = .ok false := by
    simp only [same_eq_false]
    decide
  have hone : OneEach newlineReports := by
    simp only [OneEach, same_eq_true]
    decide
  obtain ⟨es, hes, hnodup, hmem⟩ := hw.byLanguage hone
  rw [hiff.2 hdiffer] at hb
  exact ⟨w, es, hrun, hb, hes, hnodup, hmem⟩

end

end Witness
end RegexCorpus
