import RegexCorpus.Proofs.Key
import RegexCorpus.Proofs.Record.Edit
import RegexCorpus.Proofs.Text.Digit
import RegexCorpus.SuperLinear.Analysis

/-!
# Tables of pump counts on lines

A pump count is a number in the table of a language and a text on a line. Read back, the counts of a
table are turned into numbers again one after the other, in the table that is being walked through.
All of them are restored, and then the change is noticed: the table of the first language that has
any counts is the last one to be restored.
-/

namespace RegexCorpus
open List Entries Text Atom

variable {before : Members}

theorem Entries.find?_eq_none {es : Entries} {k : Atom} :
    find? es k = none ↔ ∀ e ∈ es, e.1.samePart k = false := by
  simp [find?]

theorem Entries.set_of_find?_eq_none {es : Entries} {k : Atom} (v : Value)
    (h : find? es k = none) : set k v es = es ++ [(k, v)] := by
  induction es with
  | nil => rfl
  | cons e es ih =>
    rw [find?_cons] at h
    split_ifs at h with he
    rw [set, if_neg he, ih h, cons_append]

theorem Entries.set_entriesOf_append {k : String} (h : k ∉ before.map Prod.fst) (v w : Value)
    (after : Members) :
    set (.str k) v (entriesOf (before ++ (k, w) :: after)) =
      entriesOf (before ++ (k, v) :: after) := by
  induction before with
  | nil =>
    rw [nil_append, nil_append, entriesOf_cons, set_cons_str, if_pos rfl, entriesOf_cons]
  | cons m before ih =>
    rw [map_cons, mem_cons, not_or] at h
    rw [cons_append, entriesOf_cons, set_cons_str, if_neg (by simpa using Ne.symm h.1), ih h.2,
      cons_append, entriesOf_cons]

namespace Json

theorem writeEntries_congr {es fs : Entries}
    (h : List.Forall₂ (fun e f => writeKey e.1 = writeKey f.1 ∧ write e.2 = write f.2) es fs) :
    writeEntries es = writeEntries fs := by
  induction h with
  | nil => rfl
  | @cons e f es fs hhead htail ih =>
    cases htail with
    | nil => rw [writeEntries, writeEntries, hhead.1, hhead.2]
    | cons _ _ => rw [writeEntries, writeEntries, hhead.1, hhead.2, ih]

theorem write_dict_congr {es fs : Entries}
    (h : List.Forall₂ (fun e f => writeKey e.1 = writeKey f.1 ∧ write e.2 = write f.2) es fs) :
    write (.dict es) = write (.dict fs) := by
  rw [write, write, writeEntries_congr h]

theorem writeKey_int (n : Int) : writeKey (.int n) = writeKey (.str (ofInt n)) := by
  rw [writeKey, writeKey, writeAtom, String.ofList_toList]
  intro s h
  cases h

end Json

namespace SuperLinear

/-- The table of a language: pump counts, each with whether a match timed out. -/
structure Timeouts where
  counts : List (Int × Bool)
  nodup : (counts.map Prod.fst).Nodup
  short : ∀ c ∈ counts, (Atom.int c.1).Short

namespace Timeouts

variable {cs done : List (Int × Bool)} (t : Timeouts)

def numbered (cs : List (Int × Bool)) : Entries := cs.map fun c => (.int c.1, .bool c.2)

/-- Counts as they stand on a line. -/
def texts (cs : List (Int × Bool)) : Members :=
  cs.map fun c => (Text.ofInt c.1, .bool c.2)

def toValue (t : Timeouts) : Value := .dict (numbered t.counts)

def onLine (t : Timeouts) : Value := .object (texts t.counts)

theorem samePart_int {m n : Int} : (int m).samePart (.int n) = decide (m = n) := by
  rw [Bool.eq_iff_iff, samePart_iff]
  simp [identity]

theorem samePart_str_int (s : String) (n : Int) : (str s).samePart (.int n) = false := by
  rw [Bool.eq_false_iff, Ne, samePart_iff]
  simp [identity]

theorem readInt?_of_short {n : Int} (h : (int n).Short) :
    readInt? (ofInt n) = some n := by
  have hlimit : Json.digitLimit = maxDigits := rfl
  rw [Value.short_int, hlimit] at h
  exact readInt?_ofInt h

theorem ofInt_injective {m n : Int} (hm : (int m).Short) (hn : (int n).Short)
    (h : ofInt m = ofInt n) : m = n := by
  have hread := congrArg readInt? h
  rwa [readInt?_of_short hm, readInt?_of_short hn, Option.some.injEq] at hread

/-- The first count still to be restored goes to the end of the table. -/
theorem restoreKeys_step {c : Int × Bool} (hc : (int c.1).Short) (hcs : ∀ d ∈ cs, (int d.1).Short)
    (hnew : c.1 ∉ cs.map Prod.fst) (hdone : c.1 ∉ done.map Prod.fst) (keys : List Atom) :
    Analysis.restoreKeys (.str (ofInt c.1) :: keys)
        (entriesOf (texts (c :: cs)) ++ numbered done) =
      Analysis.restoreKeys keys (entriesOf (texts cs) ++ numbered (done ++ [c])) := by
  have hfind : Entries.find? (entriesOf (texts (c :: cs)) ++ numbered done)
      (.str (ofInt c.1)) = some (.bool c.2) := by
    rw [texts, map_cons, entriesOf_cons, cons_append, find?_cons_str, if_pos rfl]
  have hnone : Entries.find? (entriesOf (texts (c :: cs)) ++ numbered done) (.int c.1) = none := by
    rw [Entries.find?_eq_none]
    intro e he
    simp only [texts, numbered, map_map, mem_append, mem_map] at he
    obtain ⟨d, -, rfl⟩ | ⟨d, hd, rfl⟩ := he
    · exact samePart_str_int _ _
    · rw [samePart_int, decide_eq_false_iff_not]
      rintro heq
      exact hdone (heq ▸ mem_map_of_mem hd)
  have herase : Entries.erase (.str (ofInt c.1))
      (entriesOf (texts (c :: cs)) ++ numbered done ++ [(.int c.1, .bool c.2)]) =
        entriesOf (texts cs) ++ numbered (done ++ [c]) := by
    have hkeep : ∀ e ∈ entriesOf (texts cs) ++ numbered (done ++ [c]),
        (!e.1.samePart (.str (ofInt c.1))) = true := by
      intro e he
      rw [samePart_str]
      simp only [texts, numbered, map_map, mem_append, mem_map] at he
      obtain ⟨d, hd, rfl⟩ | ⟨d, -, rfl⟩ := he
      · have hne : ofInt d.1 ≠ ofInt c.1 := fun heq =>
          hnew (ofInt_injective (hcs d hd) hc heq ▸ mem_map_of_mem hd)
        simpa using hne
      · simp
    have hsame : (str (ofInt c.1)).samePart (.str (ofInt c.1)) = true :=
      samePart_refl _
    have hlist : entriesOf (texts (c :: cs)) ++ numbered done ++ [(.int c.1, .bool c.2)] =
        (.str (ofInt c.1), .bool c.2) :: (entriesOf (texts cs) ++ numbered (done ++ [c])) := by
      simp [texts, numbered]
    rw [hlist, Entries.erase, filter_cons_of_neg (by simp [hsame]), filter_eq_self.mpr hkeep]
  rw [Analysis.restoreKeys, readInt?_of_short hc]
  simp only [hfind, Option.getD_some, has_eq_isSome, hnone, Option.isSome_none,
    Bool.false_eq_true, if_false, set_of_find?_eq_none _ hnone, herase]

theorem restoreKeys_run (hcs : ∀ c ∈ cs, (int c.1).Short)
    (hnodup : ((done ++ cs).map Prod.fst).Nodup) :
    Analysis.restoreKeys ((entriesOf (texts cs)).map Prod.fst)
        (entriesOf (texts cs) ++ numbered done) =
      (.error .changedWhileRead, numbered (done ++ cs)) := by
  induction cs generalizing done with
  | nil => simp [texts, Analysis.restoreKeys]
  | cons c cs ih =>
    rw [forall_mem_cons] at hcs
    have hsplit := hnodup
    rw [map_append, nodup_append, map_cons, nodup_cons] at hsplit
    obtain ⟨-, ⟨hnew, -⟩, hapart⟩ := hsplit
    have hdone : c.1 ∉ done.map Prod.fst := fun hd => hapart _ hd _ mem_cons_self rfl
    have hstep := restoreKeys_step hcs.1 hcs.2 hnew hdone ((entriesOf (texts cs)).map Prod.fst)
    rw [append_cons] at hnodup
    have hrun := ih hcs.2 hnodup
    rw [← append_cons] at hrun
    exact hstep.trans hrun

theorem restoreTable_onLine :
    Analysis.restoreTable t.onLine =
      (if t.counts.isEmpty then .ok () else .error .changedWhileRead, t.toValue) := by
  have hrun := @restoreKeys_run t.counts [] t.short t.nodup
  obtain ⟨counts, hnodup, hshort⟩ := t
  cases counts with
  | nil => rfl
  | cons c cs =>
    change (Prod.map id Value.dict (Analysis.restoreKeys ((entriesOf (texts (c :: cs))).map Prod.fst)
      (entriesOf (texts (c :: cs))))) = _
    rw [nil_append, numbered, map_nil, append_nil] at hrun
    rw [hrun]
    rfl

theorem write_toValue : Json.write t.toValue = Json.write t.onLine := by
  refine Json.write_dict_congr ?_
  rw [numbered, texts, map_map, forall₂_map_left_iff, forall₂_map_right_iff, forall₂_same]
  exact fun c _ => ⟨Json.writeKey_int c.1, rfl⟩

theorem nodup_texts : ((texts t.counts).map Prod.fst).Nodup := by
  have hkeys : (texts t.counts).map Prod.fst = (t.counts.map Prod.fst).map ofInt := by
    simp [texts]
  rw [hkeys]
  refine t.nodup.map_on fun m hm n hn h => ?_
  obtain ⟨c, hc, rfl⟩ := mem_map.mp hm
  obtain ⟨d, hd, rfl⟩ := mem_map.mp hn
  exact ofInt_injective (t.short c hc) (t.short d hd) h

theorem fitsAt_onLine {level : Nat} (h : level < Json.nestingLimit) : t.onLine.FitsAt level := by
  refine .object h t.nodup_texts fun m hm => ?_
  obtain ⟨c, -, rfl⟩ := mem_map.mp hm
  exact .bool c.2

end Timeouts

namespace Analysis

def tables (ts : List (String × Timeouts)) : Members :=
  ts.map fun t => (t.1, t.2.toValue)

def lineTables (ts : List (String × Timeouts)) : Members :=
  ts.map fun t => (t.1, t.2.onLine)

/-- The tables of some languages after they were read: those up to the first one with any counts are
restored. -/
def restored : List (String × Timeouts) → Members
  | [] => []
  | t :: ts => (t.1, t.2.toValue) :: if t.2.counts.isEmpty then restored ts else lineTables ts

/-- How the reading of tables ends. -/
def restoreOutcome (ts : List (String × Timeouts)) : Outcome Unit :=
  if ts.all (·.2.counts.isEmpty) then .ok () else .error .changedWhileRead

theorem restoreTables_cons {a : Analysis} {language table restored tables : Value}
    {r : Outcome Unit} (hitem : a.timedOutBy.item language = .ok table)
    (hrestore : restoreTable table = (r, restored))
    (hput : a.timedOutBy.put language restored = .ok tables) (rest : List Value) :
    (restoreTables (language :: rest)).run a =
      (do
        (r : Outcome Unit)
        restoreTables rest : Edit Analysis Unit).run { a with timedOutBy := tables } := by
  rw [restoreTables]
  change (do
    let table ← (a.timedOutBy.item language : Outcome Value)
    let p := restoreTable table
    let tables ← ((← get).timedOutBy.put language p.2 : Outcome Value)
    modify ({ · with timedOutBy := tables })
    (p.1 : Outcome Unit)
    restoreTables rest : Edit Analysis Unit).run a = _
  rw [run_lift_bind hitem, hrestore]
  change (do
    let tables ← (a.timedOutBy.put language restored : Outcome Value)
    modify ({ · with timedOutBy := tables })
    (r : Outcome Unit)
    restoreTables rest : Edit Analysis Unit).run a = _
  rw [run_lift_bind hput, run_modify_bind]

/-- The languages are gone through until the table of one of them has changed. -/
theorem restoreTables_run {ts : List (String × Timeouts)}
    (hkeys : ((before ++ lineTables ts).map Prod.fst).Nodup) {a : Analysis}
    (ha : a.timedOutBy = .object (before ++ lineTables ts)) :
    (restoreTables (ts.map fun t => .str t.1)).run a =
      (restoreOutcome ts, { a with timedOutBy := .object (before ++ restored ts) }) := by
  induction ts generalizing before a with
  | nil =>
    obtain ⟨regex, timeout, powerPumps, opinions, validIn, timedOutBy⟩ := a
    subst ha
    rfl
  | cons t ts ih =>
    have hitem : a.timedOutBy.item (.str t.1) = .ok t.2.onLine := by
      have hfind := Value.find?_entriesOf hkeys (k := t.1) (v := t.2.onLine) (by simp [lineTables])
      rw [ha, Value.object, Value.item_dict, hfind]
    have hnew : t.1 ∉ before.map Prod.fst := by
      rw [map_append, nodup_append] at hkeys
      exact fun hmem => hkeys.2.2 _ hmem _ (by simp [lineTables]) rfl
    have hput : a.timedOutBy.put (.str t.1) t.2.toValue =
        .ok (.object (before ++ (t.1, t.2.toValue) :: lineTables ts)) := by
      rw [ha]
      exact congrArg (fun es => Except.ok (Value.dict es)) (set_entriesOf_append hnew _ _ _)
    rw [map_cons, restoreTables_cons hitem (t.2.restoreTable_onLine) hput, restoreOutcome,
      restored, all_cons]
    cases t.2.counts.isEmpty with
    | false => rfl
    | true =>
      have hkeys' : ((before ++ [(t.1, t.2.toValue)] ++ lineTables ts).map Prod.fst).Nodup := by
        simpa [lineTables] using hkeys
      have hnext := ih hkeys'
        (a := { a with timedOutBy := .object (before ++ (t.1, t.2.toValue) :: lineTables ts) })
        (by simp)
      rw [if_pos rfl, run_lift_bind rfl, hnext, append_assoc]
      rfl

end Analysis
end SuperLinear
end RegexCorpus
