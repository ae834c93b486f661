import RegexCorpus.Proofs.Record.Edit
import RegexCorpus.Record.Witness

/-!
# Match results on lines

A match result with plain data is read back exactly from its line, so that different results have
different lines. Results of this kind can be told apart in a table.
-/

namespace RegexCorpus
open Value

/-- A text, or null when there is none. -/
def Atom.ofText? : Option String → Atom
  | some s => .str s
  | none => .null

/-- The data of a match result: whether there was a match, the matched text, and the groups. -/
structure MatchData where
  matched : Bool
  text : Option String
  groups : List (Option String)
  deriving DecidableEq

namespace MatchData

def contents (d : MatchData) : MatchContents :=
  { matchedString := .atom (.ofText? d.text)
    captureGroups := .list ((d.groups.map Atom.ofText?).map .atom) }

def result (d : MatchData) : MatchResult :=
  { matched := .bool d.matched, contents := .record d.contents }

/-! ### Lines -/

variable (d : MatchData)

theorem fitsRoom_ofText? (room : Nat) (t : Option String) : FitsRoom room (.atom (.ofText? t)) := by
  cases t with
  | none => exact .null
  | some s => exact .str s

theorem contents_line :
    ∃ line, ∀ n, 2 ≤ n → d.contents.toLine n = .ok line ∧
      (MatchContents.read (.str line) n).made {} = .ok d.contents := by
  have htext : d.contents.matchedString.FitsAt 1 2 := fitsRoom_ofText? 1 d.text
  have hgroups : d.contents.captureGroups.FitsAt 1 2 :=
    .list (by decide) (by simpa using fun t _ => fitsRoom_atom.mp (fitsRoom_ofText? 0 t))
  have hobject : (object [("matchedString", d.contents.matchedString),
      ("captureGroups", d.contents.captureGroups)]).FitsAt 0 2 :=
    .object (by decide) (by simp) (by simp [htext, hgroups])
  obtain ⟨line, ns, hline⟩ := Json.exists_line hobject
  obtain ⟨text, htext', hr⟩ := get_of_isLineOf hline (k := "matchedString") (.head _)
  obtain ⟨groups, hgroups', hr'⟩ := get_of_isLineOf hline (k := "captureGroups") (.tail _ (.head _))
  obtain rfl := eq_of_reordered_atom hr
  obtain rfl := eq_of_reordered_atoms hr'
  refine ⟨line, fun n hn => ⟨hline.toLine hn, Edit.made_eq_ok.mpr ?_⟩⟩
  rw [MatchContents.read, ofLine_str, run_lift_bind (hline.ofText hn), setFields_cons_run htext',
    setFields_cons_run hgroups']
  rfl

theorem result_line :
    ∃ line, ∀ n, 2 ≤ n → d.result.toLine n = .ok line ∧
      (MatchResult.read (.str line) n).made {} = .ok d.result := by
  obtain ⟨inner, hinner⟩ := d.contents_line
  have hobject : (object [("matched", .bool d.matched), ("matchContents", .str inner)]).FitsAt 0 2 :=
    .object (by decide) (by simp) (by simp)
  obtain ⟨line, ns, hline⟩ := Json.exists_line hobject
  obtain ⟨matched, hmatched, hr⟩ := get_of_isLineOf hline (k := "matched") (.head _)
  obtain ⟨contents, hcontents, hr'⟩ := get_of_isLineOf hline (k := "matchContents") (.tail _ (.head _))
  obtain rfl := eq_of_reordered_atom hr
  obtain rfl := eq_of_reordered_atom hr'
  refine ⟨line, fun n hn => ⟨?_, Edit.made_eq_ok.mpr ?_⟩⟩
  · rw [MatchResult.toLine, Outcome.bind_eq_ok]
    refine ⟨d.contents, rfl, ?_⟩
    rw [(hinner n hn).1]
    exact hline.toLine hn
  · rw [MatchResult.read, ofLine_str, run_lift_bind (hline.ofText hn),
      setFields_cons_bind _ hmatched, setFields_nil_bind, run_lift_bind hcontents,
      run_lift_bind (hinner n hn).2]
    rfl

/-- The line of the result. A result has a list inside an object, so it takes two levels. -/
def line (d : MatchData) : String := (d.result.toLine 2).toOption.getD ""

section
variable {n : ℕ} (hn : 2 ≤ n)
include hn

theorem line_eq : d.result.toLine n = .ok d.line ∧
    (MatchResult.read (.str d.line) n).made {} = .ok d.result := by
  obtain ⟨line, hline⟩ := d.result_line
  obtain rfl : line = d.line := by rw [MatchData.line, (hline 2 le_rfl).1]; rfl
  exact hline n hn

theorem toLine_result : d.result.toLine n = .ok d.line := (d.line_eq hn).1

theorem read_line : (MatchResult.read (.str d.line) n).made {} = .ok d.result :=
  (d.line_eq hn).2

end

/-! ### Telling results apart -/

theorem ofText?_injective : Function.Injective Atom.ofText? := by
  intro s t h
  cases s <;> cases t <;> simp_all [Atom.ofText?]

theorem result_injective : Function.Injective result := by
  rintro ⟨m, t, gs⟩ ⟨m', t', gs'⟩ h
  simp only [result, contents, MatchResult.mk.injEq, atom.injEq, Atom.bool.injEq,
    Held.record.injEq, MatchContents.mk.injEq, list.injEq] at h
  obtain ⟨rfl, ht, hgs⟩ := h
  have hatom : Function.Injective atom := fun _ _ h => atom.inj h
  rw [ofText?_injective ht, ofText?_injective.list_map (hatom.list_map hgs)]

theorem line_injective : Function.Injective line := by
  intro d e h
  have hd := d.read_line le_rfl
  rw [h, e.read_line le_rfl] at hd
  exact result_injective (Except.ok.inj hd).symm

theorem hashable_result : d.result.hashable = .ok () := by
  have hkeys (as : List Atom) : (as.map atom).mapM toKey = .ok as := by
    rw [mapM_eq_ok, List.forall₂_map_left_iff, List.forall₂_same]
    exact fun _ _ => rfl
  have hgroups : d.contents.captureGroups.parts =
      .ok ((d.groups.map Atom.ofText?).map .atom) := rfl
  have hcontents : d.contents.hashable = .ok () := by
    rw [MatchContents.hashable, hgroups]
    change (do let _ ← ((d.groups.map Atom.ofText?).map atom).mapM toKey) = _
    rw [hkeys]
    rfl
  exact hcontents

theorem same_ofText? (s t : Option String) :
    (Atom.ofText? s).samePart (.ofText? t) = decide (s = t) := by
  cases s <;> cases t <;>
    simp [Atom.ofText?, Atom.samePart, Atom.same, Atom.toNumber?, beq_eq_decide]

theorem sameItems_ofText? (gs hs : List (Option String)) :
    sameItems ((gs.map Atom.ofText?).map .atom) ((hs.map Atom.ofText?).map .atom) =
      decide (gs = hs) := by
  induction gs generalizing hs with
  | nil => cases hs <;> simp [sameItems]
  | cons g gs ih =>
    cases hs with
    | nil => simp [sameItems]
    | cons h hs =>
      simp only [List.map_cons, sameItems, samePart, same_ofText?, ih,
        List.cons.injEq, Bool.decide_and]

theorem same_matched (m m' : Bool) : (bool m).same (.bool m') = decide (m = m') := by
  cases m <;> cases m' <;> rfl

theorem same_contents (d e : MatchData) :
    d.contents.same e.contents = decide (d.text = e.text ∧ d.groups = e.groups) := by
  have htext : (atom (.ofText? d.text)).same (.atom (.ofText? e.text)) =
      decide (d.text = e.text) := by
    rw [← same_ofText?]
    cases d.text <;> cases e.text <;> rfl
  have hgroups : (list ((d.groups.map Atom.ofText?).map .atom)).same
      (.list ((e.groups.map Atom.ofText?).map .atom)) = decide (d.groups = e.groups) := by
    rw [← sameItems_ofText?, same, samePart]
    simp
  rw [MatchContents.same, contents, contents, htext, hgroups, Bool.decide_and]

theorem eq_iff {d e : MatchData} :
    d = e ↔ d.matched = e.matched ∧ d.text = e.text ∧ d.groups = e.groups := by
  cases d
  cases e
  simp only [mk.injEq]

/-- Results are equal only when their data is the same. -/
theorem same_result (d e : MatchData) : d.result.same e.result = .ok (decide (d = e)) := by
  rw [MatchResult.same, result, result, same_matched]
  by_cases hm : d.matched = e.matched
  · rw [if_pos (decide_eq_true hm), MatchResult.sameContents, same_contents]
    simp [eq_iff, hm]
  · rw [if_neg (by simpa using hm)]
    simp [eq_iff, hm]

theorem sameKey_result (d e : MatchData) :
    ResultTable.sameKey (.record d.result) (.record e.result) = decide (d = e) := by
  have horder : MatchContents.sameOrder d.contents.captureGroups e.contents.captureGroups = true :=
    rfl
  rw [ResultTable.sameKey, MatchResult.alike, result, result, same_matched]
  simp only [MatchContents.alike, same_contents, horder, Bool.and_true, eq_iff, Bool.decide_and]

end MatchData
end RegexCorpus
