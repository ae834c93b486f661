import RegexCorpus.Proofs.Measure.Finish
import RegexCorpus.Proofs.Record.Drift
import RegexCorpus.Proofs.Record.Failure

/-!
# Files without static counts

Patterns without static counts may be loaded so that the total counts stand for them. They are then
like the patterns of a file that has both kinds of counts, until uses are counted.
-/

namespace RegexCorpus.Measure
open Value Entries List Json

open Regex (Unshared Request serveAll callsAt Drifted)

/-! ### Reading a line without static counts -/

def staticKey : String := "useCount_registry_to_nModules_static"

/-- The objects agree under every key but that of the static counts. -/
def AgreeElsewhere (es es' : Entries) : Prop :=
  ∀ key, key ≠ staticKey → Entries.find? es (.str key) = Entries.find? es' (.str key)

variable {es es' : Entries}

section
variable {key : String}
  (h : find? es (.str key) = find? es' (.str key))
include h

theorem get_dict_congr : (Value.dict es).get key = (Value.dict es').get key := by
  rw [Value.get, item_dict, h, Value.get, item_dict]

theorem has_dict_congr : (dict es).has (.str key) = (dict es').has (.str key) := by
  change Except.ok (has es (.str key)) = Except.ok (has es' (.str key))
  rw [has_eq_isSome, h, has_eq_isSome]

theorem getOr_dict_congr (default : Value) :
    (dict es).getOr key default = (dict es').getOr key default := by
  rw [getOr, has_dict_congr h, get_dict_congr h, getOr]

end

/-- An object with other static counts gives the same pattern, but for these counts. -/
theorem readObject_static (h : AgreeElsewhere es es') {v : Value}
    (hv : (dict es').getOr staticKey (.dict []) = .ok v) {s r : Regex}
    (hrun : (Regex.readObject (.dict es)).run s = (.ok (), r)) :
    (Regex.readObject (.dict es')).run s = (.ok (), { r with static := some v }) := by
  have hneeded {key : String} (hkey : key ≠ staticKey) := get_dict_congr (h key hkey)
  have hoptional {key : String} (hkey : key ≠ staticKey) (default : Value) :=
    getOr_dict_congr (h key hkey) default
  have hwitnesses (room : ℕ) :
      Regex.witnessesOf (.dict es') room = Regex.witnessesOf (.dict es) room := by
    rw [Regex.witnessesOf, Regex.witnessesOf, hneeded (by decide), has_dict_congr (h _ (by decide))]
  obtain ⟨pattern, total, posts, static, dynamic, langs, inputs, ws, hpattern, htotal, hposts, -,
    hdynamic, hlangs, hinputs, hws, rfl⟩ := Regex.readObject_eq_ok.mp hrun
  rw [hneeded (by decide)] at hpattern htotal hposts
  rw [hoptional (by decide)] at hdynamic hlangs hinputs
  exact Regex.readObject_eq_ok.mpr ⟨pattern, total, posts, v, dynamic, langs, inputs, ws, hpattern,
    htotal, hposts, hv, hdynamic, hlangs, hinputs, (hwitnesses _).trans hws, rfl⟩

/-- The second object has the total counts of the first as static counts, of which the first has
none; in all else the two agree. -/
structure Completes (es es' : Entries) : Prop where
  none_yet : ∀ v, Entries.find? es (.str staticKey) = some v → v = .dict []
  filled : ∃ v, Entries.find? es (.str "useCount_registry_to_nModules") = some v ∧
    Entries.find? es' (.str staticKey) = some v
  elsewhere : AgreeElsewhere es es'

/-- From neither of the lines a pattern can be read, or the object on the second completes that on
the first. -/
inductive Completed (l l' : String) : Prop
  | idle (h : IsIdle Json.nestingLimit l) (h' : IsIdle Json.nestingLimit l')
  | object {es es' : Entries} (h : Json.ofText l = .ok (.dict es))
      (h' : Json.ofText l' = .ok (.dict es')) (hes : Completes es es')

theorem getOr_of_find? {key : String} {v : Value} (h : find? es (.str key) = some v)
    (default : Value) : (dict es).getOr key default = .ok v :=
  getOr_of_get (get_eq_ok.mpr ⟨es, rfl, h⟩) default

theorem Completes.getOr_static (h : Completes es es') :
    (dict es).getOr staticKey (.dict []) = .ok (.dict []) := by
  cases hfound : find? es (.str staticKey) with
  | some v =>
    rw [getOr_of_find? hfound, h.none_yet v hfound]
  | none =>
    have hhas : (dict es).has (.str staticKey) = .ok false := by
      change Except.ok (has es (.str staticKey)) = _
      rw [has_eq_isSome, hfound]
      rfl
    rw [getOr, hhas]
    rfl

def hasText (r : Regex) : Bool :=
  match r.pattern with
  | some (.str p) => !p.isEmpty
  | _ => false

section
variable {l : String} {obj : Value} (hobj : ofText l = .ok obj) {r : Regex}
include hobj

theorem read_of_ofText :
    (Regex.read (.str (Text.trim l))).run {} =
      (Regex.readObject obj).run { initialized := .bool true } := by
  rw [read_trim, Regex.read, run_modify_bind, ofLine_str, run_lift_bind hobj]

theorem regexOf?_of_ok {s : Regex} (share : Bool)
    (h : (Regex.readObject obj).run { initialized := .bool true } = (.ok (), r))
    (hs : if share then Regex.shareStatic.run r = (.ok (), s) else r = s) :
    regexOf? share (Text.trim l) = if hasText r then some s else none := by
  rw [regexOf?, read_of_ofText hobj, h, hasText]
  dsimp only
  cases r.pattern with
  | none => rfl
  | some v =>
    cases v with
    | atom a =>
      cases a with
      | str p =>
        dsimp only
        by_cases hempty : p.isEmpty = true
        · rw [if_pos hempty]
          exact (if_neg (by simpa using hempty)).symm
        · rw [if_neg hempty]
          refine Eq.trans ?_ (if_pos (by simpa using hempty)).symm
          cases share with
          | true =>
            rw [if_pos rfl] at hs
            rw [hs]
            rfl
          | false =>
            rw [if_neg Bool.false_ne_true] at hs
            rw [hs]
            rfl
      | _ => rfl
    | _ => rfl

omit hobj in
theorem shareStatic_run (hstatic : r.static = some (.dict [])) (hshared : r.shared = false) :
    Regex.shareStatic.run r = (.ok (), { r with shared := true }) := by
  have hcounts : r.staticCounts = some (.dict []) := by
    rw [Regex.staticCounts, hshared]
    exact hstatic
  simp only [Regex.shareStatic, bind_assoc]
  rw [run_get_state_bind, run_lift_bind (field_eq_ok.mpr hcounts)]
  rfl

theorem regexOf?_of_error {e : Fault}
    (h : (Regex.readObject obj).run { initialized := .bool true } = (.error e, r))
    (share : Bool) : regexOf? share (Text.trim l) = none := by
  rw [regexOf?, read_of_ofText hobj, h]

end

/-- From two such lines two patterns are read that are alike, or none. -/
theorem regexOf?_completed {l l' : String} (h : Completed l l') :
    Option.Rel Unshared (regexOf? true (Text.trim l)) (regexOf? false (Text.trim l')) := by
  cases h with
  | idle h h' =>
    rw [regexOf?_of_isIdle h, regexOf?_of_isIdle h']
    exact .none
  | @object es es' h h' hes =>
    obtain ⟨v, htotal, hv⟩ := hes.filled
    have hstatic := getOr_of_find? hv (.dict [])
    have hback : AgreeElsewhere es' es := fun key hkey => (hes.elsewhere key hkey).symm
    rcases hrun : (Regex.readObject (.dict es)).run { initialized := .bool true } with ⟨_ | _, r⟩
    · -- the object without static counts cannot be read, so neither can the other
      rcases hrun' : (Regex.readObject (.dict es')).run { initialized := .bool true } with
        ⟨_ | _, r'⟩
      · rw [regexOf?_of_error h hrun, regexOf?_of_error h' hrun']
        exact .none
      · cases hrun.symm.trans (readObject_static hback hes.getOr_static hrun')
    · have hrun' := readObject_static hes.elsewhere hstatic hrun
      have hshared := Regex.readObject_shared hrun
      have hcounts : r.static = some (.dict []) ∧ r.total = some v := by
        obtain ⟨_, _, _, _, _, _, _, _, -, hget, -, hown, -, -, -, -, rfl⟩ :=
          Regex.readObject_eq_ok.mp hrun
        cases hes.getOr_static.symm.trans hown
        cases hget.symm.trans (get_eq_ok.mpr ⟨es, rfl, htotal⟩)
        exact ⟨rfl, rfl⟩
      have htext : hasText { r with static := some v } = hasText r := rfl
      rw [regexOf?_of_ok h true hrun (shareStatic_run hcounts.1 hshared),
        regexOf?_of_ok h' false hrun' rfl, htext]
      cases hasText r with
      | false => exact .none
      | true =>
        refine .some ⟨rfl, ?_⟩
        simp only [hcounts.2, hshared]

theorem regexesOf_completed {lines lines' : List String} (h : List.Forall₂ Completed lines lines') :
    List.Forall₂ Unshared (regexesOf true lines) (regexesOf false lines') := by
  rw [regexesOf_eq, regexesOf_eq]
  exact rel_filterMap (fun _ _ hl => regexOf?_completed hl) h

/-- A file without static counts, loaded so that the total counts stand for them, gives the same
counts as the file that has them. But from then on there is one table where the other file gives
two. After calls of any kind on any of the patterns, the static counts of a pattern agree with those
from the other file only if no call was made on it, and its total counts only if no static use was
among the calls. -/
theorem load_shared_drifts {h h' : Host} {path path' : String} {c c' : Content}
    {lines lines' : List String} (hpath : h.Holds path c) (hlines : c.lines = (lines, none))
    (hpath' : h'.Holds path' c') (hlines' : c'.lines = (lines', none))
    (hcompleted : List.Forall₂ Completed lines lines') (requests : List Request) :
    ∃ rs rs', (load path true).run h = (Except.ok rs, h) ∧
      (load path' false).run h' = (Except.ok rs', h') ∧
      List.Forall₂ Regex.SameCounts rs rs' ∧
      ∀ i r t d, rs[i]? = some r → r.total = some (.dict t) → r.dynamic = some (.dict d) →
        ∃ q q', (serveAll requests rs)[i]? = some q ∧ (serveAll requests rs')[i]? = some q' ∧
          Drifted (callsAt rs.length i requests) t q q' := by
  have hrs := regexesOf_completed hcompleted
  refine ⟨_, _, run_bind_eq_ok.mpr ⟨lines, h, hpath.readLines hlines, rfl⟩,
    run_bind_eq_ok.mpr ⟨lines', h', hpath'.readLines hlines', rfl⟩, ?_, ?_⟩
  · refine hrs.imp fun r r' hr => ?_
    obtain ⟨hshared, rfl⟩ := hr
    refine ⟨rfl, ?_, rfl⟩
    rw [Regex.staticCounts, Regex.staticCounts, hshared]
    rfl
  · intro i r t d hi ht hd
    obtain ⟨r', hi', hr⟩ := exists_getElem?_right hrs hi
    refine ⟨_, _, ?_, ?_, Regex.drifted_countCalls hr ht hd _⟩
    · rw [Regex.getElem?_serveAll, hi, Option.map_some]
    · rw [Regex.getElem?_serveAll, hi', Option.map_some, hrs.length_eq]

/-! ### A pattern used once -/

/-- The object of a pattern that is used in one module, with static counts or without. -/
def usedOnce (withStatic : Bool) : Members :=
  [("pattern", .str "a"), ("useCount_registry_to_nModules", .object [("npm", .int 1)]),
    ("useCount_IStype_to_nPosts", .object [])] ++
    if withStatic then [(staticKey, .object [("npm", .int 1)])] else []

def lineOnce (withStatic : Bool) : String := Json.render (.object (usedOnce withStatic))

theorem isOneLine_lineOnce (withStatic : Bool) : Text.IsOneLine (lineOnce withStatic) := by
  apply isOneLine_of_isPlain
  rw [lineOnce, render, String.toList_ofList]
  exact isPlain_writeValue _

theorem ofText_lineOnce (withStatic : Bool) :
    ofText (lineOnce withStatic ++ "\n") = .ok (.object (usedOnce withStatic)) := by
  have hjson : Value.IsJson (.object (usedOnce withStatic)) := by
    cases withStatic <;> simp [usedOnce, staticKey]
  have hlimit : Value.Within nestingLimit (.object (usedOnce withStatic)) := by
    cases withStatic <;> simp [usedOnce, staticKey, nestingLimit, short_digit]
  have htext := ofText_render hjson hlimit "" "\n" (by simp) (by simp; decide)
  rwa [String.empty_append] at htext

theorem completed_lineOnce : Completed (lineOnce false ++ "\n") (lineOnce true ++ "\n") := by
  refine .object (ofText_lineOnce false) (ofText_lineOnce true)
    ⟨?_, ⟨.object [("npm", .int 1)], rfl, rfl⟩, fun key hkey => ?_⟩
  · rintro v ⟨⟩
  · change findMember (usedOnce false) key = findMember (usedOnce true) key
    rw [findMember_eq, findMember_eq, usedOnce, usedOnce, find?_append, find?_append]
    simp [Ne.symm hkey]

/-- A static use in the same registry, counted of the last pattern of a list. -/
def staticUse : Request := ⟨⟨"npm", .str "static"⟩, -1⟩

/-- The pattern that is used in one module, as it is loaded. -/
def loadedOnce (shared : Bool) : Regex :=
  { Regex.bare (.str "a") with
    total := some (.object [("npm", .int 1)])
    static := some (if shared then .object [] else .object [("npm", .int 1)])
    shared
    inputsTested := .list [] }

theorem load_lineOnce (share : Bool) :
    (load "corpus" share).run (hostOf [lineOnce !share]) =
      (Except.ok [loadedOnce share], hostOf [lineOnce !share]) := by
  have hone : ∀ l ∈ [lineOnce !share], Text.IsOneLine l := by simp [isOneLine_lineOnce]
  have hregex :
      regexOf? share (Text.trim (lineOnce (!share) ++ "\n")) = some (loadedOnce share) := by
    cases share with
    | true => exact regexOf?_of_ok (ofText_lineOnce false) true rfl rfl
    | false => exact regexOf?_of_ok (ofText_lineOnce true) false rfl rfl
  rw [load_interspersed hone (.refl _) (holds_hostOf _), regexesOf_eq]
  simp [hregex]

theorem load_shared_drifts_once :
    ∃ q q', (serveAll [staticUse] [loadedOnce true])[0]? = some q ∧
      (serveAll [staticUse] [loadedOnce false])[0]? = some q' ∧
      (load "corpus" true).run (hostOf [lineOnce false]) =
        (Except.ok [loadedOnce true], hostOf [lineOnce false]) ∧
      (load "corpus" false).run (hostOf [lineOnce true]) =
        (Except.ok [loadedOnce false], hostOf [lineOnce true]) ∧
      (loadedOnce true).SameCounts (loadedOnce false) ∧
      Drifted [staticUse.toCall] [(.str "npm", .int 1)] q q' := by
  have hlines (withStatic : Bool) :
      (Content.text (Text.unlines [lineOnce withStatic])).lines =
        ([lineOnce withStatic ++ "\n"], none) :=
    Content.lines_unlines (by simp [isOneLine_lineOnce])
  obtain ⟨rs, rs', hload, hload', hsame, hdrift⟩ := load_shared_drifts (holds_hostOf _)
    (hlines false) (holds_hostOf _) (hlines true) (.cons completed_lineOnce .nil) [staticUse]
  have hloaded := load_lineOnce true
  have hloaded' := load_lineOnce false
  cases hload.symm.trans hloaded
  cases hload'.symm.trans hloaded'
  obtain ⟨q, q', hq, hq', hdrifted⟩ := hdrift 0 _ _ _ rfl rfl rfl
  cases hsame with
  | cons hsame _ => exact ⟨q, q', hq, hq', hloaded, hloaded', hsame, hdrifted⟩

/-- After one static use the pattern from the file without static counts has three uses in all, and
the one from the file with them has two. -/
theorem static_use_counts_twice :
    Completed (lineOnce false ++ "\n") (lineOnce true ++ "\n") ∧
    ∃ rs rs' q q', (load "corpus" true).run (hostOf [lineOnce false]) =
        (Except.ok rs, hostOf [lineOnce false]) ∧
      (load "corpus" false).run (hostOf [lineOnce true]) = (Except.ok rs', hostOf [lineOnce true]) ∧
      serveAll [staticUse] rs = [q] ∧ serveAll [staticUse] rs' = [q'] ∧
      q.total = some (.object [("npm", .int 3)]) ∧
      q.staticCounts = some (.object [("npm", .int 3)]) ∧
      q'.total = some (.object [("npm", .int 2)]) ∧
      q'.staticCounts = some (.object [("npm", .int 2)]) :=
  ⟨completed_lineOnce, _, _, _, _, load_lineOnce true, load_lineOnce false, rfl, rfl, rfl, rfl, rfl,
    rfl⟩

end RegexCorpus.Measure
