import RegexCorpus.Proofs.Key
import RegexCorpus.Proofs.Record.Edit
import RegexCorpus.Record.Regex

/-!
# Counts of any kind

A table of counts may hold data of any kind, and a use of a pattern may be said to be of any kind. A
number grows by one when its registry is counted; what is no number stops the counting, but not
before the registry has an entry in every table.
-/

namespace RegexCorpus
open Value Entries

/-! ### One more -/

namespace Value

/-- The data is a number, truth values included. -/
def isNumber : Value → Bool
  | .atom a => a.toNumber?.isSome
  | _ => false

/-- The number that is larger by one; data that is no number stays as it is. -/
def next (v : Value) : Value :=
  match v.add (.int 1) with
  | .ok w => w
  | .error _ => v

theorem add_one_of_isNumber {v : Value} (h : v.isNumber = true) :
    v.add (.int 1) = .ok v.next ∧ v.next.isNumber = true := by
  cases v with
  | atom a => cases a with
    | null | str _ => cases h
    | bool _ | int _ | double _ => exact ⟨rfl, rfl⟩
  | list | dict => cases h

theorem add_one_of_not_isNumber {v : Value} (h : v.isNumber = false) :
    v.add (.int 1) = .error .wrongKind ∧ v.next = v := by
  cases v with
  | atom a => cases a with
    | null | str _ => exact ⟨rfl, rfl⟩
    | bool _ | int _ | double _ => cases h
  | list | dict => exact ⟨rfl, rfl⟩

@[simp] theorem isNumber_next (v : Value) : v.next.isNumber = v.isNumber := by
  cases h : v.isNumber with
  | true => exact (add_one_of_isNumber h).2
  | false => rw [(add_one_of_not_isNumber h).2, h]

@[simp] theorem isNumber_iterate_next (n : ℕ) (v : Value) : (next^[n] v).isNumber = v.isNumber := by
  induction n generalizing v with
  | zero => rfl
  | succ n ih => rw [Function.iterate_succ_apply, ih, isNumber_next]

theorem next_int (z : ℤ) : (int z).next = .int (z + 1) := rfl

theorem iterate_next_int (n : ℕ) (z : ℤ) : next^[n] (.int z) = .int (z + n) := by
  induction n generalizing z with
  | zero => simp
  | succ n ih =>
    have hsum : z + 1 + (n : ℤ) = z + (n + 1 : ℕ) := by
      push_cast
      ring
    rw [Function.iterate_succ_apply, next_int, ih, hsum]

end Value

/-! ### Tables -/

namespace Entries

variable {es : Entries} {registry : String} {k : Atom} {v : Value}

/-- The value under a key, zero if there is no entry. -/
def valueAt (es : Entries) (k : Atom) : Value := (find? es k).getD (.int 0)

/-- An entry for a registry, with a count of zero if it is new. -/
def touch (registry : String) (es : Entries) : Entries :=
  if has es (.str registry) then es else set (.str registry) (.int 0) es

def grow (registry : String) (es : Entries) : Entries :=
  if (valueAt es (.str registry)).isNumber then
    set (.str registry) (valueAt es (.str registry)).next es
  else es

theorem samePart_str_iff {registry : String} {k : Atom} :
    (Atom.str registry).samePart k = true ↔ Atom.str registry = k := by
  rw [Atom.samePart_comm, Atom.samePart_str, decide_eq_true_iff, eq_comm]

theorem find?_eq (es : Entries) (k : Atom) :
    find? es k = if has es k then some (valueAt es k) else none := by
  rw [has_eq_isSome, valueAt]
  cases find? es k <;> rfl

theorem set_eq_self (h : find? es k = some v) : set k v es = es := by
  induction es with
  | nil => cases h
  | cons e es ih =>
    rw [find?_cons] at h
    rw [set]
    split_ifs at h ⊢ with hk
    · rw [← Option.some.inj h]
    · rw [ih h]

theorem has_set (k l : Atom) (v : Value) (es : Entries) :
    has (set k v es) l = (has es l || k.samePart l) := by
  rw [has_eq_isSome, has_eq_isSome, find?_set]
  cases k.samePart l <;> simp

theorem valueAt_touch (registry : String) (es : Entries) (k : Atom) :
    valueAt (touch registry es) k = valueAt es k := by
  unfold touch
  split_ifs with h
  · rfl
  · rw [valueAt, find?_set]
    split_ifs with hk
    · rw [has_eq_isSome, Option.not_isSome_iff_eq_none, find?_congr hk] at h
      rw [valueAt, h]
      rfl
    · rfl

theorem has_touch_eq (registry : String) (es : Entries) (k : Atom) :
    has (touch registry es) k = (has es k || decide (Atom.str registry = k)) := by
  unfold touch
  split_ifs with h
  · by_cases hk : Atom.str registry = k
    · subst hk
      simp [h]
    · simp [hk]
  · rw [has_set, Bool.eq_iff_iff]
    simp [samePart_str_iff]

theorem has_touch (registry : String) (es : Entries) :
    has (touch registry es) (.str registry) = true := by
  rw [has_touch_eq, decide_eq_true rfl, Bool.or_true]

theorem valueAt_grow (registry : String) (es : Entries) (k : Atom) :
    valueAt (grow registry es) k =
      if Atom.str registry = k then (valueAt es k).next else valueAt es k := by
  unfold grow
  split_ifs with hnumber hk hk
  · subst hk
    rw [valueAt, find?_set, if_pos (Atom.samePart_refl _)]
    rfl
  · rw [valueAt, find?_set, if_neg (mt samePart_str_iff.mp hk)]
    rfl
  · subst hk
    exact (add_one_of_not_isNumber (by simpa using hnumber)).2.symm
  · rfl

theorem has_grow (h : has es (.str registry) = true) (k : Atom) :
    has (grow registry es) k = has es k := by
  unfold grow
  split_ifs
  · rw [has_set]
    cases hk : (Atom.str registry).samePart k with
    | false => rw [Bool.or_false]
    | true =>
      rw [has_eq_isSome, find?_congr hk, ← has_eq_isSome] at h
      rw [h]
      rfl
  · rfl

/-- A registry with its entry, counted once more. -/
def raise (registry : String) (es : Entries) : Entries := grow registry (touch registry es)

theorem valueAt_raise (registry : String) (es : Entries) (k : Atom) :
    valueAt (raise registry es) k =
      if Atom.str registry = k then (valueAt es k).next else valueAt es k := by
  rw [raise, valueAt_grow, valueAt_touch]

theorem has_raise (registry : String) (es : Entries) (k : Atom) :
    has (raise registry es) k = (has es k || decide (Atom.str registry = k)) := by
  rw [raise, has_grow (has_touch registry es), has_touch_eq]

theorem raise_of_not_isNumber (h : (valueAt es (.str registry)).isNumber = false) :
    raise registry es = touch registry es := by
  rw [raise, grow, valueAt_touch, h]
  rfl

theorem find?_touch (registry : String) (es : Entries) (k : Atom) :
    find? (touch registry es) k =
      if .str registry = k then some (valueAt es k) else find? es k := by
  rw [find?_eq, has_touch_eq, valueAt_touch, find?_eq es]
  by_cases hk : Atom.str registry = k <;> simp [hk]

theorem find?_raise (registry : String) (es : Entries) (k : Atom) :
    find? (raise registry es) k =
      if .str registry = k then some (valueAt es k).next else find? es k := by
  rw [find?_eq, has_raise, valueAt_raise, find?_eq es]
  by_cases hk : Atom.str registry = k <;> simp [hk]

theorem touch_eq_self_iff : touch registry es = es ↔ has es (.str registry) = true := by
  constructor
  · intro h
    rw [← h]
    exact has_touch registry es
  · intro h
    exact if_pos h

theorem raise_eq_self_iff :
    raise registry es = es ↔ has es (.str registry) = true ∧
      (valueAt es (.str registry)).next = valueAt es (.str registry) := by
  constructor
  · intro h
    have hhas := has_raise registry es (.str registry)
    have hvalue := valueAt_raise registry es (.str registry)
    rw [h, if_pos rfl] at hvalue
    rw [h, decide_eq_true rfl, Bool.or_true] at hhas
    exact ⟨hhas, hvalue.symm⟩
  · rintro ⟨hhas, hvalue⟩
    rw [raise, touch_eq_self_iff.mpr hhas, grow, hvalue]
    split_ifs
    · exact set_eq_self (by rw [find?_eq, if_pos hhas])
    · rfl

end Entries

namespace Regex

open Entries (touch grow raise valueAt)

/-! ### One table -/

theorem ensureEntry_dict (registry : String) (es : Entries) :
    ensureEntry (.dict es) (.str registry) = .ok (.dict (touch registry es)) := by
  change (if has es (.str registry) then _ else _) = _
  unfold touch
  split_ifs <;> rfl

/-- A table of a pattern, as it is read and as it is replaced. -/
structure Table where
  read : Regex → Option Value
  write : Value → Regex → Regex
  write_read : ∀ {r v}, read r = some v → write v r = r

namespace Table

def total : Table where
  read := Regex.total
  write v r := { r with total := some v }
  write_read h := by rw [← h]

def static : Table where
  read := Regex.static
  write v r := { r with static := some v }
  write_read h := by rw [← h]

def dynamic : Table where
  read := Regex.dynamic
  write v r := { r with dynamic := some v }
  write_read h := by rw [← h]

def change (table : Table) (f : Value → Outcome Value) : Edit Regex Unit := do
  let v ← ((do f (← field (table.read (← get)))) : Edit Regex Value)
  modify (table.write v)

variable {table : Table} {f : Value → Outcome Value} {v w : Value} {e : Fault} {r : Regex}

theorem change_ok (h : table.read r = some v) (hf : f v = .ok w) :
    (table.change f).run r = (.ok (), table.write w r) := by
  simp only [change, bind_assoc]
  rw [run_get_state_bind, run_lift_bind (field_eq_ok.mpr h), run_lift_bind hf]
  rfl

theorem change_error (h : table.read r = some v) (hf : f v = .error e) :
    (table.change f).run r = (.error e, r) := by
  simp only [change, bind_assoc]
  rw [run_get_state_bind, run_lift_bind (field_eq_ok.mpr h), hf]
  rfl

theorem change_ensureEntry (es : Entries) (h : table.read r = some (.dict es))
    (registry : String) :
    (table.change (ensureEntry · (.str registry))).run r =
      (.ok (), table.write (.dict (touch registry es)) r) :=
  change_ok h (ensureEntry_dict registry es)

end Table

def canGrow (registry : String) (es : Entries) : Outcome Unit :=
  if (valueAt es (.str registry)).isNumber then .ok () else .error .wrongKind

section
variable {registry : String} {es : Entries}

theorem canGrow_touch (registry : String) (es : Entries) :
    canGrow registry (touch registry es) = canGrow registry es := by
  rw [canGrow, valueAt_touch, canGrow]

theorem canGrow_raise (registry : String) (es : Entries) :
    canGrow registry (raise registry es) = canGrow registry es := by
  rw [canGrow, valueAt_raise, if_pos rfl, isNumber_next, canGrow]

theorem increment_grow (h : has es (.str registry) = true) :
    increment (.dict es) (.str registry) = (do
      canGrow registry es
      return .dict (grow registry es)) := by
  have hitem : (dict es).item (.str registry) = .ok (valueAt es (.str registry)) := by
    rw [item_dict, find?_eq, if_pos h]
  rw [increment, hitem, Outcome.ok_bind, canGrow, grow]
  cases hnumber : (valueAt es (.str registry)).isNumber with
  | true =>
    rw [(add_one_of_isNumber hnumber).1]
    rfl
  | false =>
    rw [(add_one_of_not_isNumber hnumber).1]
    rfl

theorem Table.change_increment {table : Table} {r : Regex} (es : Entries)
    (h : table.read r = some (.dict es))
    (hhas : has es (.str registry) = true) :
    (table.change (increment · (.str registry))).run r =
      (canGrow registry es, table.write (.dict (grow registry es)) r) := by
  have hincrement := increment_grow hhas
  cases hnumber : (valueAt es (.str registry)).isNumber with
  | true =>
    have hcan : canGrow registry es = .ok () := if_pos hnumber
    rw [hcan] at hincrement ⊢
    exact change_ok h hincrement
  | false =>
    have hcan : canGrow registry es = .error .wrongKind := if_neg (by simp [hnumber])
    have hsame : grow registry es = es := if_neg (by simp [hnumber])
    rw [hcan] at hincrement ⊢
    rw [hsame, table.write_read h]
    exact change_error h hincrement

end

/-! ### A use of any kind -/

def withTables (r : Regex) (total static dynamic : Entries) : Regex :=
  { r with total := some (.dict total), static := some (.dict static),
           dynamic := some (.dict dynamic) }

/-- The pattern with other tables. Static counts that are the total ones have no table of their
own. -/
def withCounts (r : Regex) (total static dynamic : Entries) : Regex :=
  { r with
    total := some (.dict total)
    static := if r.shared then r.static else some (.dict static)
    dynamic := some (.dict dynamic) }

/-- How a use was found. -/
inductive Finding where
  | static
  | dynamic
  deriving DecidableEq

def Finding.name : Finding → String
  | static => "static"
  | dynamic => "dynamic"

/-- A use that is to be counted, of whatever kind it is said to be. -/
structure Call where
  registry : String
  useType : Value

/-- The use is said to have been found in this way. -/
def Call.isOf (c : Call) (finding : Finding) : Bool := c.useType.same (.str finding.name)

def Call.count (c : Call) : Edit Regex Unit := countUse (.str c.registry) c.useType

/-- The table of a way of finding uses after a use, which counts only if the total count could
grow. -/
def noted (finding : Finding) (c : Call) (total es : Entries) : Entries :=
  if (valueAt total (.str c.registry)).isNumber && c.isOf finding then raise c.registry es
  else touch c.registry es

/-- The total table after a use: a static one counts twice where the static counts are the total
ones. -/
def notedTotal (shared : Bool) (c : Call) (es : Entries) : Entries :=
  if shared && c.isOf .static then grow c.registry (raise c.registry es) else raise c.registry es

/-- How the count of a use ends. -/
def verdict (c : Call) (total static dynamic : Entries) : Outcome Unit := do
  canGrow c.registry total
  if c.isOf .dynamic then canGrow c.registry dynamic
  else if c.isOf .static then canGrow c.registry static
  else .error (.badValue ("Error, unexpected useType " ++ c.useType.display))

section
variable {r : Regex} {t s d : Entries} {f : Value → Outcome Value}

theorem eq_withCounts (ht : r.total = some (.dict t)) (hs : r.staticCounts = some (.dict s))
    (hd : r.dynamic = some (.dict d)) : r = r.withCounts t s d := by
  have hstatic : (if r.shared then r.static else some (.dict s)) = r.static := by
    split_ifs with hshared
    · rfl
    · rw [← hs, staticCounts, if_neg hshared]
  rw [withCounts, hstatic, ← ht, ← hd]

theorem withCounts_of_shared (h : r.shared = true) (t s s' d : Entries) :
    r.withCounts t s d = r.withCounts t s' d := by
  rw [withCounts, if_pos h, withCounts, if_pos h]

theorem withCounts_of_separate (h : r.shared = false) (t s d : Entries) :
    r.withCounts t s d = r.withTables t s d := by
  rw [withCounts, if_neg (by simp [h]), withTables]

theorem total_withCounts (r : Regex) (t s d : Entries) :
    (r.withCounts t s d).total = some (.dict t) := rfl

theorem dynamic_withCounts (r : Regex) (t s d : Entries) :
    (r.withCounts t s d).dynamic = some (.dict d) := rfl

theorem staticCounts_withCounts (r : Regex) (t s d : Entries) :
    (r.withCounts t s d).staticCounts = some (.dict (if r.shared then t else s)) := by
  have hshared : (r.withCounts t s d).shared = r.shared := rfl
  rw [staticCounts, hshared]
  cases h : r.shared with
  | true => rfl
  | false =>
    rw [withCounts_of_separate h]
    rfl

theorem onStatic_of_shared (h : r.shared = true) (f : Value → Outcome Value) (t s d : Entries) :
    (onStatic f).run (r.withCounts t s d) = (Table.total.change f).run (r.withCounts t s d) := by
  have hshared : (r.withCounts t s d).shared = true := h
  rw [onStatic, run_get_state_bind, hshared, if_pos rfl]
  rfl

theorem onStatic_of_separate (h : r.shared = false) (f : Value → Outcome Value)
    (t s d : Entries) :
    (onStatic f).run (r.withTables t s d) = (Table.static.change f).run (r.withTables t s d) := by
  have hshared : (r.withTables t s d).shared = false := h
  rw [onStatic, run_get_state_bind, hshared, if_neg Bool.false_ne_true]
  rfl

variable {registry : String}

theorem onTotal_ensureEntry (registry : String) :
    (onTotal (ensureEntry · (.str registry))).run (r.withCounts t s d) =
      (.ok (), r.withCounts (touch registry t) s d) :=
  Table.total.change_ensureEntry t rfl registry

theorem onStatic_ensureEntry (registry : String) :
    (onStatic (ensureEntry · (.str registry))).run (r.withCounts (touch registry t) s d) =
      (.ok (), r.withCounts (touch registry t) (touch registry s) d) := by
  cases h : r.shared with
  | true =>
    have hagain : touch registry (touch registry t) = touch registry t :=
      touch_eq_self_iff.mpr (has_touch registry t)
    rw [onStatic_of_shared h, Table.change_ensureEntry (touch registry t) rfl, hagain,
      withCounts_of_shared h _ (touch registry s) s]
    rfl
  | false =>
    rw [withCounts_of_separate h, withCounts_of_separate h, onStatic_of_separate h,
      Table.change_ensureEntry s rfl]
    rfl

theorem onDynamic_ensureEntry (registry : String) :
    (onDynamic (ensureEntry · (.str registry))).run (r.withCounts t s d) =
      (.ok (), r.withCounts t s (touch registry d)) :=
  Table.dynamic.change_ensureEntry d rfl registry

theorem onTotal_increment (h : has t (.str registry) = true) :
    (onTotal (increment · (.str registry))).run (r.withCounts t s d) =
      (canGrow registry t, r.withCounts (grow registry t) s d) :=
  Table.total.change_increment t rfl h

theorem onDynamic_increment (h : has d (.str registry) = true) :
    (onDynamic (increment · (.str registry))).run (r.withCounts t s d) =
      (canGrow registry d, r.withCounts t s (grow registry d)) :=
  Table.dynamic.change_increment d rfl h

/-- The static counts grow where they are: in a table of their own, or in the total one. -/
theorem onStatic_increment (ht : has t (.str registry) = true)
    (hs : has s (.str registry) = true) :
    (onStatic (increment · (.str registry))).run (r.withCounts t s d) =
      (canGrow registry (if r.shared then t else s),
        r.withCounts (if r.shared then grow registry t else t) (grow registry s) d) := by
  cases h : r.shared with
  | true =>
    rw [onStatic_of_shared h, Table.change_increment t rfl ht,
      withCounts_of_shared h _ (grow registry s) s]
    rfl
  | false =>
    rw [withCounts_of_separate h, withCounts_of_separate h, onStatic_of_separate h,
      Table.change_increment s rfl hs]
    rfl

theorem count_touches (ht : r.total = some (.dict t)) (hs : r.staticCounts = some (.dict s))
    (hd : r.dynamic = some (.dict d)) (c : Call) :
    c.count.run r = (do
      onTotal (increment · (.str c.registry))
      if c.isOf .dynamic then onDynamic (increment · (.str c.registry))
      else if c.isOf .static then onStatic (increment · (.str c.registry))
      else throw (.badValue ("Error, unexpected useType " ++ c.useType.display)) :
        Edit Regex Unit).run
      (r.withCounts (touch c.registry t) (touch c.registry s) (touch c.registry d)) := by
  rw [Call.count, countUse, run_get_state_bind, run_lift_bind (field_eq_ok.mpr ht),
    run_lift_bind (field_eq_ok.mpr hs), run_lift_bind (field_eq_ok.mpr hd)]
  nth_rewrite 1 [eq_withCounts ht hs hd]
  rw [run_bind_of_ok (onTotal_ensureEntry _), run_bind_of_ok (onStatic_ensureEntry _),
    run_bind_of_ok (onDynamic_ensureEntry _)]
  rfl

theorem isOf_of_isOf {c : Call} {finding : Finding} (h : c.isOf finding = true)
    (finding' : Finding) : c.isOf finding' = decide (finding = finding') := by
  rw [Call.isOf, same_str] at h
  rw [Call.isOf, h]
  cases finding <;> cases finding' <;> decide

theorem static_eq_total_of_shared (hshared : r.shared = true) (ht : r.total = some (.dict t))
    (hs : r.staticCounts = some (.dict s)) : s = t := by
  rw [staticCounts, if_pos hshared, ht] at hs
  cases hs
  rfl

/-- What a use of any kind does: every table gets its entry, the total count grows, and only then
the kind of the use is looked at. -/
theorem count_run (ht : r.total = some (.dict t)) (hs : r.staticCounts = some (.dict s))
    (hd : r.dynamic = some (.dict d)) (c : Call) :
    c.count.run r = (verdict c t s d,
      r.withCounts (notedTotal r.shared c t) (noted .static c t s) (noted .dynamic c t d)) := by
  rw [count_touches ht hs hd, run_bind, onTotal_increment (has_touch _ _), canGrow_touch, ← raise,
    verdict]
  cases hnumber : (valueAt t (.str c.registry)).isNumber with
  | false =>
    have hcan : canGrow c.registry t = .error .wrongKind := if_neg (by simp [hnumber])
    have hagain : grow c.registry (raise c.registry t) = raise c.registry t := by
      rw [grow, valueAt_raise, if_pos rfl, isNumber_next, hnumber]
      rfl
    rw [hcan, notedTotal, hagain, ite_self, noted, noted, hnumber]
    rfl
  | true =>
    have hcan : canGrow c.registry t = .ok () := if_pos hnumber
    have hhas : has (raise c.registry t) (.str c.registry) = true := by
      simp [has_raise]
    rw [hcan, notedTotal, noted, noted, hnumber, Bool.true_and, Bool.true_and, Outcome.ok_bind]
    cases hdynamic : c.isOf .dynamic with
    | true =>
      have hstatic : c.isOf .static = false := isOf_of_isOf hdynamic .static
      rw [hstatic, Bool.and_false]
      refine (onDynamic_increment (has_touch _ _)).trans ?_
      rw [canGrow_touch]
      rfl
    | false =>
      cases hstatic : c.isOf .static with
      | true =>
        refine (onStatic_increment hhas (has_touch _ _)).trans ?_
        have hstill : canGrow c.registry (if r.shared then raise c.registry t
            else touch c.registry s) = canGrow c.registry s := by
          split_ifs with hshared
          · rw [canGrow_raise, static_eq_total_of_shared hshared ht hs]
          · exact canGrow_touch c.registry s
        rw [hstill, Bool.and_true]
        rfl
      | false =>
        rw [Bool.and_false]
        rfl

/-! ### A use of an unknown kind -/

def SameCounts (r r' : Regex) : Prop :=
  r'.total = r.total ∧ r'.staticCounts = r.staticCounts ∧ r'.dynamic = r.dynamic

/-- A registry has been counted in the total table, and has an entry in the others. -/
structure Miscounted (registry : String) (t s d : Entries) (r r' : Regex) : Prop where
  frame : ∃ total static dynamic, r' = { r with total, static, dynamic }
  total : ∃ t', r'.total = some (.dict t') ∧ ∀ k, Entries.find? t' k =
    if .str registry = k then some (valueAt t k).next else Entries.find? t k
  static : ∃ s', r'.staticCounts = some (.dict s') ∧ ∀ k, Entries.find? s' k =
    if .str registry = k then some (if r.shared then (valueAt s k).next else valueAt s k)
    else Entries.find? s k
  dynamic : ∃ d', r'.dynamic = some (.dict d') ∧ ∀ k, Entries.find? d' k =
    if .str registry = k then some (valueAt d k) else Entries.find? d k

theorem miscounted_withCounts (ht : r.total = some (.dict t))
    (hs : r.staticCounts = some (.dict s)) (registry : String) :
    Miscounted registry t s d r
      (r.withCounts (raise registry t) (touch registry s) (touch registry d)) where
  frame := ⟨_, _, _, rfl⟩
  total := ⟨_, rfl, find?_raise registry t⟩
  static := by
    refine ⟨_, staticCounts_withCounts .., fun k => ?_⟩
    cases hshared : r.shared with
    | true =>
      rw [static_eq_total_of_shared hshared ht hs]
      exact find?_raise registry t k
    | false => exact find?_touch registry s k
  dynamic := ⟨_, rfl, find?_touch registry d⟩

theorem sameCounts_withCounts (ht : r.total = some (.dict t))
    (hs : r.staticCounts = some (.dict s)) (hd : r.dynamic = some (.dict d)) (registry : String) :
    r.SameCounts (r.withCounts (raise registry t) (touch registry s) (touch registry d)) ↔
      (has t (.str registry) ∧ has s (.str registry) ∧
        has d (.str registry)) ∧
      (valueAt t (.str registry)).next = valueAt t (.str registry) := by
  have htotal : (some (.dict (raise registry t)) = some (dict t)) ↔
      has t (.str registry) = true ∧
        (valueAt t (.str registry)).next = valueAt t (.str registry) := by
    rw [← raise_eq_self_iff, Option.some.injEq, dict.injEq]
  have hdynamic : (some (.dict (touch registry d)) = some (dict d)) ↔
      has d (.str registry) = true := by
    rw [← touch_eq_self_iff, Option.some.injEq, dict.injEq]
  have hstatic : (some (.dict (touch registry s)) = some (dict s)) ↔
      has s (.str registry) = true := by
    rw [← touch_eq_self_iff, Option.some.injEq, dict.injEq]
  rw [SameCounts, total_withCounts, staticCounts_withCounts, dynamic_withCounts, ht, hs, hd]
  cases hshared : r.shared with
  | true =>
    obtain rfl := static_eq_total_of_shared hshared ht hs
    rw [if_pos rfl]
    rw [htotal, hdynamic]
    tauto
  | false =>
    rw [if_neg Bool.false_ne_true]
    rw [htotal, hstatic, hdynamic]
    tauto

/-- A use that is neither static nor dynamic is refused, but not before the registry has its entry
in every table and its total count has grown. So the tables stay as they are only if the registry had
all its entries and adding one to its total count either fails or does not change it, which is never
the case for a whole number. -/
theorem countUse_unexpected (ht : r.total = some (.dict t)) (hs : r.staticCounts = some (.dict s))
    (hd : r.dynamic = some (.dict d)) (registry : String) {useType : Value}
    (huse : ∀ finding : Finding, useType ≠ .str finding.name) :
    ∃ r', (countUse (.str registry) useType).run r =
        (Except.error (if (valueAt t (.str registry)).isNumber then
          .badValue ("Error, unexpected useType " ++ useType.display) else .wrongKind), r') ∧
      Miscounted registry t s d r r' ∧
      (r.SameCounts r' ↔
        (Entries.has t (.str registry) ∧ Entries.has s (.str registry) ∧
          Entries.has d (.str registry)) ∧
        (valueAt t (.str registry)).next = valueAt t (.str registry)) ∧
      ∀ z, valueAt t (.str registry) = .int z → ¬r.SameCounts r' := by
  have hkind (finding : Finding) : (Call.mk registry useType).isOf finding = false := by
    rw [Call.isOf, Bool.eq_false_iff]
    exact mt same_str.mp (huse finding)
  have hsame := sameCounts_withCounts ht hs hd registry
  refine ⟨_, ?_, miscounted_withCounts ht hs registry, hsame, fun z hz hcounts => ?_⟩
  · refine (count_run ht hs hd ⟨registry, useType⟩).trans ?_
    rw [verdict, notedTotal, noted, noted, hkind, hkind, Bool.and_false, Bool.and_false, canGrow]
    cases (valueAt t (.str registry)).isNumber <;> rfl
  · have hnext := (hsame.mp hcounts).2
    rw [hz, next_int] at hnext
    have hz' : z + 1 = z := Atom.int.inj (Value.atom.inj hnext)
    omega

/-- A pattern used in modules of two registries, in one of them dynamically only. -/
def usedTwice : Regex :=
  make (.str "a") (.object [("npm", .int 2), ("pypi", .int 1)]) (.dict [])
    (.object [("npm", .int 2)]) (.object [("pypi", .int 1)]) .null .null (.items [])

theorem countUse_unexpected_usedTwice :
    ∃ r', (countUse (.str "npm") (.str "both")).run usedTwice =
        (Except.error (.badValue "Error, unexpected useType both"), r') ∧
      (∃ t', r'.total = some (.dict t') ∧ Entries.find? t' (.str "npm") = some (.int 3)) ∧
      ¬usedTwice.SameCounts r' := by
  have huse (finding : Finding) : Value.str "both" ≠ .str finding.name := by
    cases finding <;> simp [Finding.name]
  obtain ⟨r', hrun, hcounts, -, hchanged⟩ :=
    countUse_unexpected (r := usedTwice) rfl rfl rfl "npm" huse
  obtain ⟨t', ht', hfind⟩ := hcounts.total
  exact ⟨r', hrun, ⟨t', ht', hfind (.str "npm")⟩, hchanged 2 rfl⟩

/-- The first use of a pattern, of an unknown kind, is refused and counted. -/
theorem countUse_both_counts :
    ∃ r', (countUse (.str "npm") (.str "both")).run (bare (.str "a")) =
        (Except.error (.badValue "Error, unexpected useType both"), r') ∧
      r'.total = some (.object [("npm", .int 1)]) ∧
      r'.staticCounts = some (.object [("npm", .int 0)]) ∧
      r'.dynamic = some (.object [("npm", .int 0)]) ∧ ¬(bare (.str "a")).SameCounts r' := by
  refine ⟨_, rfl, rfl, rfl, rfl, fun hsame => ?_⟩
  have htotal : some (Value.object [("npm", .int 1)]) = some (.dict []) := hsame.1
  cases htotal

end

end Regex
end RegexCorpus
