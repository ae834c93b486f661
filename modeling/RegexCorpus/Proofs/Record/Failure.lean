import RegexCorpus.Proofs.Publish.Line
import RegexCorpus.Proofs.Record.Regex

/-!
# Fillings that fail

Filling a record takes readings one after the other and sets a value of the record to each of them,
first of all the mark that the record has been filled. When a reading fails, the values set so far
stay.
-/

namespace RegexCorpus
open Outcome Json Value

variable {σ : Type}

/-! ### The values that a filling sets -/

open List

/-- How a record is filled: its fields in the order in which they are set, and all else that it
holds. -/
structure Layout (σ : Type) where
  Others : Type
  fields : DataFields σ
  others : σ → Others
  lawful : fields.Lawful others

def Layout.values (L : Layout σ) (s : σ) : List (Option Value) := L.fields.values s

/-- The filling of `s` failed with `e` and left `s'`: the values before the reading that failed have
been set to the readings, and nothing else has changed. So the record is what it was just when these
values were there before. -/
structure BreaksOff (L : Layout σ) (readings : List (Outcome Value)) (s : σ) (e : Fault) (s' : σ)
    (vs : List Value) : Prop where
  readings : ∃ later, readings = vs.map .ok ++ .error e :: later
  values : L.values s' = vs.map some ++ (L.values s).drop vs.length
  others : L.others s' = L.others s
  unchanged : L.values s' = L.values s ↔ vs.map some <+: L.values s

theorem Layout.breaksOff_setAll (L : Layout σ) {vs : List Value}
    (hlength : vs.length ≤ L.fields.length) (e : Fault) (later : List (Outcome Value)) (s : σ) :
    BreaksOff L (vs.map .ok ++ .error e :: later) s e (L.fields.setAll vs s) vs := by
  obtain ⟨hvalues, hothers⟩ := L.lawful.setAll hlength s
  rw [← Layout.values, ← Layout.values] at hvalues
  refine ⟨⟨later, rfl⟩, hvalues, hothers, ?_⟩
  rw [hvalues]
  constructor
  · intro h
    exact ⟨_, h⟩
  · rintro ⟨rest, hrest⟩
    rw [← hrest, drop_left' (by simp)]

/-- An edit that fails only when the check does, if there is one, and then changes nothing. -/
def EndsBy (check : List (Outcome Value)) (ending : Edit σ Unit) : Prop :=
  ∀ (s s' : σ) (e : Fault), ending.run s = (.error e, s') → check = [.error e] ∧ s' = s

theorem endsBy_pure : EndsBy [] (pure () : Edit σ Unit) := by
  intro s s' e h
  cases h

theorem endsBy_modify (check : List (Outcome Value)) (g : σ → σ) :
    EndsBy check (modify g : Edit σ Unit) := by
  intro s s' e h
  cases h

theorem EndsBy.lift_bind {α : Type} (o : Outcome α) {check : α → Outcome Value}
    {f : α → Edit σ Unit} (h : ∀ a, EndsBy [check a] (f a)) :
    EndsBy [o >>= check] ((liftM o : Edit σ α) >>= f) := by
  intro s s' e hrun
  cases o with
  | error e' =>
    cases hrun
    exact ⟨rfl, rfl⟩
  | ok a => exact h a s s' e hrun

theorem endsBy_lift (check : Outcome Unit) :
    EndsBy [check >>= fun _ => .ok .null] (liftM check : Edit σ Unit) := by
  intro s s' e h
  cases check with
  | error e' =>
    cases h
    exact ⟨rfl, rfl⟩
  | ok u => cases h

/-- A filling that ends by a check breaks off at the first reading that fails, or at the check. -/
theorem Layout.breaksOff (L : Layout σ) {readings check : List (Outcome Value)}
    {ending : Edit σ Unit} (hlength : readings.length ≤ L.fields.length)
    (hending : EndsBy check ending) {s s' : σ} {e : Fault}
    (h : (fillIn (readings.zip (L.fields.map (·.set))) >>= fun _ => ending).run s =
      (.error e, s')) : ∃ vs, BreaksOff L (readings ++ check) s e s' vs := by
  rw [run_bind] at h
  rcases fillIn_cases hlength s with ⟨vs, rfl, hrun⟩ | ⟨vs, e', later, rfl, hrun⟩
  · rw [length_map] at hlength
    rw [hrun] at h
    obtain ⟨rfl, rfl⟩ := hending _ _ _ h
    exact ⟨vs, L.breaksOff_setAll hlength e [] s⟩
  · rw [length_append, length_map] at hlength
    rw [hrun] at h
    cases h
    rw [append_assoc, cons_append]
    exact ⟨vs, L.breaksOff_setAll (by omega) e (later ++ check) s⟩

/-- The readings from a line, after the mark; a line that cannot be read is one that fails. -/
def lineReadings (readings : Value → List (Outcome Value)) (line : Value) : List (Outcome Value) :=
  .ok (.bool true) :: match Json.ofLine line with
    | .ok obj => readings obj
    | .error e => [.error e]

/-- A filling from a line breaks off at the line, at a reading from its object, or at the check. -/
theorem Layout.breaksOff_line (L : Layout σ) {mark : DataField σ} {fs : DataFields σ}
    (hfields : L.fields = mark :: fs) {line : Value} {s s' : σ}
    {body ending : Value → Edit σ Unit} {readings : Value → List (Outcome Value)}
    {check : Value → List (Outcome Value)} (hlength : ∀ obj, (readings obj).length ≤ fs.length)
    (hending : ∀ obj, EndsBy (check obj) (ending obj))
    (hbody : ∀ obj, (body obj).run (mark.set (.bool true) s) =
      (fillIn ((readings obj).zip (fs.map (·.set))) >>= fun _ => ending obj).run
        (mark.set (.bool true) s))
    {e : Fault} (h : ((ofLine line : Outcome Value) >>= body : Edit σ Unit).run
      (mark.set (.bool true) s) = (.error e, s')) :
    ∃ vs, BreaksOff L (lineReadings (fun obj => readings obj ++ check obj) line) s e s' vs := by
  cases hobj : ofLine line with
  | error f =>
    rw [hobj] at h
    cases h
    have hmark : L.fields.setAll [.bool true] s = mark.set (.bool true) s := by
      simp [hfields, DataFields.setAll]
    have hplace : [bool true].length ≤ L.fields.length := by simp [hfields]
    rw [lineReadings, hobj, ← hmark]
    exact ⟨[.bool true], L.breaksOff_setAll hplace e [] s⟩
  | ok obj =>
    rw [run_lift_bind hobj, hbody] at h
    rw [lineReadings, hobj, ← cons_append]
    refine L.breaksOff ?_ (hending obj) ?_
    · rw [hfields]
      exact Nat.succ_le_succ (hlength obj)
    · rw [hfields, map_cons, zip_cons_cons, fillIn_ok_bind_run]
      exact h

theorem Layout.breaksOff_plain (L : Layout σ) {mark : DataField σ} {fs : DataFields σ}
    (hfields : L.fields = mark :: fs) {line : Value} {s s' : σ} {body : Value → Edit σ Unit}
    {readings : Value → List (Outcome Value)} (hlength : ∀ obj, (readings obj).length ≤ fs.length)
    (hbody : ∀ obj, (body obj).run (mark.set (.bool true) s) =
      (fillIn ((readings obj).zip (fs.map (·.set)))).run (mark.set (.bool true) s))
    {e : Fault} (h : ((ofLine line : Outcome Value) >>= body : Edit σ Unit).run
      (mark.set (.bool true) s) = (.error e, s')) :
    ∃ vs, BreaksOff L (lineReadings readings line) s e s' vs := by
  have hends := L.breaksOff_line hfields hlength (fun _ => endsBy_pure)
    (fun obj => by rw [hbody, bind_pure_unit]) h
  simpa only [append_nil] using hends

theorem fillIn_check_run (reading : Outcome Value) (check : Value → Outcome Unit)
    (set : Value → σ → σ) (steps : List (FillStep σ)) (s : σ) :
    (do
      let v ← reading
      check v
      fillIn ((reading, set) :: steps) : Edit σ Unit).run s =
    (fillIn ((do
      let v ← reading
      check v
      return v, set) :: steps)).run s := by
  cases reading with
  | error e => rfl
  | ok v =>
    rw [run_lift_bind rfl, ok_bind]
    cases check v <;> rfl

/-- A check before the readings may as well stand in each of them and after the last. -/
theorem fillIn_checked_run (check : Outcome Unit) (readings : List (Outcome Value))
    (sets : List (Value → σ → σ)) (s : σ) :
    (fillIn ((readings.map fun reading => check >>= fun _ => reading).zip sets) >>= fun _ =>
      (liftM check : Edit σ Unit)).run s =
    ((liftM check : Edit σ Unit) >>= fun _ => fillIn (readings.zip sets)).run s := by
  cases check with
  | error e => rcases readings with _ | ⟨reading, readings⟩ <;> cases sets <;> rfl
  | ok u =>
    have hreadings : (readings.map fun reading =>
        (.ok u : Outcome Unit) >>= fun _ => reading) = readings := map_id _
    rw [hreadings, run_lift_bind rfl, run_bind]
    rcases (fillIn (readings.zip sets)).run s with ⟨_ | _, t⟩ <;> rfl

/-- Two sequences agree that begin alike and go on alike from where the beginning ended. -/
theorem run_bind_congr {α β : Type} {x : Edit σ α} {f g : α → Edit σ β} {s : σ}
    (h : ∀ a t, x.run s = (.ok a, t) → (f a).run t = (g a).run t) :
    (x >>= f).run s = (x >>= g).run s := by
  rw [run_bind, run_bind]
  rcases hx : x.run s with ⟨e | a, t⟩
  · rfl
  · exact h a t hx

/-! ### Outcomes that are no refusals -/

section
variable {α β : Type}

def Unrefused (o : Outcome α) : Prop := o ≠ .error .requirement

theorem unrefused_ok (a : α) : Unrefused (.ok a) := by simp [Unrefused]

theorem Unrefused.bind {x : Outcome α} {f : α → Outcome β} (hx : Unrefused x)
    (hf : ∀ a, x = .ok a → Unrefused (f a)) : Unrefused (x >>= f) := by
  cases x with
  | error e =>
    intro h
    have he : (.error e : Outcome β) = .error .requirement := h
    exact hx (by rw [Except.error.inj he])
  | ok a => exact hf a rfl

theorem unrefused_mapM {f : α → Outcome β} {xs : List α} (h : ∀ x ∈ xs, Unrefused (f x)) :
    Unrefused (xs.mapM f) := by
  induction xs with
  | nil => exact unrefused_ok []
  | cons x xs ih =>
    rw [forall_mem_cons] at h
    rw [mapM_cons]
    exact h.1.bind fun y _ => (ih h.2).bind fun ys _ => unrefused_ok _

theorem unrefused_field (f : Option α) : Unrefused (field f) := by
  cases f <;> simp [Unrefused, field]

theorem unrefused_get (x : Held α) : Unrefused x.get := by
  cases x <;> simp [Unrefused, Held.get]

theorem unrefused_require {p : Bool} (h : p = true) : Unrefused (require p) := by
  rw [h]
  exact unrefused_ok ()

end

theorem unrefused_members (fs : List (String × Option Value)) : Unrefused (members fs) :=
  (unrefused_mapM fun f _ => (unrefused_field f.2).bind fun _ _ => unrefused_ok _).bind
    fun _ _ => unrefused_ok _

theorem unrefused_sorted (v : Value) : Unrefused v.sorted := by
  induction v using parts_induction with
  | hatom a => exact unrefused_ok _
  | hlist xs ih =>
    rw [sorted, sortedItems_eq_mapM]
    exact (unrefused_mapM ih).bind fun ys _ => unrefused_ok _
  | hdict es ih =>
    have hentries : Unrefused (sortedEntries es) := by
      induction es with
      | nil => exact unrefused_ok []
      | cons e es ihs =>
        rw [forall_mem_cons] at ih
        rw [sortedEntries]
        exact ih.1.bind fun v _ => (ihs ih.2).bind fun fs _ => unrefused_ok _
    rw [sorted]
    refine hentries.bind fun fs _ => Unrefused.bind ?_ fun gs _ => unrefused_ok _
    unfold Entries.sorted
    split_ifs
    · exact unrefused_ok _
    · simp [Unrefused]

namespace Json

theorem unrefused_checkAtom (a : Atom) : Unrefused (checkAtom a) := by
  unfold checkAtom
  split
  · split_ifs
    · simp [Unrefused]
    · exact unrefused_ok ()
  · exact unrefused_ok ()

theorem unrefused_checkLimits (v : Value) : ∀ room, Unrefused (checkLimits room v) := by
  induction v using parts_induction with
  | hatom a =>
    intro room
    cases room <;> exact unrefused_checkAtom a
  | hlist xs ih =>
    intro room
    cases room with
    | zero => simp [checkLimits, Unrefused]
    | succ room =>
      rw [checkLimits]
      induction xs with
      | nil => exact unrefused_ok ()
      | cons x xs ihs =>
        rw [forall_mem_cons] at ih
        rw [checkItems]
        exact (ih.1 room).bind fun _ _ => ihs ih.2
  | hdict es ih =>
    intro room
    cases room with
    | zero => simp [checkLimits, Unrefused]
    | succ room =>
      rw [checkLimits]
      induction es with
      | nil => exact unrefused_ok ()
      | cons e es ihs =>
        rw [forall_mem_cons] at ih
        rw [checkEntries]
        exact (unrefused_checkAtom e.1).bind fun _ _ => (ih.1 room).bind fun _ _ => ihs ih.2

/-- The line of a dictionary is not refused, whatever it holds. -/
theorem unrefused_toLine (es : Entries) : Unrefused (toLine (.dict es)) := by
  rw [toLine]
  refine (unrefused_sorted _).bind fun v hv => (unrefused_checkLimits v _).bind fun _ _ => ?_
  rw [sorted, bind_eq_ok] at hv
  obtain ⟨fs, -, hv⟩ := hv
  obtain ⟨gs, -, hv⟩ := bind_eq_ok.mp hv
  obtain rfl := pure_eq_ok.mp hv
  refine (unrefused_require ?_).bind fun _ _ => unrefused_ok _
  rw [render, String.toList_ofList]
  exact isLineChars_write gs

end Json

theorem unrefused_parts (v : Value) : Unrefused v.parts := by
  unfold parts
  split <;> simp [Unrefused]

theorem MatchResult.unrefused_toLine (r : MatchResult) : Unrefused r.toLine :=
  (unrefused_get r.contents).bind fun _ _ => (Json.unrefused_toLine _).bind
    fun _ _ => Json.unrefused_toLine _

theorem Witness.unrefused_toLine (w : Witness) : Unrefused w.toLine := by
  have htable : Unrefused w.table := by
    unfold Witness.table
    split <;> simp [Unrefused]
  refine htable.bind fun t _ => (unrefused_mapM fun row _ => ?_).bind fun _ _ =>
    Json.unrefused_toLine _
  exact (unrefused_get row.1).bind fun r _ => r.unrefused_toLine.bind fun _ _ => unrefused_ok _

theorem unrefused_lineOf {marked : Value} (h : marked = .bool true)
    (fs : List (String × Option Value)) :
    Unrefused (do
      require marked.holds
      toLine (← members fs)) := by
  refine (unrefused_require (by rw [h]; rfl)).bind fun _ _ => (unrefused_members fs).bind ?_
  intro v hv
  obtain ⟨ms, -, rfl⟩ := members_eq_ok.mp hv
  exact unrefused_toLine _

/-- A failed run of the edit leaves behind what was read, and the mark with it, so that a line is
not refused afterwards. -/
def LeavesReadings (layout : σ → Layout σ) (toLine : σ → Outcome String) (edit : Edit σ Unit)
    (readings : σ → List (Outcome Value)) : Prop :=
  ∀ (s s' : σ) (e : Fault), edit.run s = (.error e, s') →
    (∃ ws, BreaksOff (layout s) (readings s) s e s' (.bool true :: ws)) ∧ Unrefused (toLine s')

theorem BreaksOff.marked {L : Layout σ} {readings : List (Outcome Value)} {s s' : σ} {e : Fault}
    {vs : List Value} (h : BreaksOff L (.ok (.bool true) :: readings) s e s' vs) :
    ∃ ws, vs = .bool true :: ws := by
  obtain ⟨later, hlater⟩ := h.readings
  cases vs with
  | nil => simp at hlater
  | cons v vs =>
    rw [map_cons, cons_append, cons.injEq, Except.ok.injEq] at hlater
    exact ⟨vs, by rw [hlater.1]⟩

/-- A record whose first value is the mark bears it after a filling that failed. -/
theorem LeavesReadings.of_breaksOff {layout : σ → Layout σ} {toLine : σ → Outcome String}
    {edit : Edit σ Unit} {readings : σ → List (Outcome Value)} (mark : σ → Value)
    (hmark : ∀ s s', ((layout s).values s').head? = some (some (mark s')))
    (hline : ∀ s, mark s = .bool true → Unrefused (toLine s))
    (h : ∀ s s' e, edit.run s = (.error e, s') →
      ∃ vs, BreaksOff (layout s) (.ok (.bool true) :: readings s) s e s' vs) :
    LeavesReadings layout toLine edit fun s => .ok (.bool true) :: readings s := by
  intro s s' e hrun
  obtain ⟨vs, hvs⟩ := h s s' e hrun
  obtain ⟨ws, rfl⟩ := hvs.marked
  refine ⟨⟨ws, hvs⟩, hline s' ?_⟩
  have hhead := hmark s s'
  rw [hvs.values] at hhead
  exact (Option.some.inj (Option.some.inj hhead)).symm

/-! ### Reports and uses -/

variable (line : Value)

namespace FileReport

/-- The values of a report in the order in which they are set. -/
def layout : Layout FileReport where
  Others := Value
  fields := ⟨"initialized", none, (·.initialized), fun v r => { r with initialized := v }⟩ :: fields
  others r := r.type
  lawful := by simp [DataFields.Lawful, SetInOrder, DataFields.values, fields]

def readings (obj : Value) : List (Outcome Value) := fields.map (·.reading obj)

theorem leavesReadings_read :
    LeavesReadings (fun _ => layout) toLine (read line) fun _ => lineReadings readings line := by
  refine LeavesReadings.of_breaksOff (·.initialized) (fun _ _ => rfl)
    (fun r h => unrefused_lineOf h _) ?_
  intro s s' e h
  refine layout.breaksOff_plain rfl (fun _ => le_rfl) (fun obj => ?_) h
  rw [DataFields.readFrom_eq]
  rfl

end FileReport

namespace Usage

/-- The values of a use in the order in which they are set. -/
def layout : Layout Usage where
  Others := Value
  fields := ⟨"initialized", none, (·.initialized), fun v r => { r with initialized := v }⟩ :: fields
  others r := r.type
  lawful := by simp [DataFields.Lawful, SetInOrder, DataFields.values, fields]

def readings (obj : Value) : List (Outcome Value) := fields.map (·.reading obj)

theorem leavesReadings_read :
    LeavesReadings (fun _ => layout) toLine (read line) fun _ => lineReadings readings line := by
  refine LeavesReadings.of_breaksOff (·.initialized) (fun _ _ => rfl)
    (fun r h => unrefused_lineOf h _) ?_
  intro s s' e h
  refine layout.breaksOff_plain rfl (fun _ => le_rfl) (fun obj => ?_) h
  rw [DataFields.readFrom_eq]
  rfl

end Usage

/-! ### Patterns -/

namespace Regex

/-- The values of a pattern in the order in which they are set. The witnesses come last, when
nothing can fail any more. -/
def layout : Layout Regex where
  Others := Value × Records Witness
  fields := ⟨"initialized", none, (·.initialized), fun v r => { r with initialized := v }⟩ :: fields
  others r := (r.type, r.witnesses)
  lawful := by simp [DataFields.Lawful, SetInOrder, DataFields.values, fields, staticCounts, setTotal]

/-- The witnesses of an object, if any, can be read. -/
def checkWitnesses (obj : Value) : Outcome Value := do
  if ← obj.has (.str "semanticDifferenceWitnesses") then
    let lines ← ((do (← obj.get "semanticDifferenceWitnesses").parts) : Outcome _)
    let _ ← readWitnesses nestingLimit lines
    return .null
  else return .null

def readings (obj : Value) : List (Outcome Value) :=
  fields.map (·.reading obj) ++ [checkWitnesses obj]

theorem endsBy_setWitnesses (obj : Value) :
    EndsBy [checkWitnesses obj] (setWitnesses obj nestingLimit) := by
  refine EndsBy.lift_bind _ fun present => ?_
  cases present with
  | false => exact endsBy_modify _ _
  | true =>
    rw [if_pos rfl, if_pos rfl]
    exact EndsBy.lift_bind _ fun lines => EndsBy.lift_bind _ fun ws => endsBy_modify _ _

theorem unrefused_witnessLines (r : Regex) : Unrefused (r.witnessLines nestingLimit) := by
  have hparts : Unrefused r.witnesses.parts := by
    cases r.witnesses with
    | items ws => exact unrefused_ok ws
    | plain v => exact (unrefused_parts v).bind fun _ _ => unrefused_ok _
  refine hparts.bind fun ws _ => unrefused_mapM fun w _ => ?_
  refine (unrefused_get w).bind fun w _ => Unrefused.bind ?_ fun _ _ => unrefused_ok _
  exact w.unrefused_toLine

theorem unrefused_toLine {r : Regex} (h : r.initialized = .bool true) : Unrefused r.toLine := by
  rw [toLine]
  refine (unrefused_require (by rw [h]; rfl)).bind fun _ _ => ?_
  refine (unrefused_field _).bind fun _ _ => (unrefused_field _).bind fun _ _ => ?_
  refine (unrefused_field _).bind fun _ _ => (unrefused_field _).bind fun _ _ => ?_
  refine (unrefused_field _).bind fun _ _ => (unrefused_witnessLines r).bind fun _ _ => ?_
  exact Json.unrefused_toLine _

theorem leavesReadings_readObject (obj : Value) :
    LeavesReadings (fun _ => layout) toLine (readObject obj)
      fun _ => .ok (.bool true) :: readings obj := by
  refine LeavesReadings.of_breaksOff (·.initialized) (fun _ _ => rfl)
    (fun r h => unrefused_toLine h) ?_
  intro s s' e h
  rw [readObject, run_modify_bind, DataFields.readFrom_eq] at h
  rw [readings, ← cons_append]
  refine layout.breaksOff le_rfl (endsBy_setWitnesses obj) ?_
  exact (fillIn_ok_bind_run _ _ _ _ s).trans h

theorem leavesReadings_read :
    LeavesReadings (fun _ => layout) toLine (read line) fun _ => lineReadings readings line := by
  refine LeavesReadings.of_breaksOff (·.initialized) (fun _ _ => rfl)
    (fun r h => unrefused_toLine h) ?_
  intro s s' e h
  refine layout.breaksOff_line rfl (fun _ => le_rfl) endsBy_setWitnesses (fun obj => ?_) h
  rw [readObject, DataFields.readFrom_eq]
  rfl

end Regex

/-! ### Projects -/

namespace Project

/-- The values of a project in the order in which they are set. -/
def layout : Layout Project where
  Others := Unit
  fields := ⟨"initialized", none, (·.initialized), fun v p => { p with initialized := v }⟩ :: fields
  others _ := ()
  lawful := by simp [DataFields.Lawful, SetInOrder, DataFields.values, fields]

/-- The readings from an object, the first of which has to be the type of a project. -/
def readings (obj : Value) : List (Outcome Value) :=
  (do
    let type ← obj.get "type"
    require (type.same (.str typeName))
    return type) :: fields.tail.map (·.reading obj)

theorem leavesReadings_read :
    LeavesReadings (fun _ => layout) toLine (read line) fun _ => lineReadings readings line := by
  refine LeavesReadings.of_breaksOff (·.initialized) (fun _ _ => rfl)
    (fun r h => unrefused_lineOf h _) ?_
  intro s s' e h
  refine layout.breaksOff_plain rfl (fun _ => le_rfl) (fun obj => ?_) h
  rw [DataFields.readFrom_eq]
  exact fillIn_check_run (obj.get "type") (fun type => require (type.same (.str typeName))) _ _ _

end Project

/-! ### Modules -/

namespace Publish
namespace Module

/-- The values of a module of a kind, and how they are set; those of the kind come last. -/
def layout (kind : Kind) : Layout Module where
  Others := Kind × Value × Members
  fields := markField :: fields kind
  others := othersOf kind
  lawful := lawful kind

theorem readCommon_frame {obj : Value} {m t : Module}
    (h : (commonFields.readFrom obj).run m = (.ok (), t)) : t.kind = m.kind ∧ t.type = m.type := by
  rw [DataFields.readFrom_eq] at h
  rcases fillIn_cases (length_map _).le m with ⟨vs, hvs, hrun⟩ | ⟨vs, e, later, hvs, hrun⟩
  · rw [hrun] at h
    cases h
    have hlength : vs.length = commonFields.length := by
      simpa using congrArg length hvs.symm
    have hplaces : 1 + vs.length ≤ (DataFields.values (markField :: fields m.kind) m).length := by
      simp [DataFields.values, fields, hlength]
      omega
    have hothers := ((setInOrder_common m.kind).setAll hlength.le hplaces).2
    exact ⟨congrArg Prod.fst hothers, congrArg (fun o => o.2.1) hothers⟩
  · rw [hrun] at h
    cases h

/-- The object has to be of the type, unless any kind will do. -/
def checkType (kind : Kind) (type obj : Value) : Outcome Unit :=
  if kind = .any then .ok () else do require ((← obj.get "type").same type)

/-- The readings from an object; those after the common ones want the type checked. -/
def readings (kind : Kind) (type obj : Value) : List (Outcome Value) :=
  commonFields.map (·.reading obj) ++
    ((extraFields kind).map fun f => checkType kind type obj >>= fun _ => f.reading obj) ++
      [checkType kind type obj >>= fun _ => .ok .null]

theorem kindFields_run (kind : Kind) (type obj : Value) (m : Module) :
    (do
      if kind != .any then
        (require ((← (obj.get "type" : Outcome Value)).same type) : Outcome Unit)
        (extraFields kind).readFrom obj : Edit Module Unit).run m =
    ((liftM (checkType kind type obj) : Edit Module Unit) >>= fun _ =>
      (extraFields kind).readFrom obj).run m := by
  rw [checkType]
  by_cases hkind : kind = .any
  · rw [hkind]
    rfl
  · rw [if_pos (by simpa using hkind), if_neg hkind]
    cases obj.get "type" <;> rfl

theorem leavesReadings_read :
    LeavesReadings (fun m => layout m.kind) toLine (read line) fun m =>
      lineReadings (readings m.kind m.type) line := by
  refine LeavesReadings.of_breaksOff (·.initialized) (fun _ _ => rfl)
    (fun r h => unrefused_lineOf h _) ?_
  intro s s' e h
  refine (layout s.kind).breaksOff_line rfl (fun obj => ?_)
    (fun obj => endsBy_lift (checkType s.kind s.type obj)) (fun obj => ?_) h
  · simp [fields]
  · rw [fields, map_append, zip_append (by simp), fillIn_append, bind_assoc,
      ← DataFields.readFrom_eq]
    refine run_bind_congr fun _ t ht => ?_
    obtain ⟨hkind, htype⟩ := readCommon_frame ht
    have hreadings : ((extraFields s.kind).map fun f =>
        checkType s.kind s.type obj >>= fun _ => f.reading obj) =
          ((extraFields s.kind).map (·.reading obj)).map
            fun reading => checkType s.kind s.type obj >>= fun _ => reading := by
      rw [map_map]
      rfl
    rw [hreadings, fillIn_checked_run, run_get_state_bind, hkind, htype, ← DataFields.readFrom_eq]
    exact kindFields_run s.kind s.type obj t

def checkAddress (p : Parts) : Outcome Unit :=
  match p.registryUri, p.vcsUri with
  | .null, .null => .error (.badValue "Must provide at least one uri")
  | _, _ => .ok ()

theorem lift_checkAddress (p : Parts) :
    (liftM (checkAddress p) : Edit Module Unit) = match p.registryUri, p.vcsUri with
      | .null, .null => throw (.badValue "Must provide at least one uri")
      | _, _ => pure () := by
  unfold checkAddress
  split <;> rfl

/-- The parts as they are taken: the registry has to be a known one, and in the end an address has
to be among them. -/
def partReadings (p : Parts) : List (Outcome Value) :=
  (do
    require (Registry.isKnown (← p.registry.toKey))
    return p.registry) :: p.values.tail.map .ok ++
      [checkAddress p >>= fun _ => .ok .null]

theorem leavesReadings_fill (p : Parts) :
    LeavesReadings (fun m => layout m.kind) toLine (fill p)
      fun _ => .ok (.bool true) :: partReadings p := by
  refine LeavesReadings.of_breaksOff (·.initialized) (fun _ _ => rfl)
    (fun r h => unrefused_lineOf h _) ?_
  intro s s' e h
  rw [partReadings, ← cons_append]
  refine (layout s.kind).breaksOff ?_ (endsBy_lift (checkAddress p)) ?_
  · simp [Parts.values, layout, fields, commonFields]
  · rw [← h, fill, run_modify_bind]
    cases p.registry.toKey with
    | error f => rfl
    | ok registry =>
      rw [ok_bind, run_lift_bind rfl]
      cases require (Registry.isKnown registry) with
      | error f => rfl
      | ok u =>
        rw [run_lift_bind rfl, run_modify_bind, lift_checkAddress]
        rfl

end Module
end Publish

/-! ### All kinds of records -/

/-- A filling that fails, of any kind of record in any state, keeps what it read before it failed,
the mark among it, and changes nothing else. So the record is as it was exactly when it had the mark
and these values before, and afterwards it is never refused a line for want of the mark. -/
theorem failed_filling_leaves_readings (line obj : Value) (p : Publish.Module.Parts) :
    LeavesReadings (fun _ => FileReport.layout) FileReport.toLine (FileReport.read line)
      (fun _ => lineReadings FileReport.readings line) ∧
    LeavesReadings (fun _ => Usage.layout) Usage.toLine (Usage.read line)
      (fun _ => lineReadings Usage.readings line) ∧
    LeavesReadings (fun _ => Regex.layout) Regex.toLine (Regex.readObject obj)
      (fun _ => .ok (.bool true) :: Regex.readings obj) ∧
    LeavesReadings (fun _ => Regex.layout) Regex.toLine (Regex.read line)
      (fun _ => lineReadings Regex.readings line) ∧
    LeavesReadings (fun _ => Project.layout) Project.toLine (Project.read line)
      (fun _ => lineReadings Project.readings line) ∧
    LeavesReadings (fun m => Publish.Module.layout m.kind) Publish.Module.toLine
      (Publish.Module.read line)
      (fun m => lineReadings (Publish.Module.readings m.kind m.type) line) ∧
    LeavesReadings (fun m => Publish.Module.layout m.kind) Publish.Module.toLine
      (Publish.Module.fill p) (fun _ => .ok (.bool true) :: Publish.Module.partReadings p) :=
  ⟨FileReport.leavesReadings_read line, Usage.leavesReadings_read line,
    Regex.leavesReadings_readObject obj, Regex.leavesReadings_read line,
    Project.leavesReadings_read line, Publish.Module.leavesReadings_read line,
    Publish.Module.leavesReadings_fill p⟩

def unplaced (kind : Publish.Kind) : Publish.Module.Parts :=
  { registry := .str kind.registry, name := .str "a" }

theorem failed_filling_unplaced :
    ∃ m : Publish.Module, (Publish.Module.fill (unplaced .npm)).run { kind := .npm } =
        (Except.error (.badValue "Must provide at least one uri"), m) ∧
      (∃ ws, BreaksOff (Publish.Module.layout .npm)
        (.ok (.bool true) :: Publish.Module.partReadings (unplaced .npm)) { kind := .npm }
        (.badValue "Must provide at least one uri") m (.bool true :: ws)) ∧ Unrefused m.toLine :=
  ⟨_, rfl, (failed_filling_leaves_readings .null .null (unplaced .npm)).2.2.2.2.2.2
    { kind := .npm } _ _ rfl⟩

/-- An object whose witnesses cannot be read. -/
def unwitnessed : Members := [
  ("pattern", .str "a"), ("useCount_registry_to_nModules", .object []),
  ("useCount_IStype_to_nPosts", .object []), ("semanticDifferenceWitnesses", .list [.null])]

/-- What is left of a pattern that was filled from this object. -/
def leftRegex : Regex :=
  { initialized := .bool true
    pattern := some (.str "a")
    total := some (.object [])
    posts := some (.object [])
    static := some (.dict [])
    dynamic := some (.dict [])
    inputsTested := .list [] }

/-- Records that could not be filled have been changed all the same, and have lines now. -/
theorem failed_filling_has_line :
    (∃ (r : Regex) (line : String),
      (Regex.read (.str (Json.render (.object unwitnessed)))).run {} =
        (Except.error .missingField, r) ∧
      r.initialized ≠ ({} : Regex).initialized ∧ r.toLine = .ok line) ∧
    ∃ (m : Publish.Module) (line : String),
      (Publish.Module.fill (unplaced .pypi)).run { kind := .pypi } =
        (Except.error (.badValue "Must provide at least one uri"), m) ∧
      m.initialized ≠ ({ kind := .pypi } : Publish.Module).initialized ∧ m.toLine = .ok line := by
  constructor
  · have hline : Json.ofLine (.str (Json.render (.object unwitnessed))) =
        .ok (.object unwitnessed) := by
      have hjson : Value.IsJson (.object unwitnessed) := by simp [unwitnessed]
      have hlimit : Value.Within Json.nestingLimit (.object unwitnessed) := by
        simp [unwitnessed, Json.nestingLimit]
      have htext := Json.ofText_render hjson hlimit "" "" (by simp) (by simp)
      rw [ofLine_str]
      simpa using htext
    have hrun : (Regex.read (.str (Json.render (.object unwitnessed)))).run {} =
        (Except.error .missingField, leftRegex) := by
      rw [Regex.read, run_modify_bind, run_lift_bind hline]
      rfl
    have hdata : Value.IsJson (.object (Regex.membersOf leftRegex (.str "a") (.object [])
        (.object []) (.object []) (.object []) [])) := by
      simp [Regex.membersOf, leftRegex]
    obtain ⟨line, hl⟩ := (exists_toLine_iff hdata (Json.nestingLimit - 1)).mpr (by
      simp [Regex.membersOf, leftRegex, Json.nestingLimit])
    refine ⟨leftRegex, line, hrun, by simp [leftRegex], ?_⟩
    rw [Regex.toLine_eq rfl rfl rfl rfl rfl rfl rfl, ← hl]
    rfl
  · have hdata : Value.IsJson (.object [
        ("registry", .str "pypi"), ("name", .str "a"), ("version", .str "NoVersion"),
        ("popularity", .int (-1)), ("registryUri", .str "NoRegistryUri"),
        ("vcsUri", .str "NoVCSUri"), ("gitHubStars", .int (-1)),
        ("gitHubStarsFetchTime", .int (-1)), ("tarballPath", .str "NoTarballPath"),
        ("type", .str "PypiInfo")]) := by
      simp
    have hcount : (Atom.int (-1)).Short := Value.short_digit (by decide)
    obtain ⟨line, hl⟩ := (exists_toLine_iff hdata (Json.nestingLimit - 1)).mpr (by simp [hcount])
    refine ⟨_, line, rfl, ?_, hl⟩
    change Value.bool true ≠ .bool false
    simp

end RegexCorpus
