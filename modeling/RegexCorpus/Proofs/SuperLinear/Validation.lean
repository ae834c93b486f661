import RegexCorpus.Proofs.Json.Line
import RegexCorpus.Proofs.Key
import RegexCorpus.Proofs.SuperLinear.Detector

/-!
# Inputs tried in a language

Responses of the tool come in one after the other. In the table of the language a timeout stays, for
its number of pumps, whatever comes after it; whether the language takes the pattern is decided by the
last response alone.
-/

namespace RegexCorpus
open List Value Outcome Text

namespace SuperLinear

/-! ### Responses -/

/-- What a response says about the pattern, the number of pumps and the time. -/
structure Response where
  valid : Bool
  pumps : Value
  timedOut : Bool

namespace Response

variable {m n : Atom}

def ofReply (reply : Reply) : Outcome Response := do
  let raw ← Json.parse (Text.trim reply.output)
  return {
    valid := (← raw.get "validPattern").holds
    pumps := ← raw.get "nPumps"
    timedOut := (← raw.get "timedOut").same (.int 1) }

/-- The response takes the pattern for valid and is about this number of pumps. -/
def isAt (n : Atom) (r : Response) : Bool :=
  r.valid && match r.pumps with
    | .atom m => m.samePart n
    | _ => false

/-- The match with this number of pumps timed out. -/
def timedOutAt (n : Atom) (r : Response) : Bool := r.isAt n && r.timedOut

theorem isAt_congr (h : m.samePart n = true) (r : Response) : r.isAt m = r.isAt n := by
  unfold isAt
  split
  · next a _ => rw [Atom.samePart_comm a m, Atom.samePart_congr h, Atom.samePart_comm n a]
  · rfl

/-- What responses leave in a table for a number of pumps: nothing if none of them was about it, else
whether one of those timed out. -/
def noted? (rs : List Response) (n : Atom) : Option Value :=
  if rs.any (isAt n) then some (.bool (rs.any (timedOutAt n))) else none

theorem timedOutAt_congr (h : m.samePart n = true) (r : Response) :
    r.timedOutAt m = r.timedOutAt n := by
  rw [timedOutAt, timedOutAt, isAt_congr h]

/-- One more response has a say in its own number of pumps only. -/
theorem noted?_append {rs : List Response} {r : Response} (hr : r.valid = true)
    (hm : r.pumps = .atom m) (n : Atom) :
    noted? (rs ++ [r]) n =
      if m.samePart n then some (.bool (rs.any (timedOutAt m) || r.timedOut)) else noted? rs n := by
  have hat : r.isAt n = m.samePart n := by simp [isAt, hr, hm]
  by_cases h : m.samePart n = true
  · have hany : rs.any (timedOutAt m) = rs.any (timedOutAt n) := by
      congr 1
      exact funext (timedOutAt_congr h)
    simp [noted?, timedOutAt, hat, h, hany]
  · have hne : m.samePart n = false := by simpa using h
    simp [noted?, timedOutAt, hat, hne]

theorem any_timedOutAt_of_not_isAt {rs : List Response} (h : rs.any (isAt n) = false) :
    rs.any (timedOutAt n) = false := by
  rw [any_eq_false] at h ⊢
  intro r hr
  simp [timedOutAt, h r hr]

end Response

def Validation.response (v : Validation) : Response :=
  { valid := v.validPattern.holds, pumps := v.pumps, timedOut := v.timedOut.holds }

def Opinion.suggestions (o : Opinion) : List (Held EvilInput) :=
  match o.evilInputs with
  | some (.items xs) => xs
  | _ => []

namespace Analysis

variable {v : Validation}

open Response

def IsTableOf (rs : List Response) (table : Value) : Prop :=
  ∃ es, table = .dict es ∧ ∀ n, Entries.find? es n = noted? rs n

theorem has_of_find?_eq {rs : List Response} {es : Entries}
    (hes : ∀ n, Entries.find? es n = noted? rs n) (n : Atom) :
    (Value.dict es).has (.atom n) = .ok (rs.any (isAt n)) := by
  change Except.ok (Entries.has es n) = _
  rw [Entries.has_eq_isSome, hes, noted?]
  cases rs.any (isAt n) <;> rfl

/-- A timeout is kept, and everything else gives way to a new response. -/
theorem isTableOf_noteTimeout {rs : List Response} {r : Response} {table table' : Value}
    (htable : IsTableOf rs table) (hr : r.valid = true)
    (h : noteTimeout table r.pumps (.bool r.timedOut) = .ok table') :
    IsTableOf (rs ++ [r]) table' := by
  obtain ⟨es, rfl, hes⟩ := htable
  unfold noteTimeout at h
  cases hm : r.pumps with
  | list xs | dict fs =>
    rw [hm] at h
    cases h
  | atom m =>
    have hentry := hes m
    rw [hm, has_of_find?_eq hes, ok_bind] at h
    have hset : table' = .dict (Entries.set m (.bool r.timedOut) es) →
        rs.any (timedOutAt m) = false → IsTableOf (rs ++ [r]) table' := by
      rintro rfl hnone
      refine ⟨_, rfl, fun n => ?_⟩
      rw [Entries.find?_set, noted?_append hr hm, hnone, Bool.false_or, hes]
    cases hat : rs.any (isAt m) with
    | false =>
      rw [hat] at h
      cases h
      exact hset rfl (any_timedOutAt_of_not_isAt hat)
    | true =>
      rw [noted?, if_pos hat] at hentry
      rw [hat, if_pos rfl, item_dict, hentry] at h
      cases htimeout : rs.any (timedOutAt m) with
      | false =>
        rw [htimeout] at h
        cases h
        exact hset rfl htimeout
      | true =>
        rw [htimeout] at h
        cases h
        refine ⟨es, rfl, fun n => ?_⟩
        rw [noted?_append hr hm, htimeout, Bool.true_or]
        split
        · next hmn => rw [← Entries.find?_congr hmn, hentry, htimeout]
        · exact hes n

structure Notes (key : String) (rs : List Response) (before after : Analysis) : Prop where
  table : ∃ table, after.timedOutBy.get key = .ok table ∧ IsTableOf rs table
  /-- The last response decides whether the language takes the pattern. -/
  valid : ∀ r, rs.getLast? = some r → after.validIn.get key = .ok (.bool r.valid)
  others : ∀ k : Atom, k ≠ .str key →
    after.timedOutBy.item (.atom k) = before.timedOutBy.item (.atom k) ∧
      after.validIn.item (.atom k) = before.validIn.item (.atom k)
  rest : after = { before with validIn := after.validIn, timedOutBy := after.timedOutBy }

/-- When the table of a language is reset, nothing is noted in it yet. -/
theorem Notes.reset {key : String} {a : Analysis} {tables : Value}
    (hput : a.timedOutBy.put (.str key) (.dict []) = .ok tables) :
    Notes key [] a { a with timedOutBy := tables } where
  table := ⟨.dict [], get_of_put hput, [], rfl, fun _ => rfl⟩
  valid := by simp
  others k hk := ⟨item_of_put hput hk, rfl⟩
  rest := rfl

theorem noteValidation_eq_ok {key : String} {a a' : Analysis}
    (h : (noteValidation key v).run a = (.ok (), a')) :
    (v.validPattern.holds = true ∧ ∃ validIn table table' timedOutBy,
      a.validIn.put (.str key) (.bool true) = .ok validIn ∧
      a.timedOutBy.get key = .ok table ∧ noteTimeout table v.pumps v.timedOut = .ok table' ∧
      a.timedOutBy.put (.str key) table' = .ok timedOutBy ∧ a' = { a with validIn, timedOutBy }) ∨
    (v.validPattern.holds = false ∧ ∃ validIn,
      a.validIn.put (.str key) (.bool false) = .ok validIn ∧ a' = { a with validIn }) := by
  unfold noteValidation at h
  obtain ⟨_, _, hget, h⟩ := run_bind_eq_ok.mp h
  cases hget
  cases hvalid : v.validPattern.holds with
  | true =>
    rw [hvalid, if_pos rfl] at h
    obtain ⟨validIn, hput, h⟩ := run_lift_bind_eq_ok.mp h
    rw [run_modify_bind] at h
    obtain ⟨table, htable, h⟩ := run_lift_bind_eq_ok.mp h
    obtain ⟨table', hnote, h⟩ := run_lift_bind_eq_ok.mp h
    obtain ⟨timedOutBy, hby, h⟩ := run_lift_bind_eq_ok.mp h
    cases h
    exact .inl ⟨rfl, validIn, table, table', timedOutBy, hput, htable, hnote, hby, rfl⟩
  | false =>
    rw [hvalid, if_neg (by decide)] at h
    obtain ⟨validIn, hput, h⟩ := run_lift_bind_eq_ok.mp h
    cases h
    exact .inr ⟨rfl, validIn, hput, rfl⟩

theorem Notes.step {key : String} {rs : List Response} {before a a' : Analysis}
    (hnotes : Notes key rs before a) (hv : v.timedOut = .bool v.response.timedOut)
    (h : (noteValidation key v).run a = (.ok (), a')) :
    Notes key (rs ++ [v.response]) before a' := by
  obtain ⟨⟨table, hget, htable⟩, -, hothers, hrest⟩ := hnotes
  have hlast (r : Response) : (rs ++ [v.response]).getLast? = some r ↔ v.response = r := by simp
  obtain ⟨hvalid, validIn, t, t', timedOutBy, hput, ht, hnote, hby, rfl⟩ |
    ⟨hvalid, validIn, hput, rfl⟩ := noteValidation_eq_ok h
  · rw [hget, Except.ok.injEq] at ht
    subst ht
    rw [hv] at hnote
    refine ⟨⟨t', get_of_put hby, isTableOf_noteTimeout htable hvalid hnote⟩, ?_, ?_, ?_⟩
    · rintro r hr
      rw [← (hlast r).mp hr, Validation.response, hvalid]
      exact get_of_put hput
    · exact fun k hk => ⟨(item_of_put hby hk).trans (hothers k hk).1,
        (item_of_put hput hk).trans (hothers k hk).2⟩
    · rw [hrest]
  · have htable' : IsTableOf (rs ++ [v.response]) table := by
      obtain ⟨es, rfl, hes⟩ := htable
      have hat (n : Atom) : v.response.isAt n = false := by
        simp [isAt, Validation.response, hvalid]
      refine ⟨es, rfl, fun n => ?_⟩
      simp [hes n, noted?, timedOutAt, hat]
    refine ⟨⟨table, hget, htable'⟩, ?_, ?_, ?_⟩
    · rintro r hr
      rw [← (hlast r).mp hr, Validation.response, hvalid]
      exact get_of_put hput
    · exact fun k hk => ⟨(hothers k hk).1, (item_of_put hput hk).trans (hothers k hk).2⟩
    · rw [hrest]

/-! ### Runs -/

/-- Between two states of an analysis and its tools, responses came in and were noted. -/
structure Hears (key : String) (a : Analysis) (t : Tools) (a' : Analysis) (t' : Tools)
    (rs : List Response) : Prop where
  replies : ∃ front, t.replies = front ++ t'.replies ∧
    List.Forall₂ (fun reply r => ofReply reply = .ok r) front rs
  queries : t'.queries.length = t.queries.length + rs.length
  notes : ∀ before earlier, Notes key earlier before a → Notes key (earlier ++ rs) before a'

namespace Hears

variable {key : String} {a a₁ a' : Analysis} {t t₁ t' : Tools} {rs rs' : List Response}

theorem refl (key : String) (a : Analysis) (t : Tools) : Hears key a t a t [] :=
  ⟨⟨[], rfl, .nil⟩, rfl, fun _ _ h => by simpa using h⟩

theorem trans (h : Hears key a t a₁ t₁ rs) (h' : Hears key a₁ t₁ a' t' rs') :
    Hears key a t a' t' (rs ++ rs') := by
  obtain ⟨⟨front, hfront, hrs⟩, hqueries, hnotes⟩ := h
  obtain ⟨⟨front', hfront', hrs'⟩, hqueries', hnotes'⟩ := h'
  refine ⟨⟨front ++ front', ?_, rel_append hrs hrs'⟩, ?_, fun before earlier hearlier => ?_⟩
  · rw [hfront, hfront', append_assoc]
  · rw [hqueries', hqueries, length_append, Nat.add_assoc]
  · rw [← append_assoc]
    exact hnotes' _ _ (hnotes _ _ hearlier)

end Hears

theorem response_of_ofReport {pattern raw : Value} {input : Held EvilInput}
    (h : Validation.ofReport pattern input raw = .ok v) {reply : Reply}
    (hraw : Json.parse (trim reply.output) = .ok raw) :
    ofReply reply = .ok v.response ∧ v.timedOut = .bool v.response.timedOut := by
  simp only [Validation.ofReport, bind_eq_ok, pure_eq_ok] at h
  obtain ⟨_, _, valid, hvalid, pumps, hpumps, _, _, timedOut, htimedOut, rfl⟩ := h
  refine ⟨?_, rfl⟩
  rw [ofReply, hraw, ok_bind, hvalid, ok_bind, hpumps, ok_bind, htimedOut]
  rfl

/-- A number of pumps is tried by asking once, which leaves the analysis as it is. -/
theorem tryPumps_eq_ok {input : EvilInput} {key : String} {pumps : Value} {a a' : Analysis}
    {t t' : Tools} (h : (tryPumps input key pumps).run a t = ((Except.ok v, a'), t')) :
    a' = a ∧ ∃ reply, t.replies = reply :: t'.replies ∧ ofReply reply = .ok v.response ∧
      v.timedOut = .bool v.response.timedOut ∧ t'.queries.length = t.queries.length + 1 := by
  unfold tryPumps at h
  rw [run_get_bind] at h
  obtain ⟨query, _, _, hlift, h⟩ := ask_bind_eq_ok.mp h
  obtain ⟨-, rfl, rfl⟩ := ask_lift_eq_ok.mp hlift
  rw [run_consult_bind] at h
  obtain ⟨raw, _, _, hlift, h⟩ := ask_bind_eq_ok.mp h
  obtain ⟨hraw, rfl, rfl⟩ := ask_lift_eq_ok.mp hlift
  obtain ⟨hreport, rfl, rfl⟩ := ask_lift_eq_ok.mp h
  obtain ⟨_, _, hreport⟩ := bind_eq_ok.mp hreport
  obtain ⟨hreply, htimedOut⟩ := response_of_ofReport hreport hraw
  refine ⟨rfl, nextReply t, ?_, hreply, htimedOut, length_append⟩
  unfold nextReply at hraw ⊢
  cases hreplies : t.replies with
  | nil =>
    -- once the replies are used up nothing is printed, and that cannot be read
    rw [hreplies] at hraw
    cases hraw
  | cons reply rest => rfl

/-- An input is tried by asking twice, and both responses are noted. -/
theorem tryInput_hears {input : EvilInput} {key : String} {a a' : Analysis} {t t' : Tools}
    (h : (tryInput key input).run a t = ((Except.ok (), a'), t')) :
    ∃ rs, rs.length = 2 ∧ Hears key a t a' t' rs := by
  unfold tryInput at h
  obtain ⟨v, _, t₁, hfirst, hafter⟩ := ask_bind_eq_ok.mp h
  obtain ⟨rfl, reply, hreplies, hreply, hv, hqueries⟩ := tryPumps_eq_ok hfirst
  rw [run_get_bind] at hafter
  obtain ⟨v', _, t₂, hsecond, hnotes⟩ := ask_bind_eq_ok.mp hafter
  obtain ⟨rfl, reply', hreplies', hreply', hv', hqueries'⟩ := tryPumps_eq_ok hsecond
  obtain ⟨_, a₁, _, hedit, hedit'⟩ := ask_bind_eq_ok.mp hnotes
  obtain ⟨hnote, rfl⟩ := ask_ofEdit_eq_ok.mp hedit
  obtain ⟨hnote', rfl⟩ := ask_ofEdit_eq_ok.mp hedit'
  refine ⟨[v.response, v'.response], rfl,
    ⟨[reply, reply'], ?_, .cons hreply (.cons hreply' .nil)⟩, ?_, fun before earlier hearlier => ?_⟩
  · rw [hreplies, hreplies']
    rfl
  · rw [hqueries', hqueries]
    rfl
  · have hstep := (hearlier.step hv hnote).step hv' hnote'
    rwa [append_assoc] at hstep

/-- Between two states of an analysis and its tools, these inputs were tried one after the other. -/
inductive Tries (key : String) : List EvilInput → Analysis → Tools → Analysis → Tools → Prop
  | nil (a : Analysis) (t : Tools) : Tries key [] a t a t
  | cons {i : EvilInput} {is : List EvilInput} {a a₁ a' : Analysis} {t t₁ t' : Tools}
      (hfirst : (tryInput key i).run a t = ((Except.ok (), a₁), t₁))
      (hrest : Tries key is a₁ t₁ a' t') : Tries key (i :: is) a t a' t'

namespace Tries

variable {key : String} {is js : List EvilInput} {a a₁ a' : Analysis} {t t₁ t' : Tools}

theorem append (h : Tries key is a t a₁ t₁) (h' : Tries key js a₁ t₁ a' t') :
    Tries key (is ++ js) a t a' t' := by
  induction h with
  | nil => exact h'
  | cons hfirst _ ih => exact .cons hfirst (ih h')

/-- Two responses come in for each input. -/
theorem hears (h : Tries key is a t a' t') :
    ∃ rs, rs.length = 2 * is.length ∧ Hears key a t a' t' rs := by
  induction h with
  | nil a t => exact ⟨[], rfl, Hears.refl key a t⟩
  | cons hfirst _ ih =>
    obtain ⟨rs, hlength, hrs⟩ := tryInput_hears hfirst
    obtain ⟨rs', hlength', hrs'⟩ := ih
    refine ⟨rs ++ rs', ?_, hrs.trans hrs'⟩
    rw [length_append, hlength, hlength', length_cons]
    omega

end Tries

/-- A loop whose steps try inputs, and do nothing else, tries the inputs of all steps in turn. -/
theorem forIn_tries {α : Type} (key : String) (inputs : α → List EvilInput) {xs : List α}
    {body : α → PUnit → Ask Analysis (ForInStep PUnit)}
    (hbody : ∀ x a t u a' t', (body x ⟨⟩).run a t = ((Except.ok u, a'), t') →
      u = .yield ⟨⟩ ∧ Tries key (inputs x) a t a' t')
    {a a' : Analysis} {t t' : Tools}
    (h : (do
      let _ ← forIn xs PUnit.unit body
      pure () : Ask Analysis Unit).run a t = ((Except.ok (), a'), t')) :
    Tries key (xs.flatMap inputs) a t a' t' := by
  obtain ⟨_, _, _, hloop, hpure⟩ := ask_bind_eq_ok.mp h
  cases hpure
  exact ask_forIn_eq_ok (R := Tries key) .nil .append inputs hbody hloop

/-- The input in a slot, if it can be tried. -/
def triable : Held EvilInput → List EvilInput
  | .record i => if i.couldParse.holds then [i] else []
  | .plain _ => []

/-- The inputs that are tried on account of the opinion in a slot: those that could be parsed, if
the opinion takes the pattern for vulnerable. -/
def trials : Held Opinion → List EvilInput
  | .record o => if o.isVuln.holds then o.suggestions.flatMap triable else []
  | .plain _ => []

theorem flatMap_triable_of_parts {o : Opinion} {suggested : Records EvilInput}
    {slots : List (Held EvilInput)} (hsuggested : o.evilInputs = some suggested)
    (hslots : suggested.parts = .ok slots) :
    slots.flatMap triable = o.suggestions.flatMap triable := by
  rw [Opinion.suggestions, hsuggested]
  cases suggested with
  | items xs =>
    cases hslots
    rfl
  | plain v =>
    obtain ⟨vs, -, hplain⟩ := bind_eq_ok.mp hslots
    cases hplain
    simp [flatMap_map, triable]

theorem tryOpinion_tries {slot : Held Opinion} {key : String} {a a' : Analysis} {t t' : Tools}
    (h : (tryOpinion key slot).run a t = ((Except.ok (), a'), t')) :
    Tries key (trials slot) a t a' t' := by
  unfold tryOpinion at h
  obtain ⟨o, _, _, hlift, hif⟩ := ask_bind_eq_ok.mp h
  obtain ⟨hslot, rfl, rfl⟩ := ask_lift_eq_ok.mp hlift
  obtain rfl := held_get_eq_ok.mp hslot
  rw [trials]
  cases hvuln : o.isVuln.holds with
  | false =>
    rw [hvuln] at hif
    cases hif
    exact .nil _ _
  | true =>
    rw [hvuln, if_pos rfl] at hif
    obtain ⟨slots, _, _, hlift', hloop⟩ := ask_bind_eq_ok.mp hif
    obtain ⟨hparts, rfl, rfl⟩ := ask_lift_eq_ok.mp hlift'
    obtain ⟨suggested, hsuggested, hslots⟩ := bind_eq_ok.mp hparts
    rw [if_pos rfl, ← flatMap_triable_of_parts (field_eq_ok.mp hsuggested) hslots]
    refine forIn_tries key triable ?_ hloop
    intro slot a t u a' t' hstep
    obtain ⟨input, _, _, hinput, hif⟩ := ask_bind_eq_ok.mp hstep
    obtain ⟨hslot, rfl, rfl⟩ := ask_lift_eq_ok.mp hinput
    obtain rfl := held_get_eq_ok.mp hslot
    rw [triable]
    cases hparse : input.couldParse.holds with
    | false =>
      rw [hparse] at hif
      cases hif
      exact ⟨rfl, .nil _ _⟩
    | true =>
      rw [hparse, if_pos rfl] at hif
      obtain ⟨_, _, _, htry, hyield⟩ := ask_bind_eq_ok.mp hif
      cases hyield
      exact ⟨rfl, .cons htry (.nil _ _)⟩

/-- To try a language is to reset its table and then to try the inputs of all opinions. -/
theorem validateIn_tries {language : String} {a a' : Analysis} {t t' : Tools}
    (h : (validateIn (.str language)).run a t = ((Except.ok (), a'), t')) :
    ∃ tables slots, a.timedOutBy.put (.str (lower language)) (.dict []) = .ok tables ∧
      a.opinions.parts = .ok slots ∧
      Tries (lower language) (slots.flatMap trials) { a with timedOutBy := tables } t
        a' t' := by
  unfold validateIn at h
  obtain ⟨_, _, _, htext, hif⟩ := ask_bind_eq_ok.mp h
  cases htext
  cases hsupported : supportedLanguages.contains (lower language) with
  | false =>
    simp only [hsupported] at hif
    cases hif
  | true =>
    simp only [hsupported, Bool.not_true, Bool.false_eq_true, if_false] at hif
    rw [run_get_bind] at hif
    obtain ⟨_, _, _, hlift, hafter⟩ := ask_bind_eq_ok.mp hif
    obtain ⟨-, rfl, rfl⟩ := ask_lift_eq_ok.mp hlift
    rw [run_get_bind] at hafter
    obtain ⟨tables, _, _, hlift', hreset⟩ := ask_bind_eq_ok.mp hafter
    obtain ⟨hput, rfl, rfl⟩ := ask_lift_eq_ok.mp hlift'
    obtain ⟨_, _, _, hmodify, hasked⟩ := ask_bind_eq_ok.mp hreset
    cases hmodify
    rw [run_get_bind] at hasked
    obtain ⟨slots, _, _, hlift'', hloop⟩ := ask_bind_eq_ok.mp hasked
    obtain ⟨hslots, rfl, rfl⟩ := ask_lift_eq_ok.mp hlift''
    refine ⟨tables, slots, hput, hslots, forIn_tries _ trials ?_ hloop⟩
    intro slot a t u a' t' hstep
    obtain ⟨_, _, _, htry, hyield⟩ := ask_bind_eq_ok.mp hstep
    cases hyield
    exact ⟨rfl, tryOpinion_tries htry⟩

theorem validateIn_eq_ok {language : String} {a a' : Analysis} {t t' : Tools}
    (h : (validateIn (.str language)).run a t = ((Except.ok (), a'), t')) :
    ∃ tables rs, a.timedOutBy.put (.str (lower language)) (.dict []) = .ok tables ∧
      Hears (lower language) { a with timedOutBy := tables } t a' t' rs := by
  obtain ⟨tables, slots, hput, -, htries⟩ := validateIn_tries h
  obtain ⟨rs, -, hrs⟩ := htries.hears
  exact ⟨tables, rs, hput, hrs⟩

/-! ### The performance that follows -/

/-- The performance that responses lead to, with `power` pumps to show polynomial growth. -/
def expected (power : Atom) (rs : List Response) : Performance :=
  if rs.getLast?.any (!·.valid) then .invalidPattern
  else if rs.any (timedOutAt (.int fewPumps)) then .exponential
  else if rs.any (timedOutAt power) then .power
  else .linear

theorem hasTimeout_of_isTableOf {rs : List Response} {table : Value} (h : IsTableOf rs table)
    (n : Atom) : hasTimeout table (.atom n) = .ok (rs.any (timedOutAt n)) := by
  obtain ⟨es, rfl, hes⟩ := h
  rw [hasTimeout, has_of_find?_eq hes, ok_bind]
  cases hat : rs.any (isAt n) with
  | false =>
    rw [any_timedOutAt_of_not_isAt hat]
    rfl
  | true =>
    rw [if_pos rfl, item_dict, hes, noted?, if_pos hat]
    rfl

section
variable {key s : String} {a : Analysis}

/-- A language that does not take the pattern has no table to look at. -/
theorem performance_of_refused (hverdict : a.verdict? key = .ok none) (hs : lower s = key) :
    a.performance (.str s) = .ok .invalidPattern := by
  have htext : (Value.str s).text = .ok s := rfl
  rw [Analysis.performance, htext, ok_bind, hs]
  simp only [hverdict]
  rfl

theorem performance_of_table {rs : List Response} {p : Atom} {table : Value}
    (hverdict : a.verdict? key = .ok (some table)) (htable : IsTableOf rs table)
    (hp : a.powerPumps = .atom p) (hs : lower s = key) :
    a.performance (.str s) = .ok (
      if rs.any (timedOutAt (.int fewPumps)) then .exponential
      else if rs.any (timedOutAt p) then .power
      else .linear) := by
  have htext : (Value.str s).text = .ok s := rfl
  have hexponential :
      hasTimeout table (.int fewPumps) = .ok (rs.any (timedOutAt (.int fewPumps))) :=
    hasTimeout_of_isTableOf htable _
  have hpower : hasTimeout table a.powerPumps = .ok (rs.any (timedOutAt p)) := by
    rw [hp]
    exact hasTimeout_of_isTableOf htable p
  rw [Analysis.performance, htext, ok_bind, hs]
  simp only [hverdict]
  rw [hexponential, ok_bind, hpower]
  cases rs.any (timedOutAt (.int fewPumps)) <;> cases rs.any (timedOutAt p) <;> rfl

theorem Notes.performance_eq {rs : List Response} {before : Analysis} {p : Atom}
    (hnotes : Notes key rs before a) (hrs : rs ≠ []) (hp : before.powerPumps = .atom p)
    (hs : lower s = key) : a.performance (.str s) = .ok (expected p rs) := by
  obtain ⟨⟨table, htable, htimeouts⟩, hvalid, -, hrest⟩ := hnotes
  have hlast := getLast?_eq_some_getLast hrs
  have hverdict : a.verdict? key = .ok (if (rs.getLast hrs).valid then some table else none) := by
    rw [verdict?, hvalid _ hlast, ok_bind, htable]
    cases (rs.getLast hrs).valid <;> rfl
  have hp' : a.powerPumps = .atom p := by rw [hrest, hp]
  simp only [expected, hlast, Option.any_some]
  cases hlastValid : (rs.getLast hrs).valid with
  | false =>
    rw [hlastValid] at hverdict
    exact performance_of_refused hverdict hs
  | true =>
    rw [hlastValid] at hverdict
    exact performance_of_table hverdict htimeouts hp' hs

end

/-- After a language was tried, the analysis reflects the responses that came in: one for each
question, in their order, and all that is known of the language follows from them. -/
structure Reflects (language : String) (power : Atom) (a : Analysis) (t : Tools) (a' : Analysis)
    (t' : Tools) (rs : List Response) : Prop where
  replies : ∃ front, t.replies = front ++ t'.replies ∧
    List.Forall₂ (fun reply r => ofReply reply = .ok r) front rs
  queries : t'.queries.length = t.queries.length + rs.length
  /-- The table has an entry for the numbers of pumps of responses that took the pattern for valid,
  and says of each whether one of those timed out. -/
  table : ∃ es, a'.timedOutBy.get (Text.lower language) = .ok (.dict es) ∧
    ∀ n, Entries.find? es n = noted? rs n
  performance : rs ≠ [] → ∀ s, Text.lower s = Text.lower language →
    a'.performance (.str s) = .ok (expected power rs)
  others : ∀ k : Atom, k ≠ .str (Text.lower language) →
    a'.timedOutBy.item (.atom k) = a.timedOutBy.item (.atom k) ∧
      a'.validIn.item (.atom k) = a.validIn.item (.atom k)

/-- Whatever a language is tried on and whatever the tools reply, the analysis ends up with what the
replies say. -/
theorem validateIn_reflects {language : String} {power : Atom} {a a' : Analysis} {t t' : Tools}
    (hpower : a.powerPumps = .atom power)
    (hrun : (validateIn (.str language)).run a t = ((Except.ok (), a'), t')) :
    ∃ rs, Reflects language power a t a' t' rs := by
  obtain ⟨tables, rs, hput, hrs⟩ := validateIn_eq_ok hrun
  have hnotes := hrs.notes a [] (Notes.reset hput)
  rw [nil_append] at hnotes
  obtain ⟨_, htable, es, rfl, hes⟩ := hnotes.table
  exact ⟨rs, {
    replies := hrs.replies
    queries := hrs.queries
    table := ⟨es, htable, hes⟩
    performance := fun hne s hs => hnotes.performance_eq hne hpower hs
    others := hnotes.others }⟩

def ending : EvilInput :=
  { couldParse := .bool true, pumpPairs := .items [], suffix := .str "b" }

/-- The opinion that a pattern is vulnerable to that input. -/
def suspicion : Opinion :=
  { isVuln := .bool true, evilInputs := some (.items [.record ending]) }

/-- A nested quantifier that one detector suspects. -/
def suspect : Analysis :=
  { regex := .record { pattern := some (.str "(a+)+$") }, opinions := .items [.record suspicion] }

/-- The report on a match that timed out. -/
def timeoutReport (pumps : Int) : Value :=
  .object [("language", .str "python"), ("validPattern", .int 1), ("nPumps", .int pumps),
    ("timeLimit", .int 5), ("timedOut", .int 1)]

/-- A tool with which two matches time out. -/
def timeouts : Tools :=
  { replies := [
    { output := Json.render (timeoutReport fewPumps) },
    { output := Json.render (timeoutReport manyPumps) }] }

theorem validateIn_reflects_suspect :
    ∃ a' t' rs, (validateIn (.str "Python")).run suspect timeouts = ((Except.ok (), a'), t') ∧
      rs ≠ [] ∧ Reflects "Python" (.int manyPumps) suspect timeouts a' t' rs := by
  have hends : ((validateIn (.str "Python")).run suspect timeouts).1.1.isOk = true ∧
      ((validateIn (.str "Python")).run suspect timeouts).2.queries.length = 2 := by
    decide +kernel
  generalize hrun : (validateIn (.str "Python")).run suspect timeouts = r at hends
  obtain ⟨⟨o, a'⟩, t'⟩ := r
  obtain ⟨_, rfl⟩ := exists_of_isOk hends.1
  obtain ⟨rs, hrs⟩ := validateIn_reflects rfl hrun
  refine ⟨a', t', rs, rfl, ?_, hrs⟩
  rintro rfl
  cases hends.2.symm.trans hrs.queries

end Analysis
end SuperLinear
end RegexCorpus
