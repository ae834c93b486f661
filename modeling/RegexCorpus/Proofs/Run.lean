import RegexCorpus.Host.Basic
import Mathlib.Data.List.Forall2

/-!
# Runs that succeed

What a successful run says about its parts. A computation in sequence succeeds when its first half
does and then its second half; a list of computations succeeds when each of them does, item by item;
a command succeeds when its answer says so.
-/

namespace RegexCorpus
open List

variable {α β σ : Type}
variable {x o : Outcome α} {f : α → Outcome β} {b : β} {a : α} {xs : List α} {ys : List β}
  {R : α → β → Prop} {s s' : σ} {t t' : Tools}

/-! ### Outcomes -/

theorem Outcome.ok_bind (a : α) (f : α → Outcome β) : (Except.ok a >>= f : Outcome β) = f a := rfl

theorem Outcome.bind_eq_ok : (x >>= f) = .ok b ↔ ∃ a, x = .ok a ∧ f a = .ok b := by
  cases x <;> simp [bind, Except.bind]

theorem Outcome.bind_eq_error {e : Fault} :
    (x >>= f) = .error e ↔ x = .error e ∨ ∃ a, x = .ok a ∧ f a = .error e := by
  cases x <;> simp [bind, Except.bind]

theorem Outcome.check_bind_eq_ok {x : Outcome Unit} {f : Unit → Outcome β} :
    (x >>= f) = .ok b ↔ x = .ok () ∧ f () = .ok b := by
  cases x <;> simp [bind, Except.bind]

theorem Outcome.pure_eq_ok {b : α} : (pure a : Outcome α) = .ok b ↔ a = b := by
  simp [pure, Except.pure]

theorem Outcome.exists_of_isOk (h : x.isOk = true) : ∃ a, x = .ok a := by
  cases x with
  | error e => cases h
  | ok a => exact ⟨a, rfl⟩

theorem require_eq_ok {p : Bool} {u : Unit} : require p = .ok u ↔ p = true := by
  cases p <;> simp [require]

theorem field_eq_ok {f : Option α} : field f = .ok a ↔ f = some a := by
  cases f <;> simp [field]

theorem held_get_eq_ok {slot : Held α} : slot.get = .ok a ↔ slot = .record a := by
  cases slot <;> simp [Held.get]

theorem items_record_injective :
    Function.Injective fun as : List α => Records.items (as.map Held.record) := by
  have hrecord : Function.Injective (Held.record : α → Held α) := fun _ _ => Held.record.inj
  exact fun _ _ h => hrecord.list_map (Records.items.inj h)

theorem mapM_eq_ok : xs.mapM f = .ok ys ↔ List.Forall₂ (fun x y => f x = .ok y) xs ys := by
  induction xs generalizing ys with
  | nil => rw [mapM_nil, Outcome.pure_eq_ok, forall₂_nil_left_iff, eq_comm]
  | cons x xs ih =>
    simp only [mapM_cons, Outcome.bind_eq_ok, Outcome.pure_eq_ok, ih, forall₂_cons_left_iff]
    constructor
    · rintro ⟨y, hy, ys, hys, rfl⟩
      exact ⟨y, ys, hy, hys, rfl⟩
    · rintro ⟨y, ys, hy, hys, rfl⟩
      exact ⟨y, hy, ys, hys, rfl⟩

theorem exists_of_mapM_eq_error {e : Fault} (h : xs.mapM f = .error e) :
    ∃ x ∈ xs, f x = .error e := by
  induction xs with
  | nil => cases h
  | cons x xs ih =>
    rw [mapM_cons, Outcome.bind_eq_error] at h
    rcases h with hx | ⟨y, -, h⟩
    · exact ⟨x, mem_cons_self, hx⟩
    · obtain hxs | ⟨ys, -, h⟩ := Outcome.bind_eq_error.mp h
      · obtain ⟨z, hz, hfz⟩ := ih hxs
        exact ⟨z, mem_cons_of_mem x hz, hfz⟩
      · cases h

theorem filterM_eq_ok {p : α → Outcome Bool} {q : α → Bool} (h : ∀ x ∈ xs, p x = .ok (q x)) :
    xs.filterM p = .ok (xs.filter q) := by
  have haux (kept : List α) :
      filterAuxM p xs kept = .ok ((xs.filter q).reverse ++ kept) := by
    induction xs generalizing kept with
    | nil => rfl
    | cons x xs ih =>
      rw [forall_mem_cons] at h
      rw [filterAuxM, h.1, Outcome.ok_bind, ih h.2]
      cases hx : q x <;> simp [hx]
  rw [filterM, haux, Outcome.ok_bind, append_nil, reverse_reverse]
  rfl

theorem mapM_getElem? (h : xs.mapM f = .ok ys) {k : ℕ} {x : α} {y : β} (hx : xs[k]? = some x)
    (hy : ys[k]? = some y) : f x = .ok y := by
  obtain ⟨hk, rfl⟩ := List.getElem?_eq_some_iff.1 hx
  obtain ⟨hk', rfl⟩ := List.getElem?_eq_some_iff.1 hy
  exact (mapM_eq_ok.1 h).get hk hk'

/-! ### Lists that correspond -/

theorem forall₂_of_forall_exists (h : ∀ x ∈ xs, ∃ y, R x y) : ∃ ys, List.Forall₂ R xs ys := by
  induction xs with
  | nil => exact ⟨[], .nil⟩
  | cons x xs ih =>
    obtain ⟨y, hy⟩ := h x (by simp)
    obtain ⟨ys, hys⟩ := ih fun x hx => h x (by simp [hx])
    exact ⟨y :: ys, .cons hy hys⟩

theorem exists_mapM_eq_ok (h : ∀ x ∈ xs, ∃ y, f x = .ok y) : ∃ ys, xs.mapM f = .ok ys := by
  obtain ⟨ys, hys⟩ := forall₂_of_forall_exists h
  exact ⟨ys, mapM_eq_ok.mpr hys⟩

theorem exists_of_mem_right (h : List.Forall₂ R xs ys) {y : β} (hy : y ∈ ys) : ∃ x ∈ xs, R x y := by
  induction h with
  | nil => simp at hy
  | @cons x z xs zs hxz _ ih =>
    obtain rfl | hy := mem_cons.mp hy
    · exact ⟨x, by simp, hxz⟩
    · obtain ⟨x, hx, hR⟩ := ih hy
      exact ⟨x, by simp [hx], hR⟩

theorem exists_getElem?_right (h : List.Forall₂ R xs ys) {i : ℕ} {x : α} (hi : xs[i]? = some x) :
    ∃ y, ys[i]? = some y ∧ R x y := by
  obtain ⟨hlt, rfl⟩ := List.getElem?_eq_some_iff.mp hi
  have hlt' : i < ys.length := h.length_eq ▸ hlt
  exact ⟨_, getElem?_eq_getElem hlt', h.get hlt hlt'⟩

theorem map_eq_map_of_forall₂ {γ : Type} {f : α → γ} {g : β → γ} (hR : ∀ x y, R x y → f x = g y)
    (h : List.Forall₂ R xs ys) : xs.map f = ys.map g := by
  induction h with
  | nil => rfl
  | cons hxy _ ih => rw [map_cons, map_cons, hR _ _ hxy, ih]

/-- A correspondence by way of a function goes through a list between the two. -/
theorem forall₂_exists_map_iff {γ : Type} {f : β → γ} {zs : List γ} :
    List.Forall₂ (fun x z => ∃ y, R x y ∧ f y = z) xs zs ↔
      ∃ ys, List.Forall₂ R xs ys ∧ ys.map f = zs := by
  constructor
  · intro h
    induction h with
    | nil => exact ⟨[], .nil, rfl⟩
    | cons hxz _ ih =>
      obtain ⟨y, hxy, rfl⟩ := hxz
      obtain ⟨ys, hys, rfl⟩ := ih
      exact ⟨y :: ys, .cons hxy hys, rfl⟩
  · rintro ⟨ys, hys, rfl⟩
    exact forall₂_map_right_iff.mpr (hys.imp fun _ y hxy => ⟨y, hxy, rfl⟩)

/-! ### Computations with a state -/

/-- A sequence goes on from where its first half ended, unless that failed. -/
theorem run_bind (x : ExceptT Fault (StateM σ) α) (f : α → ExceptT Fault (StateM σ) β) (s : σ) :
    (x >>= f).run s =
      match x.run s with
      | (.ok a, t) => (f a).run t
      | (.error e, t) => (Except.error e, t) := by
  have h : (x >>= f).run s = ExceptT.bindCont f (x.run s).1 (x.run s).2 := rfl
  rw [h]
  rcases x.run s with ⟨_ | _, t⟩ <;> rfl

theorem run_bind_of_ok {x : ExceptT Fault (StateM σ) α} {t : σ} (h : x.run s = (.ok a, t))
    (f : α → ExceptT Fault (StateM σ) β) : (x >>= f).run s = (f a).run t := by
  rw [run_bind, h]

theorem run_bind_eq_ok {x : ExceptT Fault (StateM σ) α} {f : α → ExceptT Fault (StateM σ) β} :
    (x >>= f).run s = (.ok b, s') ↔ ∃ a t, x.run s = (.ok a, t) ∧ (f a).run t = (.ok b, s') := by
  rw [run_bind]
  rcases x.run s with ⟨e | a, t⟩
  · constructor
    · intro h
      cases h
    · rintro ⟨_, _, h, -⟩
      cases h
  · constructor
    · intro h
      exact ⟨a, t, rfl, h⟩
    · rintro ⟨_, _, h, h'⟩
      cases h
      exact h'

theorem run_modify_bind (g : σ → σ) (f : Unit → ExceptT Fault (StateM σ) β) (s : σ) :
    ((modify g : ExceptT Fault (StateM σ) Unit) >>= f).run s = (f ()).run (g s) := rfl

theorem run_set_bind (s' : σ) (f : PUnit → ExceptT Fault (StateM σ) β) (s : σ) :
    ((set s' : ExceptT Fault (StateM σ) PUnit) >>= f).run s = (f ⟨⟩).run s' := rfl

theorem run_get_state_bind (f : σ → ExceptT Fault (StateM σ) β) (s : σ) :
    ((get : ExceptT Fault (StateM σ) σ) >>= f).run s = (f s).run s := rfl

theorem run_lift_bind (h : o = .ok a) (f : α → ExceptT Fault (StateM σ) β) (s : σ) :
    ((liftM o : ExceptT Fault (StateM σ) α) >>= f).run s = (f a).run s := by
  rw [h]
  rfl

theorem run_lift_eq_ok :
    (liftM o : ExceptT Fault (StateM σ) α).run s = (.ok a, s') ↔ o = .ok a ∧ s = s' := by
  change (o, s) = (.ok a, s') ↔ _
  rw [Prod.mk.injEq]

theorem run_lift_bind_eq_ok {f : α → ExceptT Fault (StateM σ) β} :
    ((liftM o : ExceptT Fault (StateM σ) α) >>= f).run s = (.ok b, s') ↔
      ∃ a, o = .ok a ∧ (f a).run s = (.ok b, s') := by
  rw [run_bind_eq_ok]
  constructor
  · rintro ⟨a, t, hlift, h⟩
    obtain ⟨ho, rfl⟩ := run_lift_eq_ok.mp hlift
    exact ⟨a, ho, h⟩
  · rintro ⟨a, ho, h⟩
    exact ⟨a, s, run_lift_eq_ok.mpr ⟨ho, rfl⟩, h⟩

theorem run_pure_eq_ok {b : α} :
    (pure a : ExceptT Fault (StateM σ) α).run s = (.ok b, s') ↔ a = b ∧ s = s' := by
  change (Except.ok a, s) = (.ok b, s') ↔ _
  rw [Prod.mk.injEq, Except.ok.injEq]

/-- A loop that ends well ran its body on each item, from some state. -/
theorem run_mapM_eq_ok {f : α → ExceptT Fault (StateM σ) β}
    (h : (xs.mapM f).run s = (.ok ys, s')) :
    List.Forall₂ (fun x y => ∃ t t', (f x).run t = (.ok y, t')) xs ys := by
  induction xs generalizing s ys with
  | nil =>
    cases h
    exact .nil
  | cons x xs ih =>
    rw [mapM_cons] at h
    obtain ⟨y, t, hfirst, h⟩ := run_bind_eq_ok.1 h
    obtain ⟨zs, t', hrest, hend⟩ := run_bind_eq_ok.1 h
    obtain ⟨rfl, rfl⟩ := run_pure_eq_ok.1 hend
    exact .cons ⟨s, t, hfirst⟩ (ih hrest)

theorem run_tryCatch (x : ExceptT Fault (StateM σ) α) (g : Fault → ExceptT Fault (StateM σ) α)
    (s : σ) :
    (tryCatch x g).run s =
      match x.run s with
      | (.ok a, t) => (Except.ok a, t)
      | (.error e, t) => (g e).run t := by
  rw [ExceptT.run_tryCatch]
  have h (k : Outcome α → StateM σ (Outcome α)) :
      (x.run >>= k) s = k (x.run s).1 (x.run s).2 := rfl
  rw [h]
  rcases x.run s with ⟨_ | _, t⟩ <;> rfl

/-! ### Edits that consult a tool -/

theorem ask_bind_eq_ok {x : Ask σ α} {f : α → Ask σ β} :
    (x >>= f).run s t = ((Except.ok b, s'), t') ↔
      ∃ a s₁ t₁, x.run s t = ((Except.ok a, s₁), t₁) ∧
        (f a).run s₁ t₁ = ((Except.ok b, s'), t') := by
  have h : (x >>= f).run s t =
      ExceptT.bindCont f (x.run s t).1.1 (x.run s t).1.2 (x.run s t).2 := rfl
  rw [h]
  rcases x.run s t with ⟨⟨e | a, s₁⟩, t₁⟩
  · constructor
    · intro h
      cases h
    · rintro ⟨_, _, _, h, -⟩
      cases h
  · constructor
    · intro h
      exact ⟨a, s₁, t₁, rfl, h⟩
    · rintro ⟨_, _, _, h, h'⟩
      cases h
      exact h'

theorem ask_lift_eq_ok :
    (liftM o : Ask σ α).run s t = ((Except.ok a, s'), t') ↔ o = .ok a ∧ s = s' ∧ t = t' := by
  change ((o, s), t) = ((Except.ok a, s'), t') ↔ _
  rw [Prod.mk.injEq, Prod.mk.injEq, and_assoc]

theorem ask_ofEdit_eq_ok {e : Edit σ α} :
    (Ask.ofEdit e).run s t = ((Except.ok a, s'), t') ↔ e.run s = (.ok a, s') ∧ t = t' := by
  change (e.run s, t) = ((Except.ok a, s'), t') ↔ _
  rw [Prod.mk.injEq]

theorem ask_tryCatch (x : Ask σ α) (g : Fault → Ask σ α) (s : σ) (t : Tools) :
    (tryCatch x g).run s t =
      match x.run s t with
      | ((.ok a, s'), t') => ((Except.ok a, s'), t')
      | ((.error e, s'), t') => (g e).run s' t' := by
  rw [ExceptT.run_tryCatch]
  have h (k : Outcome α → StateT σ (StateM Tools) (Outcome α)) :
      (x.run >>= k) s t = k (x.run s t).1.1 (x.run s t).1.2 (x.run s t).2 := rfl
  rw [h]
  rcases x.run s t with ⟨⟨_ | _, s'⟩, t'⟩ <;> rfl

/-- What every step of a loop does with its own items is done by the whole loop with the items of
all steps, one after the other. -/
theorem ask_forIn_eq_ok {R : List β → σ → Tools → σ → Tools → Prop} (hnil : ∀ s t, R [] s t s t)
    (happend : ∀ {is js s t s₁ t₁ s' t'}, R is s t s₁ t₁ → R js s₁ t₁ s' t' → R (is ++ js) s t s' t')
    (items : α → List β) {body : α → PUnit → Ask σ (ForInStep PUnit)}
    (hbody : ∀ x s t u s' t', (body x ⟨⟩).run s t = ((Except.ok u, s'), t') → u = .yield ⟨⟩ ∧ R (items x) s t s' t')
    {u : PUnit} (h : (forIn xs PUnit.unit body).run s t = ((Except.ok u, s'), t')) :
    R (xs.flatMap items) s t s' t' := by
  induction xs generalizing s t with
  | nil =>
    cases h
    exact hnil _ _
  | cons x xs ih =>
    rw [forIn_cons] at h
    obtain ⟨step, s₁, t₁, hstep, h⟩ := ask_bind_eq_ok.mp h
    obtain ⟨rfl, hfirst⟩ := hbody x s t step s₁ t₁ hstep
    exact happend hfirst (ih h)

/-! ### Commands -/

def Host.nextAnswer (h : Host) : Answer := h.answers.head?.getD h.lastAnswer

def Host.afterRun (h : Host) (command : Command) : Host :=
  { h with
    runs := h.runs ++ [{ command, javaHome := h.javaHome, cwd := h.cwd }]
    answers := h.answers.tail }

def Host.answersFor (h : Host) (n : ℕ) : List Answer :=
  (List.range n).map fun i => h.answers[i]?.getD h.lastAnswer

theorem Host.answersFor_succ {h h' : Host} (hanswers : h'.answers = h.answers.tail)
    (hlast : h'.lastAnswer = h.lastAnswer) (n : ℕ) :
    h.answersFor (n + 1) = h.nextAnswer :: h'.answersFor n := by
  rw [answersFor, answersFor, range_succ_eq_map, map_cons, map_map, nextAnswer,
    hanswers, hlast, head?_eq_getElem?]
  refine congrArg _ (map_congr_left fun i _ => ?_)
  rw [Function.comp_apply, getElem?_tail]

theorem Host.nextAnswer_mem_answersFor (h : Host) (n : ℕ) :
    h.nextAnswer ∈ h.answersFor (n + 1) := by
  rw [answersFor, nextAnswer, head?_eq_getElem?]
  exact mem_map_of_mem (mem_range.mpr n.succ_pos)

/-- A command ends as its answer says. -/
theorem execute_run (command : Command) (h : Host) :
    (Act.execute command).run h =
      match h.nextAnswer with
      | .done code output => (Except.ok { code, output }, h.afterRun command)
      | .timeout => (Except.error .commandTimeout, h.afterRun command)
      | .interrupted => (Except.error .interrupted, h.afterRun command)
      | .missing => (Except.error .noSuchFile, h.afterRun command) := by
  have hrun : (Act.execute command).run h = (match h.nextAnswer with
      | .done code output => (pure { code, output } : Act Reply)
      | .timeout => throw Fault.commandTimeout
      | .interrupted => throw Fault.interrupted
      | .missing => throw Fault.noSuchFile).run (h.afterRun command) := rfl
  rw [hrun]
  cases h.nextAnswer <;> rfl

end RegexCorpus
