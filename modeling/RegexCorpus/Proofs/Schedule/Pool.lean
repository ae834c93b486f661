import RegexCorpus.Proofs.Schedule.Rate
import RegexCorpus.Proofs.Value
import RegexCorpus.Schedule.Pool

/-!
# Every task is run once

Whatever the limit and the clock, a dispenser hands out all its tasks in order (`Plan.handOut_eq`):
a request may find its window used up, sleep and begin another, or count on below zero, and it
still ends in the next task. So a pool runs every task once, and a fault of a task is a result like
any other.
-/

namespace RegexCorpus
open List

namespace Schedule

/-! ### Units and limits -/

theorem Span.ofName_name (u : Span) : Span.ofName (.str u.name) = .ok u := by
  cases u <;> rfl

theorem Span.ofName_unknown {v : Value} (h : ∀ u : Span, v ≠ .str u.name) :
    Span.ofName v = .error (.badValue "Unexpected limitUnits") := by
  have hnone : [hour, minute, second, unlimited].find? (fun u => v.same (.str u.name)) = none := by
    rw [find?_eq_none]
    intro u _
    rw [Value.same_str]
    exact h u
  rw [Span.ofName, hnone]

/-- No limit, or a whole number of tasks. -/
def IsLimit (v : Value) : Prop := v = .str Span.unlimited.name ∨ ∃ n : ℤ, v = .int n

/-! ### Handing out -/

namespace Dispenser

variable {α τ : Type} {d : Dispenser α τ} {now : τ}

/-- A dispenser without a limit, or one that counts in whole numbers, be they positive or not. -/
inductive Counts (d : Dispenser α τ) : Prop
  | unlimited (hlimit : d.limit = .unlimited)
  | limited {amount k : ℤ} (hlimit : d.limit = .perWindow (.int amount))
      (hk : d.remaining = .int k)

theorem counts_make {limit : Value} (h : IsLimit limit) (tasks : List α) (span : Span) (now : τ) :
    (make tasks (.ofValue limit) span now).Counts := by
  rcases h with rfl | ⟨n, rfl⟩
  · exact .unlimited rfl
  · exact .limited rfl rfl

theorem Counts.wake (h : d.Counts) : (d.wake now).Counts := by
  rcases h with hlimit | @⟨amount, k, hlimit, hk⟩
  · exact .unlimited (wake_limit.trans hlimit)
  · cases hfresh : d.fresh with
    | true =>
      have hwhole : (d.wake now).remaining = .int amount := by
        rw [wake_of_fresh hfresh, hlimit]
        rfl
      exact .limited (wake_limit.trans hlimit) hwhole
    | false =>
      rw [wake_of_not_fresh hfresh]
      exact .limited hlimit hk

variable [OfNat τ 0] [IntCast τ] [Add τ] [Sub τ] [LT τ] [DecidableLT τ] {late : τ} {task : α}
  {tasks : List α}

theorem next_wake : (d.wake now).next now late = d.next now late := by
  unfold next
  rw [wake_of_not_fresh wake_fresh]

/-- A request ends in the next task, and the dispenser counts on. -/
theorem Counts.next (h : d.Counts) (hrest : d.rest = task :: tasks) (now late : τ) :
    (d.next now late).1.task = .ok task ∧ (d.next now late).2.rest = tasks ∧
      (d.next now late).2.Counts := by
  have hwake : (d.wake now).rest = task :: tasks := wake_rest.trans hrest
  have hcounts : (d.wake now).Counts := h.wake
  rw [← next_wake]
  rcases hcounts with hlimit | @⟨amount, k, hlimit, hk⟩
  · simp only [Dispenser.next, wake_of_not_fresh wake_fresh, hwake, handOut, hlimit]
    exact ⟨trivial, trivial, .unlimited rfl⟩
  · by_cases hzero : k = 0
    · subst hzero
      rw [next_of_zero hwake hlimit wake_fresh hk]
      exact ⟨rfl, rfl, .limited hlimit rfl⟩
    · have hk' : ((d.wake now).wake now).remaining = .int k := by
        rw [wake_of_not_fresh wake_fresh, hk]
      rw [next_of_ne_zero hwake hlimit hk' hzero]
      exact ⟨rfl, rfl, .limited (wake_limit.trans hlimit) rfl⟩

theorem Counts.take (h : d.Counts) (clock : Clock τ) (now : τ) (i : ℕ) :
    d.take clock now i d.rest.length = .ok d.rest := by
  generalize hrest : d.rest = tasks
  induction tasks generalizing d now i with
  | nil => rfl
  | cons task tasks ih =>
    obtain ⟨htask, hrest', hcounts⟩ := h.next hrest (now + clock.pause i) (clock.late i)
    have hmore := ih hcounts (d.next (now + clock.pause i) (clock.late i)).1.now (i + 1) hrest'
    rw [length_cons, Dispenser.take]
    simp only [htask, hmore, Outcome.ok_bind]
    rfl

theorem Counts.drain (h : d.Counts) (clock : Clock τ) : d.drain clock = .ok d.rest :=
  h.take clock clock.start 0

end Dispenser

/-! ### Orders of completion -/

section
variable {α β : Type}

theorem completed_perm (order : List ℕ) (xs : List α) : (completed order xs).Perm xs := by
  induction order generalizing xs with
  | nil => exact .refl xs
  | cons k order ih =>
    rw [completed]
    split
    · next x hx =>
      obtain ⟨hk, rfl⟩ := List.getElem?_eq_some_iff.1 hx
      exact ((ih (xs.eraseIdx k)).cons _).trans (getElem_cons_eraseIdx_perm hk)
    · exact ih xs

theorem completed_map (f : α → β) (order : List ℕ) (xs : List α) :
    completed order (xs.map f) = (completed order xs).map f := by
  induction order generalizing xs with
  | nil => rfl
  | cons k order ih =>
    rw [completed, completed, getElem?_map]
    cases xs[k]? with
    | none => exact ih xs
    | some x => rw [Option.map_some, map_cons, eraseIdx_map, ih]

/-- What comes of the items in the order of completion can be told in their own order. -/
theorem exists_completed_map {f : β → α} {order : List ℕ} {xs : List α} {zs : List β}
    (h : zs.map f = completed order xs) : ∃ ys, ys.map f = xs ∧ completed order ys = zs := by
  induction order generalizing xs zs with
  | nil => exact ⟨zs, h, rfl⟩
  | cons k order ih =>
    rw [completed] at h
    split at h
    · next x hx =>
      obtain ⟨hk, rfl⟩ := List.getElem?_eq_some_iff.1 hx
      obtain ⟨z, zs, rfl, hz, hzs⟩ := map_eq_cons_iff.1 h
      obtain ⟨ys, hys, rfl⟩ := ih hzs
      have hlen : ys.length = (xs.eraseIdx k).length := by rw [← hys, length_map]
      have hk' : k ≤ ys.length := by
        rw [hlen, length_eraseIdx_of_lt hk]
        omega
      refine ⟨ys.insertIdx k z, ?_, ?_⟩
      · rw [map_insertIdx, hys, hz, insertIdx_eraseIdx_getElem hk]
      · rw [completed, getElem?_insertIdx_self, if_pos hk', eraseIdx_insertIdx_self]
    · next hnone =>
      obtain ⟨ys, hys, hzs⟩ := ih h
      refine ⟨ys, hys, ?_⟩
      have hnone' : ys[k]? = none := by
        rw [← hys, getElem?_map, Option.map_eq_none_iff] at hnone
        exact hnone
      rw [completed, hnone', hzs]

/-- Items of which always the first one is the next are completed in their own order. -/
theorem completed_of_zeros {order : List ℕ} (h : ∀ k ∈ order, k = 0) (xs : List α) :
    completed order xs = xs := by
  induction order generalizing xs with
  | nil => rfl
  | cons k order ih =>
    rw [forall_mem_cons] at h
    obtain ⟨rfl, h⟩ := h
    cases xs with
    | nil => exact ih h []
    | cons x xs => exact congrArg (x :: ·) (ih h xs)

theorem exists_completed {xs ys : List α} (h : ys.Perm xs) : ∃ order, completed order xs = ys := by
  induction ys generalizing xs with
  | nil =>
    obtain rfl := h.nil_eq
    exact ⟨[], rfl⟩
  | cons y ys ih =>
    obtain ⟨k, hk, rfl⟩ := getElem_of_mem (h.subset (mem_cons_self ..))
    have hrest : ys.Perm (xs.eraseIdx k) :=
      (h.trans (getElem_cons_eraseIdx_perm hk).symm).cons_inv
    obtain ⟨order, rfl⟩ := ih hrest
    refine ⟨k :: order, ?_⟩
    rw [completed, getElem?_eq_getElem hk]

end

/-! ### Plans -/

variable {u : Span}

namespace Plan

variable {m : Type → Type} {α τ : Type} [OfNat τ 0] [IntCast τ] [Add τ] [Sub τ] [LT τ]
  [DecidableLT τ] {p : Plan m τ}

theorem handOut_eq (hlimit : IsLimit p.limit) (hunits : p.units = .str u.name) (tasks : List α) :
    p.handOut tasks = .ok tasks := by
  rw [handOut, hunits, Span.ofName_name]
  exact (Dispenser.counts_make hlimit tasks u p.clock.start).drain p.clock

theorem handOut_unknown (h : ∀ u : Span, p.units ≠ .str u.name) (tasks : List α) :
    p.handOut tasks = .error (.badValue "Unexpected limitUnits") := by
  rw [handOut, Span.ofName_unknown h]
  rfl

variable [Monad m] [LawfulMonad m] {β : Type}

theorem runAll_eq (hlimit : IsLimit p.limit) (hunits : p.units = .str u.name)
    (tasks : List (ExceptT Fault m α)) : p.runAll tasks = tasks.mapM p.run := by
  rw [runAll, handOut_eq hlimit hunits]
  exact pure_bind tasks fun tasks => tasks.mapM p.run

theorem forEach_eq (hlimit : IsLimit p.limit) (hunits : p.units = .str u.name)
    (tasks : List (ExceptT Fault m α)) (use : Except Fault α → ExceptT Fault m β) :
    p.forEach tasks use = (completed p.order tasks).mapM fun task => p.run task >>= use := by
  rw [forEach, handOut_eq hlimit hunits]
  exact pure_bind tasks fun tasks => (completed p.order tasks).mapM fun task => p.run task >>= use

end Plan

/-! ### Tasks that keep a journal -/

/-- What workers see and leave behind: their surroundings, and the numbers of the tasks that were
run, in turn. -/
structure Journal (σ : Type) where
  world : σ
  ran : List ℕ

variable {σ τ α : Type}

/-- A rest, which may change the surroundings and runs no task. -/
def Journal.rest (f : σ → σ) : StateM (Journal σ) Unit :=
  modify fun j => { j with world := f j.world }

/-- A task that notes its number whenever it is run, and ends as given. -/
def noting (i : ℕ) (o : Outcome α) : ExceptT Fault (StateM (Journal σ)) α := fun j =>
  (o, { j with ran := j.ran ++ [i] })

def tasksEnding (ends : List (Outcome α)) : List (ExceptT Fault (StateM (Journal σ)) α) :=
  ends.zipIdx.map fun e => noting e.2 e.1

def plan (limit units : Value) (clock : Clock τ) (rest : Option (σ → σ)) (order : List ℕ) :
    Plan (StateM (Journal σ)) τ where
  limit
  units
  clock
  rest := rest.map Journal.rest
  order

section
variable {p : Plan (StateM (Journal σ)) τ} {rest : Option (σ → σ)}

/-- A worker runs a task once, and a fault of the task is its result. -/
theorem run_noting (hrest : p.rest = rest.map Journal.rest) (i : ℕ) (o : Outcome α)
    (j : Journal σ) :
    (p.run (noting i o)).run j =
      (.ok o, { world := (rest.getD id) j.world, ran := j.ran ++ [i] }) := by
  rw [Plan.run, hrest]
  cases rest <;> rfl

theorem mapM_run_noting (hrest : p.rest = rest.map Journal.rest) (es : List (Outcome α × ℕ))
    (j : Journal σ) :
    ∃ w, ((es.map fun e => noting e.2 e.1).mapM p.run).run j =
      (.ok (es.map Prod.fst), { world := w, ran := j.ran ++ es.map Prod.snd }) := by
  induction es generalizing j with
  | nil => exact ⟨j.world, by simp only [map_nil, append_nil]; rfl⟩
  | cons e es ih =>
    obtain ⟨w, hw⟩ := ih { world := (rest.getD id) j.world, ran := j.ran ++ [e.2] }
    refine ⟨w, ?_⟩
    rw [map_cons, mapM_cons, run_bind, run_noting hrest]
    dsimp only
    rw [run_bind, hw, append_assoc]
    rfl

variable [OfNat τ 0] [IntCast τ] [Add τ] [Sub τ] [LT τ] [DecidableLT τ]

theorem runAll_run (hrest : p.rest = rest.map Journal.rest) (hlimit : IsLimit p.limit)
    (hunits : p.units = .str u.name) (ends : List (Outcome α)) (w : σ) :
    ∃ w', (p.runAll (tasksEnding ends)).run ⟨w, []⟩ =
      (.ok ends, { world := w', ran := List.range ends.length }) := by
  obtain ⟨w', hw'⟩ := mapM_run_noting hrest ends.zipIdx ⟨w, []⟩
  rw [zipIdx_map_fst, zipIdx_map_snd, ← range_eq_range', nil_append] at hw'
  rw [Plan.runAll_eq hlimit hunits]
  exact ⟨w', hw'⟩

theorem forEach_run (hrest : p.rest = rest.map Journal.rest) (hlimit : IsLimit p.limit)
    (hunits : p.units = .str u.name) (ends : List (Outcome α)) (w : σ) :
    ∃ w', (p.forEach (tasksEnding ends) pure).run ⟨w, []⟩ =
      (.ok ((completed p.order ends.zipIdx).map Prod.fst),
        { world := w', ran := (completed p.order ends.zipIdx).map Prod.snd }) := by
  obtain ⟨w', hw'⟩ := mapM_run_noting hrest (completed p.order ends.zipIdx) ⟨w, []⟩
  rw [Plan.forEach_eq hlimit hunits, tasksEnding, completed_map]
  simp only [bind_pure]
  exact ⟨w', hw'⟩

theorem run_unknown (hunits : ∀ u : Span, p.units ≠ .str u.name) (ends : List (Outcome α))
    (j : Journal σ) :
    (p.runAll (tasksEnding ends)).run j = (.error (.badValue "Unexpected limitUnits"), j) ∧
      (p.forEach (tasksEnding ends) pure).run j =
        (.error (.badValue "Unexpected limitUnits"), j) := by
  rw [Plan.runAll, Plan.forEach, Plan.handOut_unknown hunits]
  exact ⟨rfl, rfl⟩

end

/-! ### What comes of tasks -/

/-- What comes of tasks that end as given: with a known unit each is run once, and the results are
their ends; with an unknown one none is run. -/
structure RunsEachOnce [OfNat τ 0] [IntCast τ] [Add τ] [Sub τ] [LT τ] [DecidableLT τ]
    (limit units : Value) (clock : Clock τ) (rest : Option (σ → σ)) (ends : List (Outcome α))
    (w : σ) : Prop where
  inOrder : ∀ u : Span, units = .str u.name → ∀ order,
    ∃ w', ((plan limit units clock rest order).runAll (tasksEnding ends)).run ⟨w, []⟩ =
      (.ok ends, ⟨w', List.range ends.length⟩)
  asCompleted : ∀ u : Span, units = .str u.name → ∀ order, ∃ w' results ran,
    ((plan limit units clock rest order).forEach (tasksEnding ends) pure).run ⟨w, []⟩ =
        (.ok results, ⟨w', ran⟩) ∧
      results.Perm ends ∧ ran.Perm (List.range ends.length) ∧
      List.Forall₂ (fun result i => ends[i]? = some result) results ran
  everyOrder : ∀ u : Span, units = .str u.name → ∀ ran, ran.Perm (List.range ends.length) →
    ∃ order w' results, ((plan limit units clock rest order).forEach (tasksEnding ends) pure).run
      ⟨w, []⟩ = (.ok results, ⟨w', ran⟩)
  unknown : (∀ u : Span, units ≠ .str u.name) → ∀ order,
    ((plan limit units clock rest order).runAll (tasksEnding ends)).run ⟨w, []⟩ =
        (.error (.badValue "Unexpected limitUnits"), ⟨w, []⟩) ∧
      ((plan limit units clock rest order).forEach (tasksEnding ends) pure).run ⟨w, []⟩ =
        (.error (.badValue "Unexpected limitUnits"), ⟨w, []⟩)

/-- Whatever the limit, the units, the clock and the rests of the workers, each task is run once and
gives its result or its fault. -/
theorem runs_each_once [OfNat τ 0] [IntCast τ] [Add τ] [Sub τ] [LT τ] [DecidableLT τ]
    {limit : Value} (hlimit : IsLimit limit) (units : Value) (clock : Clock τ)
    (rest : Option (σ → σ)) (ends : List (Outcome α)) (w : σ) :
    RunsEachOnce limit units clock rest ends w where
  inOrder u hu order := runAll_run (p := plan limit units clock rest order) rfl hlimit hu ends w
  asCompleted u hu order := by
    obtain ⟨w', hw'⟩ :=
      forEach_run (p := plan limit units clock rest order) rfl hlimit hu ends w
    have hperm : (completed order ends.zipIdx).Perm ends.zipIdx := completed_perm order ends.zipIdx
    refine ⟨w', (completed order ends.zipIdx).map Prod.fst,
      (completed order ends.zipIdx).map Prod.snd, hw', ?_, ?_, ?_⟩
    · simpa only [zipIdx_map_fst] using hperm.map Prod.fst
    · simpa only [zipIdx_map_snd, ← range_eq_range'] using hperm.map Prod.snd
    · rw [forall₂_map_left_iff, forall₂_map_right_iff, forall₂_same]
      intro e he
      exact mem_zipIdx_iff_getElem?.1 (hperm.subset he)
  everyOrder u hu ran hran := by
    -- the tasks in the order of `ran`, each with its end
    obtain ⟨es, rfl, hes⟩ : ∃ es : List (Outcome α × ℕ), ran = es.map Prod.snd ∧
        es.Perm ends.zipIdx := by
      rw [range_eq_range', ← zipIdx_map_snd 0 ends] at hran
      exact (congrFun (congrFun (eq_map_comp_perm Prod.snd) ran) ends.zipIdx).mpr hran
    obtain ⟨order, rfl⟩ := exists_completed hes
    obtain ⟨w', hw'⟩ :=
      forEach_run (p := plan limit units clock rest order) rfl hlimit hu ends w
    exact ⟨order, w', _, hw'⟩
  unknown h order := run_unknown (p := plan limit units clock rest order) h ends ⟨w, []⟩

/-- Tasks of which one gives a text, and the others ask for the end of the program, say that nothing
is left, and are interrupted. -/
def failing : List (Outcome String) :=
  [.ok "a", .error (.exit (.int 3)), .error .exhausted, .error .interrupted]

/-- At minus one task a minute, the failing tasks are all run; each rest is counted. -/
theorem runs_each_once_failing :
    RunsEachOnce (.int (-1)) (.str "PER_MINUTE") (.still : Clock) (some Nat.succ) failing 0 ∧
      ((plan (.int (-1)) (.str "PER_MINUTE") (.still : Clock) (some Nat.succ) [2, 0]).forEach
        (tasksEnding failing) pure).run ⟨0, []⟩ =
      (Except.ok [.error .exhausted, .ok "a", .error (.exit (.int 3)), .error .interrupted],
        ⟨4, [2, 0, 1, 3]⟩) :=
  ⟨runs_each_once (.inr ⟨-1, rfl⟩) _ _ _ _ _, rfl⟩

end Schedule
end RegexCorpus
