import RegexCorpus.Schedule.Dispenser

/-!
# Running tasks

A pool of workers runs the tasks that a dispenser hands out. A task that fails does not stop the
others: its fault stands in the place of its result.

The workers share nothing, so that tasks are run here one after the other.
-/

namespace RegexCorpus.Schedule

/-- The items in the order in which they are completed. A number says which of the items that are
left is the next one; after the last number, what is left follows in its own order. -/
def completed {α : Type} : List Nat → List α → List α
  | [], xs => xs
  | k :: order, xs => match xs[k]? with
    | some x => x :: completed order (xs.eraseIdx k)
    | none => completed order xs

/-- How tasks are to be run. -/
structure Plan (m : Type → Type) (τ : Type := Int) where
  limit : Value
  units : Value
  clock : Clock τ
  /-- The rest that a worker takes before a task, so that workers do not go in step. -/
  rest : Option (m Unit) := none
  order : List Nat := []

/-- A pool without limits on its rate, which completes its tasks in the given order. -/
def Plan.unlimited {m : Type → Type} (order : List Nat) : Plan m where
  limit := .str Span.unlimited.name
  units := .str Span.unlimited.name
  clock := .still
  order

variable {m : Type → Type} [Monad m] {α β τ : Type}

def attempt (task : ExceptT Fault m α) : ExceptT Fault m (Except Fault α) := ExceptT.lift task.run

namespace Plan

def run (p : Plan m τ) (task : ExceptT Fault m α) : ExceptT Fault m (Except Fault α) := do
  match p.rest with
  | some rest => ExceptT.lift rest
  | none => pure ()
  attempt task

variable [OfNat τ 0] [IntCast τ] [Add τ] [Sub τ] [LT τ] [DecidableLT τ]

def handOut (p : Plan m τ) (tasks : List α) : Outcome (List α) := do
  let span ← Span.ofName p.units
  (Dispenser.make tasks (.ofValue p.limit) span p.clock.start).drain p.clock

def runAll (p : Plan m τ) (tasks : List (ExceptT Fault m α)) :
    ExceptT Fault m (List (Except Fault α)) := do
  let tasks ← (p.handOut tasks : Outcome _)
  tasks.mapM p.run

/-- All tasks run, and each result used as soon as it is there. -/
def forEach (p : Plan m τ) (tasks : List (ExceptT Fault m α))
    (use : Except Fault α → ExceptT Fault m β) : ExceptT Fault m (List β) := do
  let tasks ← (p.handOut tasks : Outcome _)
  (completed p.order tasks).mapM fun task => do use (← p.run task)

end Plan

/-- All tasks run at a limited rate, on a clock that stands still; the results in order. -/
def runAll (limit units : Value) (tasks : List (ExceptT Fault m α)) :
    ExceptT Fault m (List (Except Fault α)) :=
  Plan.runAll { limit, units, clock := (.still : Clock) } tasks

end RegexCorpus.Schedule
