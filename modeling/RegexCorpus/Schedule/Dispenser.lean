import RegexCorpus.Value.Access

/-!
# Handing out tasks at a limited rate

A `Dispenser` hands out tasks one by one. Time is cut into windows, and in each window only so many
tasks are handed out: a request that finds the window used up sleeps until it is over, and begins
the next.

Points in time and the lengths of sleeps are of a type `τ`, which counts in seconds: whole ones, unless
said otherwise.
-/

namespace RegexCorpus.Schedule

/-- How many tasks may be handed out in a window. The amount should be a number; with other data the
first request fails. -/
inductive Limit where
  | unlimited
  | perWindow (amount : Value)
  deriving Repr

/-- The unit in which a limit is given. -/
inductive Span where
  | unlimited
  | second
  | minute
  | hour
  deriving DecidableEq, Repr

namespace Span

def seconds : Span → Int
  | unlimited => 0
  | second => 1
  | minute => 60
  | hour => 60 * 60

def name : Span → String
  | unlimited => "NO_RATE_LIMIT"
  | second => "PER_SECOND"
  | minute => "PER_MINUTE"
  | hour => "PER_HOUR"

def ofName (v : Value) : Outcome Span :=
  match [hour, minute, second, unlimited].find? fun u => v.same (.str u.name) with
  | some u => .ok u
  | none => .error (.badValue "Unexpected limitUnits")

end Span

/-- The tasks that are left, and the state of the current window. -/
structure Dispenser (α : Type) (τ : Type := Int) where
  rest : List α
  limit : Limit
  span : Span
  /-- The number of tasks handed out. -/
  index : Nat := 0
  /-- No request has been made. -/
  fresh : Bool := true
  began : τ
  /-- How many tasks the window still has; it counts on below zero for a limit that is not positive. -/
  remaining : Value
  deriving Repr

/-- A clock as requests see it: the time at which it starts, and the time that passes before each
request and, a sleep apart, before a window that the request begins. -/
structure Clock (τ : Type := Int) where
  start : τ
  pause : Nat → τ
  late : Nat → τ

/-- A clock that stands still, sleeps apart. -/
def Clock.still {τ : Type} [OfNat τ 0] : Clock τ where
  start := 0
  pause _ := 0
  late _ := 0

/-- What came of a request: a task, unless all have been handed out; when; and after what sleep. -/
structure Emission (α : Type) (τ : Type := Int) where
  task : Outcome α
  now : τ
  sleep : Option τ := none

namespace Limit

def ofValue (v : Value) : Limit :=
  if v.same (.str Span.unlimited.name) then unlimited else perWindow v

/-- The tasks of a new window. -/
def allowance : Limit → Value
  | unlimited => .str Span.unlimited.name
  | perWindow amount => amount

end Limit

namespace Dispenser

variable {α τ : Type}

/-- A dispenser set up at a time. -/
def make (tasks : List α) (limit : Limit) (span : Span) (now : τ) : Dispenser α τ :=
  { rest := tasks, limit, span, began := now, remaining := limit.allowance }

def beginWindow (d : Dispenser α τ) (now : τ) : Dispenser α τ :=
  { d with began := now, remaining := d.limit.allowance }

/-- The first request begins a window. -/
def wake (d : Dispenser α τ) (now : τ) : Dispenser α τ :=
  if d.fresh then { d.beginWindow now with fresh := false } else d

/-- One task taken from the window. -/
def spend (d : Dispenser α τ) : Outcome (Dispenser α τ) := do
  return { d with remaining := ← d.remaining.add (.int (-1)) }

variable [OfNat τ 0] [IntCast τ] [Add τ] [Sub τ] [LT τ] [DecidableLT τ]

def secondsLeft (d : Dispenser α τ) (now : τ) : τ := (d.span.seconds : τ) - (now - d.began)

/-- A window that has tasks left: the next one is begun when the current one is used up, after a
sleep if it is not over. The clock may move on by some time of its own before the next one begins. -/
def refresh (d : Dispenser α τ) (now late : τ) : Option τ × τ × Dispenser α τ :=
  if d.remaining.same (.int 0) then
    let left := d.secondsLeft now
    if 0 < left then (some left, now + left + late, d.beginWindow (now + left + late))
    else (none, now + late, d.beginWindow (now + late))
  else (none, now, d)

def handOut (d : Dispenser α τ) (task : α) (now late : τ) : Emission α τ × Dispenser α τ :=
  match d.limit with
  | .unlimited => ({ task := .ok task, now }, d)
  | .perWindow _ =>
    let (sleep, now, d) := d.refresh now late
    match d.spend with
    | .ok d => ({ task := .ok task, now, sleep }, d)
    | .error f => ({ task := .error f, now, sleep }, d)

/-- A request made at a time. -/
def next (d : Dispenser α τ) (now : τ) (late : τ := 0) : Emission α τ × Dispenser α τ :=
  let d := d.wake now
  match d.rest with
  | [] => ({ task := .error .exhausted, now }, d)
  | task :: rest => { d with rest, index := d.index + 1 }.handOut task now late

/-- The tasks handed out by `n` requests from number `i` on, each made after the one before has been
answered. -/
def take (d : Dispenser α τ) (clock : Clock τ) (now : τ) (i : Nat) : Nat → Outcome (List α)
  | 0 => .ok []
  | n + 1 => do
    let (e, d) := d.next (now + clock.pause i) (clock.late i)
    let task ← e.task
    return task :: (← d.take clock e.now (i + 1) n)

/-- All tasks that are left, as they are handed out. -/
def drain (d : Dispenser α τ) (clock : Clock τ) : Outcome (List α) :=
  d.take clock clock.start 0 d.rest.length

end Dispenser
end RegexCorpus.Schedule
