import RegexCorpus.Schedule.Dispenser
import Mathlib.Algebra.Order.Ring.Cast
import Mathlib.Data.Finset.Max
import Mathlib.Data.Nat.Cast.Order.Ring
import Mathlib.Order.Interval.Finset.Nat
import Mathlib.Tactic.Abel
import Mathlib.Tactic.Linarith

/-!
# The rate at which tasks are handed out

A `Session` is a dispenser of `rate` tasks a window that is asked again and again, on a clock that
moves as it likes: before a request, and before a new window begins. A window is not begun when the
one before is over, but when its tasks are used up, and so it may be a stale one that hands out its
last tasks. `Session.keepsRate` says what holds all the same:

* a window has `rate` tasks, and windows begin at least their length apart (`Session.apart`);
* so the tasks come no faster than `rate` a window, counted from the first request, and in any
  stretch as long as a window there are at most twice as many (`Session.crowd`);
* a sleep is for a window that is used up and not over, and no longer than a window.

The invariant is `Session.window`: it says of the state after request `n` which request began its
window and what the window has left. Clocks are in any ordered ring.
-/

namespace RegexCorpus
open Value List

theorem Value.int_inj {m n : ℤ} : Value.int m = .int n ↔ m = n := by
  simp [Value.int]

@[simp] theorem Value.same_int_zero (k : ℤ) : (Value.int k).same (.int 0) = decide (k = 0) := by
  simp only [Value.same, Atom.same, Atom.toNumber?, Atom.compareNumbers?]
  rcases lt_trichotomy k 0 with h | h | h
  · simp [compare, compareOfLessAndEq, h, h.ne]
  · simp [compare, compareOfLessAndEq, h]
  · simp [compare, compareOfLessAndEq, h.not_gt, h.ne']

namespace Schedule
namespace Dispenser

variable {α τ : Type} {d : Dispenser α τ} {now : τ}

@[simp] theorem wake_rest : (d.wake now).rest = d.rest := by
  unfold wake; split_ifs <;> rfl

@[simp] theorem wake_limit : (d.wake now).limit = d.limit := by
  unfold wake; split_ifs <;> rfl

@[simp] theorem wake_span : (d.wake now).span = d.span := by
  unfold wake; split_ifs <;> rfl

@[simp] theorem wake_fresh : (d.wake now).fresh = false := by
  unfold wake; split_ifs with h
  · rfl
  · simpa using h

theorem wake_of_fresh (h : d.fresh = true) :
    d.wake now = { d with began := now, remaining := d.limit.allowance, fresh := false } := by
  simp [wake, beginWindow, h]

theorem wake_of_not_fresh (h : d.fresh = false) : d.wake now = d := by
  simp [wake, h]

/-- A window of `rate` tasks, of which some are left. -/
structure Within (d : Dispenser α τ) (rate : ℕ) : Prop where
  limit : d.limit = .perWindow (.int rate)
  remaining : ∃ k : ℕ, k ≤ rate ∧ d.remaining = .int k

theorem Within.wake {rate : ℕ} (h : d.Within rate) : (d.wake now).Within rate := by
  refine ⟨wake_limit.trans h.limit, ?_⟩
  cases hfresh : d.fresh with
  | true => exact ⟨rate, le_rfl, by rw [wake_of_fresh hfresh, h.limit]; rfl⟩
  | false => rw [wake_of_not_fresh hfresh]; exact h.remaining

section Request

variable [OfNat τ 0] [IntCast τ] [Add τ] [Sub τ] [LT τ] [DecidableLT τ] {late : τ} {task : α}
  {tasks : List α} {amount k : ℤ}
variable {rate : ℕ} {e : Emission α τ} {d' : Dispenser α τ}

theorem next_of_nil (hrest : d.rest = []) :
    d.next now late = ({ task := .error .exhausted, now }, d.wake now) := by
  simp [next, hrest]

theorem next_of_ne_zero (hrest : d.rest = task :: tasks)
    (hlimit : d.limit = .perWindow (.int amount)) (hk : (d.wake now).remaining = .int k)
    (hne : k ≠ 0) :
    d.next now late = ({ task := .ok task, now },
      { d.wake now with
        rest := tasks, index := (d.wake now).index + 1, remaining := .int (k - 1) }) := by
  simp only [next, wake_rest, hrest, handOut, wake_limit, hlimit, refresh, hk, same_int_zero,
    hne, decide_false, Bool.false_eq_true, if_false]
  rfl

/-- The sleep of a request to a window that is used up. -/
def sleepAt (d : Dispenser α τ) (now : τ) : Option τ :=
  if 0 < d.secondsLeft now then some (d.secondsLeft now) else none

/-- When a window begins, if the one before is used up. -/
def beginsAt (d : Dispenser α τ) (now late : τ) : τ :=
  if 0 < d.secondsLeft now then now + d.secondsLeft now + late else now + late

theorem refresh_of_zero (hzero : d.remaining = .int 0) :
    d.refresh now late =
      (d.sleepAt now, d.beginsAt now late, d.beginWindow (d.beginsAt now late)) := by
  by_cases h : 0 < d.secondsLeft now <;> simp [refresh, hzero, sleepAt, beginsAt, h]

/-- A request to a window that is used up. -/
theorem next_of_zero (hrest : d.rest = task :: tasks)
    (hlimit : d.limit = .perWindow (.int amount)) (hfresh : d.fresh = false)
    (hzero : d.remaining = .int 0) :
    d.next now late =
      ({ task := .ok task, now := d.beginsAt now late, sleep := d.sleepAt now },
        { d with rest := tasks, index := d.index + 1, began := d.beginsAt now late,
                 remaining := .int (amount - 1) }) := by
  simp only [next, wake_of_not_fresh hfresh, hrest, handOut, hlimit]
  rw [refresh_of_zero (by exact hzero)]
  rfl

/-- What a request comes to, where a window has `rate` tasks: the tasks have run out, or the window
has one left, or it is used up and the next one is begun. -/
inductive Answer (d : Dispenser α τ) (rate : ℕ) (now late : τ) (e : Emission α τ)
    (d' : Dispenser α τ) : Prop
  | exhausted (hrest : d.rest = []) (he : e = { task := .error .exhausted, now })
      (hd : d' = d.wake now)
  | handed {task : α} {tasks : List α} {k : ℕ} (hrest : d.rest = task :: tasks)
      (hk : (d.wake now).remaining = .int (k + 1 : ℕ)) (he : e = { task := .ok task, now })
      (hd : d' = { d.wake now with
        rest := tasks, index := (d.wake now).index + 1, remaining := .int k })
  | begun {task : α} {tasks : List α} (hrest : d.rest = task :: tasks) (hfresh : d.fresh = false)
      (hzero : d.remaining = .int 0)
      (he : e = { task := .ok task, now := d.beginsAt now late, sleep := d.sleepAt now })
      (hd : d' = { d with
        rest := tasks, index := d.index + 1, began := d.beginsAt now late,
        remaining := .int (rate - 1) })

theorem Within.answer (h : d.Within rate) (hpos : 0 < rate) :
    d.Answer rate now late (d.next now late).1 (d.next now late).2 := by
  cases hrest : d.rest with
  | nil => rw [next_of_nil hrest]; exact .exhausted hrest rfl rfl
  | cons task tasks =>
    obtain ⟨k, -, hk⟩ : ∃ k : ℕ, k ≤ rate ∧ (d.wake now).remaining = .int k := h.wake.remaining
    cases k with
    | zero =>
      -- The first request finds a whole window, so this is not it.
      have hfresh : d.fresh = false := by
        by_contra hne
        rw [wake_of_fresh (by simpa using hne), h.limit] at hk
        simp only [Limit.allowance, int_inj] at hk
        omega
      rw [wake_of_not_fresh hfresh] at hk
      rw [next_of_zero hrest h.limit hfresh hk]
      exact .begun hrest hfresh hk rfl rfl
    | succ k =>
      rw [next_of_ne_zero hrest h.limit hk (by omega)]
      exact .handed hrest hk rfl (by simp)

/-- A request keeps a window within its limit. -/
theorem Answer.within (h : d.Answer rate now late e d') (hd : d.Within rate) (hpos : 0 < rate) :
    d'.Within rate := by
  have hwake : (d.wake now).Within rate := hd.wake
  rcases h with ⟨-, -, rfl⟩ | ⟨-, hk, -, rfl⟩ | ⟨-, -, -, -, rfl⟩
  · exact hwake
  · obtain ⟨m, hm, hremaining⟩ := hwake.remaining
    rw [hk] at hremaining
    rw [int_inj] at hremaining
    exact ⟨hwake.limit, _, by omega, rfl⟩
  · exact ⟨hd.limit, rate - 1, by omega, by simp [Nat.cast_sub hpos]⟩

theorem Answer.rest (h : d.Answer rate now late e d') : d'.rest = d.rest.tail := by
  rcases h with ⟨hrest, -, rfl⟩ | ⟨hrest, -, -, rfl⟩ | ⟨hrest, -, -, -, rfl⟩ <;> simp [hrest]

theorem Answer.span (h : d.Answer rate now late e d') : d'.span = d.span := by
  rcases h with ⟨-, -, rfl⟩ | ⟨-, -, -, rfl⟩ | ⟨-, -, -, -, rfl⟩ <;> simp

theorem Answer.fresh (h : d.Answer rate now late e d') : d'.fresh = false := by
  rcases h with ⟨-, -, rfl⟩ | ⟨-, -, -, rfl⟩ | ⟨-, hfresh, -, -, rfl⟩ <;> simp [*]

end Request

section Clock

variable [CommRing τ] [LinearOrder τ] [IsStrictOrderedRing τ] {late : τ}

theorem le_beginsAt (hlate : 0 ≤ late) : now ≤ d.beginsAt now late := by
  unfold beginsAt
  split_ifs with h <;> linarith

theorem began_add_le_beginsAt (hlate : 0 ≤ late) :
    d.began + d.span.seconds ≤ d.beginsAt now late := by
  unfold beginsAt
  split_ifs with h <;> simp only [secondsLeft] at h ⊢ <;> linarith

end Clock
end Dispenser

/-- How the clock moves at a request: some time passes before it, and some before a window begins
that it asks for, a sleep apart. -/
structure Turn (τ : Type) [Zero τ] [LE τ] where
  pause : τ
  late : τ
  pause_nonneg : 0 ≤ pause
  late_nonneg : 0 ≤ late

/-- Requests to a dispenser with a limit, one after the other. -/
structure Session (α τ : Type) [Zero τ] [LE τ] where
  tasks : List α
  rate : ℕ
  rate_pos : 0 < rate
  span : Span
  /-- When the dispenser is set up. -/
  made : τ
  turns : ℕ → Turn τ

namespace Session

variable {α τ : Type} [CommRing τ] [LinearOrder τ] (s : Session α τ)
variable {n m : ℕ}

/-- The dispenser and the clock after so many requests. -/
def after : ℕ → Dispenser α τ × τ
  | 0 => (.make s.tasks (.ofValue (.int s.rate)) s.span s.made, s.made)
  | n + 1 =>
    let (d, now) := after n
    let (e, d) := d.next (now + (s.turns n).pause) (s.turns n).late
    (d, e.now)

/-- The dispenser after so many requests. -/
def dispenser (n : ℕ) : Dispenser α τ := (s.after n).1

def asked (n : ℕ) : τ := (s.after n).2 + (s.turns n).pause

def emission (n : ℕ) : Emission α τ := ((s.dispenser n).next (s.asked n) (s.turns n).late).1

/-- When request `n` is answered. -/
def time (n : ℕ) : τ := (s.emission n).now

def length : τ := s.span.seconds

/-- Request `n` finds no window with tasks left, and begins one. -/
def Begins (n : ℕ) : Prop := (s.dispenser n).fresh = true ∨ (s.dispenser n).remaining = .int 0

theorem asked_succ (n : ℕ) : s.asked (n + 1) = s.time n + (s.turns (n + 1)).pause := rfl

/-! ### The state after so many requests -/

theorem within (n : ℕ) : (s.dispenser n).Within s.rate := by
  induction n with
  | zero => exact ⟨rfl, s.rate, le_rfl, rfl⟩
  | succ n ih => exact (ih.answer s.rate_pos).within ih s.rate_pos

theorem answer (n : ℕ) :
    (s.dispenser n).Answer s.rate (s.asked n) (s.turns n).late (s.emission n)
      (s.dispenser (n + 1)) :=
  (s.within n).answer s.rate_pos

theorem dispenser_rest (n : ℕ) : (s.dispenser n).rest = s.tasks.drop n := by
  induction n with
  | zero => rfl
  | succ n ih => rw [(s.answer n).rest, ih, tail_drop]

theorem dispenser_span (n : ℕ) : (s.dispenser n).span = s.span := by
  induction n with
  | zero => rfl
  | succ n ih => rw [(s.answer n).span, ih]

theorem dispenser_fresh_zero : (s.dispenser 0).fresh = true := rfl

theorem dispenser_fresh_succ (n : ℕ) : (s.dispenser (n + 1)).fresh = false := (s.answer n).fresh

theorem lt_length_of_rest {task : α} {tasks : List α} (h : (s.dispenser n).rest = task :: tasks) :
    n < s.tasks.length := by
  rw [dispenser_rest] at h
  by_contra hle
  simp [drop_eq_nil_of_le (not_lt.1 hle)] at h

theorem length_le_of_rest (h : (s.dispenser n).rest = []) : s.tasks.length ≤ n := by
  rwa [dispenser_rest, drop_eq_nil_iff] at h

theorem emission_task (n : ℕ) :
    (s.emission n).task = (s.tasks[n]?).elim (.error .exhausted) .ok := by
  have hrest := s.dispenser_rest n
  rw [← head?_drop, ← hrest]
  rcases s.answer n with ⟨h, he, -⟩ | ⟨h, -, he, -⟩ | ⟨h, -, -, he, -⟩ <;> rw [h, he] <;> rfl

/-! ### Windows -/

/-- The state after request `n` hands out a task: the window is the one begun last at a multiple of
the rate, and has the tasks left that have not been handed out since. -/
structure Window (n : ℕ) : Prop where
  remaining : (s.dispenser (n + 1)).remaining = .int (s.rate - 1 - n % s.rate : ℕ)
  began : (s.dispenser (n + 1)).began = s.time (n / s.rate * s.rate)

variable {s}

theorem Window.zero (h : 0 < s.tasks.length) : s.Window 0 := by
  have hwake : (s.dispenser 0).wake (s.asked 0) =
      { s.dispenser 0 with began := s.asked 0, remaining := .int s.rate, fresh := false } :=
    Dispenser.wake_of_fresh s.dispenser_fresh_zero
  rcases s.answer 0 with ⟨hrest, -, -⟩ | ⟨-, hk, he, hd⟩ | ⟨-, hfresh, -, -, -⟩
  · exact absurd (s.length_le_of_rest hrest) (not_le.2 h)
  · rw [hwake] at hk hd
    rw [int_inj] at hk
    have hk' := Int.natCast_inj.1 hk
    refine ⟨?_, ?_⟩
    · rw [hd, hk']
      simp
    · rw [hd, Nat.zero_div, Nat.zero_mul, time, he]
  · simp [dispenser_fresh_zero] at hfresh

theorem succ_mod_of_not_dvd {r : ℕ} (h : ¬ r ∣ n + 1) : (n + 1) % r = n % r + 1 := by
  have hdiv := Nat.succ_div_of_not_dvd h
  have h₁ := Nat.mod_add_div n r
  have h₂ := Nat.mod_add_div (n + 1) r
  rw [hdiv] at h₂
  omega

theorem mod_of_dvd_succ {r : ℕ} (h : r ∣ n + 1) : n % r + 1 = r := by
  have hdiv := Nat.succ_div_of_dvd h
  have h₁ := Nat.mod_add_div n r
  have h₂ := Nat.mod_add_div (n + 1) r
  rw [hdiv, Nat.mod_eq_zero_of_dvd h, Nat.mul_add] at h₂
  omega

/-- A window is used up when its number of tasks has been handed out. -/
theorem Window.remaining_eq_zero_iff (h : s.Window n) :
    (s.dispenser (n + 1)).remaining = .int 0 ↔ s.rate ∣ n + 1 := by
  have hlt := Nat.mod_lt n s.rate_pos
  rw [h.remaining, int_inj, Int.natCast_eq_zero]
  constructor
  · intro hzero
    by_contra hdvd
    have hmod := succ_mod_of_not_dvd hdvd
    have hlt' := Nat.mod_lt (n + 1) s.rate_pos
    omega
  · intro hdvd
    have hmod := mod_of_dvd_succ hdvd
    omega

theorem Window.succ (h : s.Window n) (hn : n + 1 < s.tasks.length) : s.Window (n + 1) := by
  have hwake : (s.dispenser (n + 1)).wake (s.asked (n + 1)) = s.dispenser (n + 1) :=
    Dispenser.wake_of_not_fresh (s.dispenser_fresh_succ n)
  rcases s.answer (n + 1) with ⟨hrest, -, -⟩ | ⟨-, hk, he, hd⟩ | ⟨-, -, hzero, he, hd⟩
  · exact absurd (s.length_le_of_rest hrest) (not_le.2 hn)
  · rw [hwake] at hk hd
    have hdvd : ¬ s.rate ∣ n + 1 := by
      rw [← h.remaining_eq_zero_iff, hk, int_inj]
      omega
    have hmod := succ_mod_of_not_dvd hdvd
    rw [h.remaining, int_inj] at hk
    refine ⟨?_, ?_⟩
    · rw [hd, int_inj]
      omega
    · rw [hd, Nat.succ_div_of_not_dvd hdvd]
      exact h.began
  · have hdvd : s.rate ∣ n + 1 := h.remaining_eq_zero_iff.1 hzero
    refine ⟨?_, ?_⟩
    · rw [hd, Nat.mod_eq_zero_of_dvd hdvd, int_inj]
      have := s.rate_pos
      omega
    · rw [hd, Nat.div_mul_cancel hdvd, time, he]

variable (s)

theorem window (h : n < s.tasks.length) : s.Window n := by
  induction n with
  | zero => exact .zero h
  | succ n ih => exact (ih (by omega)).succ h

theorem lt_succ_div_mul (n : ℕ) : n < (n / s.rate + 1) * s.rate := by
  rw [Nat.succ_mul]
  exact Nat.lt_div_mul_add s.rate_pos

theorem begins_iff (h : n < s.tasks.length) : s.Begins n ↔ s.rate ∣ n := by
  cases n with
  | zero => simp [Begins, dispenser_fresh_zero]
  | succ n =>
    simp only [Begins, dispenser_fresh_succ, Bool.false_eq_true, false_or]
    exact (s.window (by omega)).remaining_eq_zero_iff

theorem exists_begins (hmn : m + s.rate ≤ n) (h : n < s.tasks.length) :
    ∃ i, m < i ∧ i ≤ n ∧ s.Begins i := by
  have hm : m < (m / s.rate + 1) * s.rate := s.lt_succ_div_mul m
  have hle : m / s.rate * s.rate ≤ m := Nat.div_mul_le_self m s.rate
  have hadd : (m / s.rate + 1) * s.rate = m / s.rate * s.rate + s.rate := Nat.succ_mul _ _
  refine ⟨_, hm, by omega, (s.begins_iff (by omega)).2 ⟨_, Nat.mul_comm _ _⟩⟩

theorem not_begins_between {i : ℕ} (hi : n / s.rate * s.rate < i) (hin : i < n + 1)
    (h : i < s.tasks.length) : ¬ s.Begins i := by
  rw [s.begins_iff h]
  rintro ⟨c, rfl⟩
  have hle : c ≤ n / s.rate := (Nat.le_div_iff_mul_le s.rate_pos).2 (by rw [Nat.mul_comm]; omega)
  have hmul := Nat.mul_le_mul_right s.rate hle
  rw [Nat.mul_comm c] at hmul
  omega

theorem began_of_not_begins (h : n < s.tasks.length) (hb : ¬ s.Begins n) :
    (s.dispenser (n + 1)).began = (s.dispenser n).began := by
  cases n with
  | zero => exact absurd (.inl s.dispenser_fresh_zero) hb
  | succ n =>
    have hdvd := mt (s.begins_iff h).2 hb
    rw [(s.window h).began, (s.window (n := n) (by omega)).began, Nat.succ_div_of_not_dvd hdvd]

/-! ### The clock -/

variable [IsStrictOrderedRing τ]

theorem time_le_asked_succ (n : ℕ) : s.time n ≤ s.asked (n + 1) := by
  rw [asked_succ]
  exact le_add_of_nonneg_right (s.turns (n + 1)).pause_nonneg

theorem asked_le_time (n : ℕ) : s.asked n ≤ s.time n := by
  unfold time
  rcases s.answer n with ⟨-, he, -⟩ | ⟨-, -, he, -⟩ | ⟨-, -, -, he, -⟩ <;> rw [he]
  exact Dispenser.le_beginsAt (s.turns n).late_nonneg

theorem monotone_time : Monotone s.time :=
  monotone_nat_of_le_succ fun n => (s.time_le_asked_succ n).trans (s.asked_le_time (n + 1))

theorem time_add_length_le {j : ℕ} (h : (j + 1) * s.rate < s.tasks.length) :
    s.time (j * s.rate) + s.length ≤ s.time ((j + 1) * s.rate) := by
  obtain ⟨n, hn⟩ : ∃ n, (j + 1) * s.rate = n + 1 :=
    Nat.exists_eq_add_one.2 (Nat.mul_pos j.succ_pos s.rate_pos)
  have hdvd : s.rate ∣ n + 1 := ⟨j + 1, by rw [← hn, Nat.mul_comm]⟩
  have hdiv : n / s.rate = j := by
    have hsucc := Nat.succ_div_of_dvd hdvd
    rw [← hn, Nat.mul_div_cancel _ s.rate_pos] at hsucc
    omega
  rw [hn] at h ⊢
  have hwindow := s.window (n := n) (by omega)
  have hzero := hwindow.remaining_eq_zero_iff.2 hdvd
  rcases s.answer (n + 1) with ⟨hrest, -, -⟩ | ⟨-, hk, -, -⟩ | ⟨-, -, -, he, -⟩
  · exact absurd (s.length_le_of_rest hrest) (not_le.2 h)
  · rw [Dispenser.wake_of_not_fresh (s.dispenser_fresh_succ n), hzero, int_inj] at hk
    omega
  · calc s.time (j * s.rate) + s.length
        = (s.dispenser (n + 1)).began + (s.dispenser (n + 1)).span.seconds := by
          rw [hwindow.began, hdiv, s.dispenser_span, length]
      _ ≤ (s.dispenser (n + 1)).beginsAt (s.asked (n + 1)) (s.turns (n + 1)).late :=
          Dispenser.began_add_le_beginsAt (s.turns (n + 1)).late_nonneg
      _ = s.time (n + 1) := by rw [time, he]

theorem apart (hmn : m < n) (h : n < s.tasks.length) (hm : s.Begins m) (hn : s.Begins n) :
    s.time m + s.length ≤ s.time n := by
  obtain ⟨i, rfl⟩ := (s.begins_iff (hmn.trans h)).1 hm
  obtain ⟨j, rfl⟩ := (s.begins_iff h).1 hn
  rw [Nat.mul_comm s.rate] at h hmn ⊢
  rw [Nat.mul_comm s.rate] at hmn ⊢
  have hij : i < j := lt_of_mul_lt_mul_right hmn (Nat.zero_le _)
  obtain ⟨j, rfl⟩ : ∃ k, j = k + 1 := Nat.exists_eq_add_one.2 (by omega)
  have hle : i * s.rate ≤ j * s.rate := Nat.mul_le_mul_right _ (by omega)
  calc s.time (i * s.rate) + s.length
      ≤ s.time (j * s.rate) + s.length := by gcongr; exact s.monotone_time hle
    _ ≤ s.time ((j + 1) * s.rate) := s.time_add_length_le h

theorem paced (h : n < s.tasks.length) : s.asked 0 + (n / s.rate : ℕ) * s.length ≤ s.time n := by
  have hle : n / s.rate * s.rate ≤ n := Nat.div_mul_le_self n s.rate
  refine le_trans ?_ (s.monotone_time hle)
  generalize n / s.rate = j at hle
  induction j with
  | zero => simpa using s.asked_le_time 0
  | succ j ih =>
    have hlt : j * s.rate ≤ n := le_trans (Nat.mul_le_mul_right _ (by omega)) hle
    calc s.asked 0 + (j + 1 : ℕ) * s.length
        = s.asked 0 + j * s.length + s.length := by rw [Nat.cast_add_one, add_one_mul, add_assoc]
      _ ≤ s.time (j * s.rate) + s.length := by gcongr; exact ih hlt
      _ ≤ s.time ((j + 1) * s.rate) := s.time_add_length_le (by omega)

/-- Of two tasks with a whole window between theirs, the second comes a window's length later. -/
theorem time_add_length_le_of_far (h : n < s.tasks.length) (hfar : (m / s.rate + 2) * s.rate ≤ n) :
    s.time m + s.length ≤ s.time n := by
  have hm : m ≤ (m / s.rate + 1) * s.rate := (s.lt_succ_div_mul m).le
  calc s.time m + s.length
      ≤ s.time ((m / s.rate + 1) * s.rate) + s.length := by gcongr; exact s.monotone_time hm
    _ ≤ s.time ((m / s.rate + 2) * s.rate) := s.time_add_length_le (lt_of_le_of_lt hfar h)
    _ ≤ s.time n := s.monotone_time hfar

/-- The tasks handed out in a stretch of time as long as a window. -/
def stretch (x : τ) : Finset ℕ :=
  (Finset.range s.tasks.length).filter fun n => x ≤ s.time n ∧ s.time n < x + s.length

/-- A stretch as long as a window has the tasks of two windows at most. -/
theorem crowd (x : τ) : (s.stretch x).card ≤ 2 * s.rate := by
  rcases (s.stretch x).eq_empty_or_nonempty with hempty | hne
  · simp [hempty]
  obtain ⟨m, hm, hmin⟩ := Finset.exists_min_image (s.stretch x) id hne
  simp only [stretch, Finset.mem_filter, Finset.mem_range, id] at hm hmin
  have hsub : s.stretch x ⊆ Finset.Ico (m / s.rate * s.rate) ((m / s.rate + 2) * s.rate) := by
    intro n hn
    simp only [stretch, Finset.mem_filter, Finset.mem_range] at hn
    rw [Finset.mem_Ico]
    refine ⟨le_trans (Nat.div_mul_le_self m s.rate) (hmin n hn), ?_⟩
    by_contra hfar
    have hlater := s.time_add_length_le_of_far hn.1 (not_lt.1 hfar)
    exact absurd hn.2.2 (not_lt.2 (le_trans (by gcongr; exact hm.2.1) hlater))
  calc (s.stretch x).card ≤ _ := Finset.card_le_card hsub
    _ = 2 * s.rate := by rw [Nat.card_Ico, ← Nat.sub_mul, Nat.add_sub_cancel_left]

/-- A sleep before the answer to request `n`: it is for the rest of the window begun with request
`n - rate`, whose tasks are used up before it is over. -/
structure Sleeps (n : ℕ) (t : τ) : Prop where
  usedUp : ∃ m, m + s.rate = n ∧ s.Begins m ∧ (∀ i, m < i → i < n → ¬ s.Begins i) ∧
    s.asked n < s.time m + s.length ∧ t = s.time m + s.length - s.asked n
  le_length : t ≤ s.length
  wakes : s.asked n + t ≤ s.time n

theorem sleeps {t : τ} (h : (s.emission n).sleep = some t) : s.Sleeps n t := by
  rcases s.answer n with ⟨-, he, -⟩ | ⟨-, -, he, -⟩ | ⟨hrest, hfresh, hzero, he, -⟩
  · simp [he] at h
  · simp [he] at h
  cases n with
  | zero => simp [dispenser_fresh_zero] at hfresh
  | succ n =>
    have hlt := s.lt_length_of_rest hrest
    have hwindow : s.Window n := s.window (by omega)
    have hdvd := hwindow.remaining_eq_zero_iff.1 hzero
    have hleft : (s.dispenser (n + 1)).secondsLeft (s.asked (n + 1)) =
        s.time (n / s.rate * s.rate) + s.length - s.asked (n + 1) := by
      rw [Dispenser.secondsLeft, s.dispenser_span, hwindow.began, length]
      abel
    have hnext : n / s.rate * s.rate + s.rate = n + 1 := by
      rw [← Nat.succ_mul, Nat.succ_eq_add_one, ← Nat.succ_div_of_dvd hdvd, Nat.div_mul_cancel hdvd]
    have hasked : s.time (n / s.rate * s.rate) ≤ s.asked (n + 1) :=
      (s.monotone_time (Nat.div_mul_le_self n s.rate)).trans (s.time_le_asked_succ n)
    simp only [he, Dispenser.sleepAt, Option.ite_none_right_eq_some, Option.some.injEq] at h
    obtain ⟨hpos, rfl⟩ := h
    refine ⟨⟨_, hnext, ?_, ?_, ?_, hleft⟩, ?_, ?_⟩
    · exact (s.begins_iff (by omega)).2 ⟨_, Nat.mul_comm _ _⟩
    · exact fun i hi hin => s.not_begins_between hi hin (by omega)
    · rw [hleft] at hpos
      linarith
    · rw [hleft]
      linarith
    · have hlate := (s.turns (n + 1)).late_nonneg
      rw [time, he, Dispenser.beginsAt, if_pos hpos]
      linarith

/-! ### The limit -/

/-- The tasks are handed out in order, and at the rate that the limit allows. -/
structure KeepsRate : Prop where
  handsOut : ∀ n (h : n < s.tasks.length), (s.emission n).task = .ok s.tasks[n]
  exhausted : ∀ n, s.tasks.length ≤ n → (s.emission n).task = .error .exhausted
  /-- Task `n` comes no earlier than the limit says, counted from the first request. -/
  paced : ∀ n < s.tasks.length, s.asked 0 + (n / s.rate : ℕ) * s.length ≤ s.time n
  /-- A window that is begun at a request begins with its answer, and goes on until another is. -/
  begun : ∀ n < s.tasks.length, s.Begins n → (s.dispenser (n + 1)).began = s.time n
  goesOn : ∀ n < s.tasks.length, ¬ s.Begins n →
    (s.dispenser (n + 1)).began = (s.dispenser n).began
  apart : ∀ m n, m < n → n < s.tasks.length → s.Begins m → s.Begins n →
    s.time m + s.length ≤ s.time n
  shared : ∀ m n, m + s.rate ≤ n → n < s.tasks.length → ∃ i, m < i ∧ i ≤ n ∧ s.Begins i
  /-- So has a stretch of a window's length, wherever it begins, at most twice as many. -/
  crowd : ∀ x, (s.stretch x).card ≤ 2 * s.rate
  budget : ∀ n, ∃ k : ℕ, k ≤ s.rate ∧ (s.dispenser n).remaining = .int k
  sleeps : ∀ n t, (s.emission n).sleep = some t → s.Sleeps n t

/-- However a session goes, it keeps its rate. -/
theorem keepsRate : s.KeepsRate where
  handsOut n h := by simp [s.emission_task, h]
  exhausted n h := by simp [s.emission_task, h]
  paced _ := s.paced
  begun n h hb := by
    rw [(s.window h).began, Nat.div_mul_cancel ((s.begins_iff h).1 hb)]
  goesOn n h hb := s.began_of_not_begins h hb
  apart _ _ := s.apart
  shared _ _ := s.exists_begins
  crowd := s.crowd
  budget n := (s.within n).remaining
  sleeps _ _ := s.sleeps

/-- Three tasks at two a minute, asked for second by second; the sleeper is three seconds late. -/
def burst : Session String ℤ where
  tasks := ["a", "b", "c"]
  rate := 2
  rate_pos := by decide
  span := .minute
  made := 0
  turns _ := { pause := 1, late := 3, pause_nonneg := by decide, late_nonneg := by decide }

theorem keepsRate_burst :
    burst.KeepsRate ∧ (burst.emission 2).sleep = some 58 ∧ burst.time 2 = 64 :=
  ⟨burst.keepsRate, by decide, by decide⟩

end Session
end Schedule
end RegexCorpus
